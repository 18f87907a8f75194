import Mathlib.Data.List.Infix
import Mathlib.Data.List.TakeDrop
import Mathlib.Order.Interval.Set.Basic

/-!
# Windows of a buffer

A buffer is a list; a window is a run of its elements at a fixed offset.  `slice` is the partial
read of a window, `OccursAt` says which word stands in it.  A parser that only reads windows does
not see what lies outside them: two buffers with `AgreeOn S` have the same words in every window
inside `S`.
-/

namespace Window

variable {α : Type*}

/-- The `len` elements of `buf` from `off`, or `none` when they do not all exist. -/
def slice (buf : List α) (off len : ℕ) : Option (List α) :=
  if off + len ≤ buf.length then some ((buf.drop off).take len) else none

/-- The word `w` stands in `buf` at offset `off`. -/
def OccursAt (w : List α) (off : ℕ) (buf : List α) : Prop :=
  ∃ pre post, buf = pre ++ (w ++ post) ∧ pre.length = off

theorem slice_eq_none_iff {buf : List α} {off len : ℕ} :
    slice buf off len = none ↔ buf.length < off + len := by
  unfold slice
  split_ifs with h <;> simp <;> omega

theorem slice_eq_some_iff {buf w : List α} {off len : ℕ} :
    slice buf off len = some w ↔ OccursAt w off buf ∧ w.length = len := by
  unfold slice
  apply Iff.intro
  · intro h
    split_ifs at h with hl
    obtain rfl := Option.some.inj h
    refine ⟨⟨buf.take off, buf.drop (off + len), ?_, by simp; omega⟩, by simp; omega⟩
    rw [← List.drop_drop, List.take_append_drop, List.take_append_drop]
  · rintro ⟨⟨pre, post, rfl, rfl⟩, rfl⟩
    rw [if_pos (by simp), List.drop_left, List.take_left]

theorem slice_eq_some_of_length_le {buf : List α} {off len : ℕ} (h : off + len ≤ buf.length) :
    slice buf off len = some ((buf.drop off).take len) := if_pos h

theorem slice_length_eq_some_iff {buf w : List α} {off : ℕ} :
    slice buf off w.length = some w ↔ OccursAt w off buf := by
  simp [slice_eq_some_iff]

theorem OccursAt.length_le {w buf : List α} {off : ℕ} (h : OccursAt w off buf) :
    off + w.length ≤ buf.length := by
  obtain ⟨pre, post, rfl, rfl⟩ := h
  simp

/-- Extending the buffer keeps every window that already exists. -/
theorem OccursAt.mono {w buf buf' : List α} {off : ℕ} (hp : buf <+: buf')
    (h : OccursAt w off buf) : OccursAt w off buf' := by
  obtain ⟨t, rfl⟩ := hp
  obtain ⟨pre, post, rfl, rfl⟩ := h
  exact ⟨pre, post ++ t, by simp, rfl⟩

theorem occursAt_iff_getElem? {w buf : List α} {off : ℕ} (hw : w ≠ []) :
    OccursAt w off buf ↔ ∀ i < w.length, buf[off + i]? = w[i]? := by
  apply Iff.intro
  · rintro ⟨pre, post, rfl, rfl⟩ i hi
    rw [List.getElem?_append_right (Nat.le_add_right _ _), Nat.add_sub_cancel_left,
      List.getElem?_append_left hi]
  · intro h
    have hpos : 0 < w.length := List.length_pos_iff.2 hw
    have hlast : off + (w.length - 1) < buf.length := by
      have := h (w.length - 1) (by omega)
      rw [List.getElem?_eq_getElem (by omega : w.length - 1 < w.length)] at this
      exact (List.getElem?_eq_some_iff.1 this).1
    rw [← slice_length_eq_some_iff, slice_eq_some_of_length_le (by omega), Option.some.injEq]
    apply List.ext_getElem?
    intro i
    rw [List.getElem?_take, List.getElem?_drop]
    split_ifs with hi
    · exact h i hi
    · exact (List.getElem?_eq_none (by omega)).symm

theorem OccursAt.getD_eq {w buf : List α} {off i : ℕ} (h : OccursAt w off buf) (hi : i < w.length)
    (d : α) : buf.getD (off + i) d = w.getD i d := by
  have hw : w ≠ [] := List.length_pos_iff.1 (by omega)
  rw [List.getD_eq_getElem?_getD, List.getD_eq_getElem?_getD,
    (occursAt_iff_getElem? hw).1 h i hi]

theorem occursAt_iff_prefix_drop {w buf : List α} {off : ℕ} (h : off ≤ buf.length) :
    OccursAt w off buf ↔ w <+: buf.drop off := by
  apply Iff.intro
  · rintro ⟨pre, post, rfl, rfl⟩
    rw [List.drop_left]
    exact List.prefix_append w post
  · intro ⟨post, hpost⟩
    exact ⟨buf.take off, post, by rw [hpost, List.take_append_drop], List.length_take_of_le h⟩

/-- Reading inside a window is reading the buffer behind it. -/
theorem occursAt_slice_iff {w buf v : List α} {off len i : ℕ} (h : slice buf off len = some v)
    (hi : i + w.length ≤ len) : OccursAt w i v ↔ OccursAt w (off + i) buf := by
  obtain ⟨⟨pre, post, rfl, rfl⟩, rfl⟩ := slice_eq_some_iff.1 h
  have hlen : w.length ≤ (v.drop i).length := by
    rw [List.length_drop]
    omega
  rw [occursAt_iff_prefix_drop (by omega), occursAt_iff_prefix_drop (by simp; omega),
    ← List.drop_drop, List.drop_left, List.drop_append_of_le_length (by omega)]
  exact ⟨List.prefix_append_of_prefix, fun h =>
    List.prefix_of_prefix_length_le h (List.prefix_append _ _) hlen⟩

/-- A window of a truncated buffer is a window of the buffer that ends before the cut. -/
theorem occursAt_take_iff {w buf : List α} {off n : ℕ} :
    OccursAt w off (buf.take n) ↔ OccursAt w off buf ∧ off + w.length ≤ n := by
  apply Iff.intro
  · intro h
    have hl := h.length_le
    rw [List.length_take] at hl
    exact ⟨h.mono (List.take_prefix n buf), by omega⟩
  · rintro ⟨⟨pre, post, rfl, rfl⟩, hn⟩
    refine ⟨pre, post.take (n - (pre.length + w.length)), ?_, rfl⟩
    rw [List.take_append, List.take_of_length_le (by omega), List.take_append,
      List.take_of_length_le (by omega : w.length ≤ n - pre.length), Nat.sub_sub]

/-! ## Buffers that agree at some positions -/

/-- The two buffers have the same element, or both none, at each position in `S`. -/
def AgreeOn (S : Set ℕ) (a b : List α) : Prop := ∀ i ∈ S, a[i]? = b[i]?

theorem AgreeOn.mono {S S' : Set ℕ} {a b : List α} (h : AgreeOn S' a b) (hS : S ⊆ S') :
    AgreeOn S a b := fun i hi => h i (hS hi)

theorem AgreeOn.symm {S : Set ℕ} {a b : List α} (h : AgreeOn S a b) : AgreeOn S b a :=
  fun i hi => (h i hi).symm

theorem AgreeOn.trans {S : Set ℕ} {a b c : List α} (h : AgreeOn S a b) (h' : AgreeOn S b c) :
    AgreeOn S a c := fun i hi => (h i hi).trans (h' i hi)

/-- A buffer that ends before the bound is all that agrees with it below the bound. -/
theorem AgreeOn.eq_of_length_lt {n : ℕ} {a b : List α} (h : AgreeOn (Set.Iio n) a b)
    (ha : a.length < n) : b = a := by
  have hend : b[a.length]? = none := by
    rw [← h a.length ha, List.getElem?_eq_none le_rfl]
  have hlen : b.length ≤ a.length := List.getElem?_eq_none_iff.1 hend
  apply List.ext_getElem?
  intro i
  by_cases hi : i < n
  · exact (h i hi).symm
  · rw [List.getElem?_eq_none (by omega), List.getElem?_eq_none (by omega)]

/-- Extending a buffer changes nothing below its length. -/
theorem agreeOn_of_extension {S : Set ℕ} {a b : List α} (hp : a <+: b)
    (hS : ∀ i ∈ S, i < a.length) : AgreeOn S a b := by
  obtain ⟨t, rfl⟩ := hp
  exact fun i hi => (List.getElem?_append_left (hS i hi)).symm

theorem AgreeOn.occursAt_iff {S : Set ℕ} {a b w : List α} {off : ℕ} (h : AgreeOn S a b)
    (hw : w ≠ []) (hS : Set.Ico off (off + w.length) ⊆ S) :
    OccursAt w off a ↔ OccursAt w off b := by
  rw [occursAt_iff_getElem? hw, occursAt_iff_getElem? hw]
  refine forall₂_congr fun i hi => ?_
  rw [h (off + i) (hS ⟨Nat.le_add_right _ _, by omega⟩)]

theorem AgreeOn.getD_eq {S : Set ℕ} {a b : List α} {i : ℕ} (h : AgreeOn S a b) (hi : i ∈ S)
    (d : α) : a.getD i d = b.getD i d := by
  rw [List.getD_eq_getElem?_getD, List.getD_eq_getElem?_getD, h i hi]

/-! ## Writing a window -/

/-- `buf` with the word `w` written over the window at `off`. -/
def overwrite (buf : List α) (off : ℕ) (w : List α) : List α :=
  buf.take off ++ (w ++ buf.drop (off + w.length))

section Overwrite

variable {buf w : List α} {off : ℕ} (h : off + w.length ≤ buf.length)

include h

theorem length_overwrite : (overwrite buf off w).length = buf.length := by
  simp only [overwrite, List.length_append, List.length_take, List.length_drop]
  omega

theorem occursAt_overwrite : OccursAt w off (overwrite buf off w) :=
  ⟨_, _, rfl, List.length_take_of_le (by omega)⟩

/-- A write is seen only inside its window. -/
theorem agreeOn_overwrite {S : Set ℕ} (hS : ∀ i ∈ S, i < off ∨ off + w.length ≤ i) :
    AgreeOn S (overwrite buf off w) buf := by
  intro i hi
  have htake : (buf.take off).length = off := List.length_take_of_le (by omega)
  rcases hS i hi with hlo | hhi
  · unfold overwrite
    rw [List.getElem?_append_left (by omega), List.getElem?_take_of_lt hlo]
  · unfold overwrite
    rw [List.getElem?_append_right (by omega), List.getElem?_append_right (by omega),
      List.getElem?_drop, htake]
    congr 1
    omega

end Overwrite

end Window
