import Osedax.Support.Window

/-!
# Searching for a word

The positions at which a word occurs, and the searches that jump over a match.  A search that
resumes behind a match does not look inside it; this misses nothing when no proper suffix of the
word is a prefix of it (`Unbordered`), since two occurrences are then apart.
-/

namespace Window

variable {α : Type*}

theorem occursAt_zero_iff {w s : List α} : OccursAt w 0 s ↔ w <+: s :=
  occursAt_iff_prefix_drop (Nat.zero_le _)

theorem occursAt_succ_cons_iff {w s : List α} {a : α} {i : ℕ} :
    OccursAt w (i + 1) (a :: s) ↔ OccursAt w i s := by
  apply Iff.intro
  · rintro ⟨pre, post, h, hpre⟩
    cases pre with
    | nil => cases hpre
    | cons b pre => exact ⟨pre, post, (List.cons.inj h).2, Nat.succ.inj hpre⟩
  · rintro ⟨pre, post, rfl, rfl⟩
    exact ⟨a :: pre, post, rfl, rfl⟩

theorem occursAt_append_iff {u v s : List α} {i : ℕ} :
    OccursAt (u ++ v) i s ↔ OccursAt u i s ∧ OccursAt v (i + u.length) s := by
  apply Iff.intro
  · rintro ⟨pre, post, rfl, rfl⟩
    exact ⟨⟨pre, v ++ post, by simp, rfl⟩, ⟨pre ++ u, post, by simp, List.length_append⟩⟩
  · rintro ⟨⟨pre, post, rfl, rfl⟩, hv⟩
    rw [← List.append_assoc, ← List.length_append,
      occursAt_iff_prefix_drop (by simp), List.drop_left] at hv
    obtain ⟨post, rfl⟩ := hv
    exact ⟨pre, post, by simp, rfl⟩

theorem occursAt_drop_iff {w s : List α} {n i : ℕ} (hn : n ≤ s.length) :
    OccursAt w i (s.drop n) ↔ OccursAt w (n + i) s := by
  apply Iff.intro
  · rintro ⟨pre, post, h, rfl⟩
    refine ⟨s.take n ++ pre, post, ?_, by simp [hn]⟩
    rw [List.append_assoc, ← h, List.take_append_drop]
  · rintro ⟨pre, post, rfl, hpre⟩
    refine ⟨pre.drop n, post, List.drop_append_of_le_length (by omega), ?_⟩
    rw [List.length_drop]
    omega

/-! ## Occurrences that do not overlap -/

/-- No proper suffix of the word is a prefix of it. -/
def Unbordered (w : List α) : Prop := ∀ k < w.length, 0 < k → ¬ w.drop k <+: w

instance [DecidableEq α] (w : List α) : Decidable (Unbordered w) :=
  inferInstanceAs (Decidable (∀ k < w.length, 0 < k → ¬ w.drop k <+: w))

theorem Unbordered.add_length_le {w s : List α} (h : Unbordered w) {i j : ℕ}
    (hi : OccursAt w i s) (hj : OccursAt w j s) (hij : i < j) : i + w.length ≤ j := by
  by_contra hlt
  obtain ⟨pre, post, rfl, rfl⟩ := hi
  rw [occursAt_iff_prefix_drop (by simp; omega),
    show j = pre.length + (j - pre.length) by omega, ← List.drop_drop, List.drop_left,
    List.drop_append_of_le_length (by omega)] at hj
  refine h (j - pre.length) (by omega) (by omega) ?_
  exact List.prefix_of_prefix_length_le (List.prefix_append _ post) hj
    (List.length_drop.le.trans (Nat.sub_le _ _))

/-- From the first occurrence on, a search may resume behind it. -/
theorem Unbordered.eq_or_resume {w s : List α} (h : Unbordered w) {start p i : ℕ}
    (hp : OccursAt w p s) (hfirst : ∀ k, start ≤ k → k < p → ¬ OccursAt w k s)
    (hstart : start ≤ i) (hi : OccursAt w i s) : i = p ∨ p + w.length ≤ i := by
  rcases Nat.lt_trichotomy i p with hlt | heq | hgt
  · exact absurd hi (hfirst i hstart hlt)
  · exact Or.inl heq
  · exact Or.inr (h.add_length_le hp hi hgt)

end Window
