import Mathlib.Data.List.TakeWhile

/-!
# Separated and terminated pieces of a list

Two ways to cut a list at the elements that satisfy `p`.  `words p` are the non-empty runs between
separators, as `split_whitespace` has them; `pieces p` ends each piece with its separator, as
`split_inclusive` has them, and only the last piece may lack one.  The rules compute both along a
list that is given as a run followed by a separator.
-/

namespace Fields

variable {α : Type*} {p : α → Bool} {w l m : List α} {s : α}

/-- No element is a separator. -/
def Free (p : α → Bool) (w : List α) : Prop := ∀ x ∈ w, p x = false

/-- The list is empty or ends with a separator. -/
def Terminated (p : α → Bool) (l : List α) : Prop := ∀ x, l.getLast? = some x → p x

def words (p : α → Bool) (l : List α) : List (List α) :=
  (l.splitOnP p).filter fun w => !w.isEmpty

def pieces (p : α → Bool) : List α → List (List α)
  | [] => []
  | x :: l =>
    if p x then [x] :: pieces p l
    else match pieces p l with
      | [] => [[x]]
      | w :: ws => (x :: w) :: ws

theorem Free.cons {x : α} (hx : p x = false) (hw : Free p w) : Free p (x :: w) :=
  List.forall_mem_cons.2 ⟨hx, hw⟩

theorem free_beq_iff {a : α} [BEq α] [LawfulBEq α] : Free (· == a) w ↔ a ∉ w := by
  apply Iff.intro
  · intro hw ha
    have hne : (a == a) = false := hw a ha
    rw [beq_self_eq_true] at hne
    contradiction
  · intro ha x hx
    rw [beq_eq_false_iff_ne]
    rintro rfl
    exact ha hx

/-- A list is free of separators, or starts with a free run and a separator. -/
theorem free_or_append_cons (p : α → Bool) (l : List α) :
    Free p l ∨ ∃ w s m, l = w ++ s :: m ∧ Free p w ∧ p s := by
  induction l with
  | nil => exact Or.inl fun x hx => absurd hx List.not_mem_nil
  | cons x l ih =>
    by_cases hx : p x
    · exact Or.inr ⟨[], x, l, rfl, fun y hy => absurd hy List.not_mem_nil, hx⟩
    · have hx' : p x = false := Bool.eq_false_iff.2 hx
      cases ih with
      | inl hfree => exact Or.inl (hfree.cons hx')
      | inr h =>
        obtain ⟨w, s, m, rfl, hw, hs⟩ := h
        exact Or.inr ⟨x :: w, s, m, rfl, hw.cons hx', hs⟩

/-! ## Words -/

@[simp] theorem words_nil : words p [] = [] := rfl

theorem words_append_cons (hs : p s) : words p (l ++ s :: m) = words p l ++ words p m := by
  unfold words
  rw [List.splitOnP_append_cons l m hs, List.filter_append]

theorem words_concat (hs : p s) : words p (l ++ [s]) = words p l := by
  rw [words_append_cons hs, words_nil, List.append_nil]

theorem words_of_free (hw : Free p w) (hne : w ≠ []) : words p w = [w] := by
  unfold words
  rw [List.splitOnP_eq_singleton hw, List.filter_cons_of_pos, List.filter_nil]
  rw [Bool.not_eq_true', List.isEmpty_eq_false_iff]
  exact hne

theorem words_cons_of_free (hw : Free p w) (hne : w ≠ []) (hs : p s) :
    words p (w ++ s :: l) = w :: words p l := by
  rw [words_append_cons hs, words_of_free hw hne, List.singleton_append]

/-- Replacing symbols one by one commutes with `takeWhile`, when what replaces a symbol is kept or
dropped as a whole. -/
theorem takeWhile_flatMap {β : Type*} {q : β → Bool} {r : α → Bool} {g : α → List β}
    (hg : ∀ x, g x ≠ []) (hq : ∀ x, ∀ y ∈ g x, q y = r x) (l : List α) :
    (l.flatMap g).takeWhile q = (l.takeWhile r).flatMap g := by
  induction l with
  | nil => rfl
  | cons x l ih =>
    rw [List.flatMap_cons]
    by_cases hx : r x
    · have hall : ∀ y ∈ g x, q y = true := fun y hy => by rw [hq x y hy, hx]
      rw [List.takeWhile_append_of_pos hall, List.takeWhile_cons_of_pos hx, List.flatMap_cons, ih]
    · obtain ⟨y, ys, hys⟩ := List.exists_cons_of_ne_nil (hg x)
      have hy : ¬ q y = true := by
        rw [hq x y (by rw [hys]; exact List.mem_cons_self)]
        exact hx
      rw [hys, List.cons_append, List.takeWhile_cons_of_neg hy, List.takeWhile_cons_of_neg hx,
        List.flatMap_nil]

theorem takeWhile_append_cons {q : α → Bool} (hs : ¬ q s = true) :
    (l ++ s :: m).takeWhile q = l.takeWhile q := by
  induction l with
  | nil => exact List.takeWhile_cons_of_neg hs
  | cons x l ih =>
    rw [List.cons_append, List.takeWhile_cons, List.takeWhile_cons, ih]

/-- The first word of a list that does not start with a separator. -/
theorem words_eq_takeWhile {x : α} (hx : p x = false) (l : List α) :
    ∃ ws, words p (x :: l) = (x :: l).takeWhile (fun y => !p y) :: ws := by
  have htake : ∀ w, Free p w → w.takeWhile (fun y => !p y) = w := by
    intro w hw
    rw [List.takeWhile_eq_self_iff]
    intro y hy
    rw [hw y hy, Bool.not_false]
  cases free_or_append_cons p (x :: l) with
  | inl hfree => exact ⟨[], by rw [words_of_free hfree (List.cons_ne_nil x l), htake _ hfree]⟩
  | inr h =>
    obtain ⟨w, s, m, heq, hw, hs⟩ := h
    have hne : w ≠ [] := by
      rintro rfl
      obtain ⟨rfl, -⟩ := List.cons.inj heq
      exact Bool.false_ne_true (hx.symm.trans hs)
    refine ⟨words p m, ?_⟩
    rw [heq, words_cons_of_free hw hne hs, List.takeWhile_append_of_pos, List.takeWhile_cons_of_neg,
      List.append_nil]
    · rw [hs, Bool.not_true]
      exact Bool.false_ne_true
    · intro y hy
      rw [hw y hy, Bool.not_false]

/-! ## Pieces -/

theorem pieces_cons_of_free (hw : Free p w) (hs : p s) :
    pieces p (w ++ s :: l) = (w ++ [s]) :: pieces p l := by
  induction w with
  | nil => rw [List.nil_append, pieces, if_pos hs, List.nil_append]
  | cons x w ih =>
    have hx : ¬ p x = true := by
      rw [hw x List.mem_cons_self]
      exact Bool.false_ne_true
    rw [List.cons_append, pieces, if_neg hx, ih fun y hy => hw y (List.mem_cons_of_mem x hy)]
    rfl

theorem pieces_ne_nil (hl : l ≠ []) : pieces p l ≠ [] := by
  cases l with
  | nil => exact absurd rfl hl
  | cons x l =>
    unfold pieces
    split
    · exact List.cons_ne_nil _ _
    · split <;> exact List.cons_ne_nil _ _

theorem Terminated.tail {x : α} (h : Terminated p (x :: l)) : Terminated p l := by
  intro y hy
  apply h y
  rw [List.getLast?_cons, hy, Option.getD_some]

/-- Cutting is local: what follows a separator does not change the pieces before it. -/
theorem pieces_append (hl : Terminated p l) : pieces p (l ++ m) = pieces p l ++ pieces p m := by
  induction l with
  | nil => rfl
  | cons x l ih =>
    rw [List.cons_append, pieces, pieces, ih hl.tail]
    by_cases hx : p x
    · rw [if_pos hx, if_pos hx]
      rfl
    · have hne : l ≠ [] := by
        rintro rfl
        exact hx (hl x rfl)
      obtain ⟨w, ws, hpieces⟩ := List.exists_cons_of_ne_nil (pieces_ne_nil (p := p) hne)
      rw [if_neg hx, if_neg hx, hpieces]
      rfl

end Fields
