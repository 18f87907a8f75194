import Mathlib.Data.List.Sort

/-!
# Lists that are collected, sorted and shared out

The first error of a list of results (`mapM_id_eq_error_iff`), sorting by an order that tells the
elements of a list apart, so that only the elements matter (`mergeSort_eq_of_perm`), a list shared
out to owners of whom no two can claim the same element (`flatMap_filter_perm`), and tables with
one value for a key (`lookup_eq_some_of_mem`).
-/

namespace Collect

/-! ## The first error -/

section

variable {ε α : Type*}

/-- A list of results has only values, or a first error. -/
theorem eq_map_ok_or_first_error (results : List (Except ε α)) :
    (∃ values : List α, results = values.map .ok) ∨
      ∃ (before : List α) (e : ε) (after : List (Except ε α)),
        results = before.map .ok ++ .error e :: after := by
  induction results with
  | nil => exact Or.inl ⟨[], rfl⟩
  | cons r results ih =>
    cases r with
    | error e => exact Or.inr ⟨[], e, results, rfl⟩
    | ok a =>
      rcases ih with ⟨values, rfl⟩ | ⟨before, e, after, rfl⟩
      · exact Or.inl ⟨a :: values, rfl⟩
      · exact Or.inr ⟨a :: before, e, after, rfl⟩

theorem mapM_id_map_ok (values : List α) :
    (values.map (.ok : α → Except ε α)).mapM id = .ok values := by
  induction values with
  | nil => rfl
  | cons a values ih =>
    rw [List.map_cons, List.mapM_cons, ih]
    rfl

theorem mapM_id_first_error (before : List α) (e : ε) (after : List (Except ε α)) :
    (before.map Except.ok ++ Except.error e :: after).mapM id = .error e := by
  induction before with
  | nil => rfl
  | cons a before ih =>
    rw [List.map_cons, List.cons_append, List.mapM_cons, ih]
    rfl

theorem mapM_id_eq_ok_iff {results : List (Except ε α)} {values : List α} :
    results.mapM id = .ok values ↔ results = values.map .ok := by
  apply Iff.intro
  · intro h
    rcases eq_map_ok_or_first_error results with ⟨vs, rfl⟩ | ⟨before, e, after, rfl⟩
    · rw [mapM_id_map_ok] at h
      rw [Except.ok.inj h]
    · rw [mapM_id_first_error] at h
      contradiction
  · rintro rfl
    exact mapM_id_map_ok values

theorem mapM_id_eq_error_iff {results : List (Except ε α)} {e : ε} :
    results.mapM id = .error e ↔ ∃ (before : List α) (after : List (Except ε α)),
      results = before.map .ok ++ .error e :: after := by
  apply Iff.intro
  · intro h
    rcases eq_map_ok_or_first_error results with ⟨vs, rfl⟩ | ⟨before, e', after, rfl⟩
    · rw [mapM_id_map_ok] at h
      contradiction
    · rw [mapM_id_first_error] at h
      rw [← Except.error.inj h]
      exact ⟨before, after, rfl⟩
  · rintro ⟨before, after, rfl⟩
    exact mapM_id_first_error before e after

end

/-! ## Sorting -/

section

variable {α : Type*} {le : α → α → Bool}

/-- The order tells the elements of the list apart. -/
def Separates (le : α → α → Bool) (l : List α) : Prop :=
  ∀ a b, a ∈ l → b ∈ l → le a b = true → le b a = true → a = b

section

variable (trans : ∀ a b c, le a b = true → le b c = true → le a c = true)
  (total : ∀ a b, (le a b || le b a) = true) {l l' : List α}

include trans total

/-- A sorted list of elements that the order tells apart is what sorting makes of them. -/
theorem eq_mergeSort_of_perm (hsep : Separates le l') (h : l.Perm l')
    (hsorted : l.Pairwise fun a b => le a b = true) : l = l'.mergeSort le := by
  have hperm : l.Perm (l'.mergeSort le) := h.trans (List.mergeSort_perm l' le).symm
  have hsame : ∀ a b, a ∈ l → b ∈ l'.mergeSort le → le a b = true → le b a = true → a = b :=
    fun a b ha hb => hsep a b (h.mem_iff.1 ha) (List.mem_mergeSort.1 hb)
  exact hperm.eq_of_pairwise hsame hsorted (List.pairwise_mergeSort trans total l')

/-- Sorting forgets the order of the list. -/
theorem mergeSort_eq_of_perm (hsep : Separates le l') (h : l.Perm l') :
    l.mergeSort le = l'.mergeSort le :=
  eq_mergeSort_of_perm trans total hsep ((List.mergeSort_perm l le).trans h)
    (List.pairwise_mergeSort trans total l)

/-- A part of a sorted list is the part, sorted. -/
theorem filter_mergeSort_eq {p : α → Bool} (hsep : Separates le l') (h : (l.filter p).Perm l') :
    (l.mergeSort le).filter p = l'.mergeSort le :=
  eq_mergeSort_of_perm trans total hsep (((List.mergeSort_perm l le).filter p).trans h)
    ((List.pairwise_mergeSort trans total l).filter p)

/-- Sorted elements that the order tells apart increase strictly. -/
theorem pairwise_lt_mergeSort (hsep : Separates le l) (hnodup : l.Nodup) :
    (l.mergeSort le).Pairwise fun a b => le b a = false := by
  have hsorted := List.pairwise_mergeSort trans total l
  have hne : (l.mergeSort le).Nodup := (List.mergeSort_perm l le).nodup_iff.2 hnodup
  refine List.Pairwise.imp_of_mem ?_ (hsorted.and hne)
  intro a b ha hb ⟨hle, hab⟩
  rw [← Bool.not_eq_true]
  intro hba
  exact hab (hsep a b (List.mem_mergeSort.1 ha) (List.mem_mergeSort.1 hb) hle hba)

end

end

/-! ## Owners -/

section

variable {α δ : Type*} {own : δ → α → Bool}

/-- If no element has two owners, the shares of the owners are together what has an owner. -/
theorem flatMap_filter_perm {owners : List δ} (hnodup : owners.Nodup) {l : List α}
    (hown : ∀ x ∈ l, ∀ d ∈ owners, ∀ e ∈ owners, own d x = true → own e x = true → d = e) :
    (owners.flatMap fun d => l.filter (own d)).Perm (l.filter fun x => owners.any (own · x)) := by
  induction owners with
  | nil => simp
  | cons d owners ih =>
    obtain ⟨hd, hnodup⟩ := List.nodup_cons.1 hnodup
    have ih := ih hnodup fun x hx e he f hf =>
      hown x hx e (List.mem_cons_of_mem d he) f (List.mem_cons_of_mem d hf)
    have hfirst : (l.filter fun x => (d :: owners).any (own · x)).filter (own d) =
        l.filter (own d) := by
      rw [List.filter_filter]
      refine List.filter_congr fun x _ => ?_
      rw [List.any_cons]
      cases own d x <;> rfl
    -- what is not the first owner's share belongs to the others
    have hrest : (l.filter fun x => (d :: owners).any (own · x)).filter (! own d ·) =
        l.filter fun x => owners.any (own · x) := by
      rw [List.filter_filter]
      refine List.filter_congr fun x hx => ?_
      rw [List.any_cons]
      cases hdx : own d x with
      | false => rfl
      | true =>
        rw [Bool.not_true, Bool.false_and, eq_comm, ← Bool.not_eq_true, List.any_eq_true]
        rintro ⟨e, he, hex⟩
        exact hd (hown x hx d List.mem_cons_self e (List.mem_cons_of_mem d he) hdx hex ▸ he)
    have hsplit := List.filter_append_perm (own d) (l.filter fun x => (d :: owners).any (own · x))
    rw [hfirst, hrest] at hsplit
    rw [List.flatMap_cons]
    exact (ih.append_left _).trans hsplit

end

/-! ## Tables -/

section

variable {κ α : Type*} [BEq κ] [LawfulBEq κ] {l : List (κ × α)} {k : κ} {a : α}

theorem mem_of_lookup_eq_some (h : l.lookup k = some a) : (k, a) ∈ l := by
  obtain ⟨l₁, l₂, rfl, -⟩ := List.lookup_eq_some_iff.1 h
  exact List.mem_append_right _ List.mem_cons_self

/-- A key without a second value is looked up. -/
theorem lookup_eq_some_of_mem (h : (k, a) ∈ l) (hunique : ∀ b, (k, b) ∈ l → b = a) :
    l.lookup k = some a := by
  cases hlookup : l.lookup k with
  | none =>
    have hne : (k != k) = true := List.lookup_eq_none_iff.1 hlookup (k, a) h
    exact absurd rfl (bne_iff_ne.1 hne)
  | some b => rw [hunique b (mem_of_lookup_eq_some hlookup)]

theorem lookup_eq_none_of_notMem (h : ∀ a, (k, a) ∉ l) : l.lookup k = none := by
  cases hlookup : l.lookup k with
  | none => rfl
  | some a => exact absurd (mem_of_lookup_eq_some hlookup) (h a)

end

end Collect
