import Osedax.Rust.Text

/-!
# Numbers and trimmed texts

What `str::parse` accepts at an unsigned type (`parseUnsigned_eq_some_iff`), and that a decimal
number with a line ending is read back: the form in which the kernel writes its attributes.
-/

namespace Osedax

/-! ## Trimming -/

theorem dropWhile_append_of_all {α : Type*} {p : α → Bool} (l : List α) {w : List α}
    (hw : ∀ x ∈ w, p x = true) : (l ++ w).dropWhile p = [] ∧ l.dropWhile p = [] ∨
      (l ++ w).dropWhile p = l.dropWhile p ++ w := by
  induction l with
  | nil =>
    rw [List.nil_append, List.dropWhile_eq_nil_iff.2 hw]
    exact Or.inl ⟨rfl, rfl⟩
  | cons x l ih =>
    by_cases hx : p x = true
    · rwa [List.cons_append, List.dropWhile_cons_of_pos hx, List.dropWhile_cons_of_pos hx]
    · rw [List.cons_append, List.dropWhile_cons_of_neg hx, List.dropWhile_cons_of_neg hx]
      exact Or.inr rfl

theorem rdropWhile_append_of_all {α : Type*} {p : α → Bool} (l : List α) {w : List α}
    (hw : ∀ x ∈ w, p x = true) : (l ++ w).rdropWhile p = l.rdropWhile p := by
  rw [List.rdropWhile, List.reverse_append,
    List.dropWhile_append_of_pos fun x hx => hw x (List.mem_reverse.1 hx), List.rdropWhile]

/-- White space behind a text does not survive `trim`. -/
theorem trim_append {s ws : String} (hws : ∀ c ∈ ws.toList, isWhitespace c = true) :
    trim (s ++ ws) = trim s := by
  unfold trim
  rw [String.toList_append]
  rcases dropWhile_append_of_all s.toList hws with ⟨hboth, hs⟩ | h
  · rw [hboth, hs]
  · rw [h, rdropWhile_append_of_all _ hws]

/-- There is no white space at either end. -/
def Trimmed (s : String) : Prop :=
  (∀ c ∈ s.toList.head?, isWhitespace c = false) ∧ ∀ c ∈ s.toList.getLast?, isWhitespace c = false

theorem trimmed_iff {s : String} : Trimmed s ↔
    ((s.toList.head?.all fun c => !isWhitespace c) &&
      s.toList.getLast?.all fun c => !isWhitespace c) = true := by
  unfold Trimmed
  simp [Option.all_eq_true]

instance (s : String) : Decidable (Trimmed s) := decidable_of_iff _ trimmed_iff.symm

theorem dropWhile_isWhitespace_of_head {l : List Char}
    (hl : ∀ c ∈ l.head?, isWhitespace c = false) : l.dropWhile isWhitespace = l := by
  cases l with
  | nil => rfl
  | cons c l =>
    have hc : ¬ isWhitespace c = true := by
      rw [hl c rfl]
      exact Bool.false_ne_true
    exact List.dropWhile_cons_of_neg hc

theorem trim_of_trimmed {s : String} (h : Trimmed s) : trim s = s := by
  have hback : ∀ c ∈ s.toList.reverse.head?, isWhitespace c = false := by
    rw [List.head?_reverse]
    exact h.2
  unfold trim
  rw [dropWhile_isWhitespace_of_head h.1, List.rdropWhile, dropWhile_isWhitespace_of_head hback,
    List.reverse_reverse, String.ofList_toList]

theorem trimmed_of_free {s : String} (h : Fields.Free isWhitespace s.toList) : Trimmed s :=
  ⟨fun c hc => h c (List.mem_of_mem_head? hc), fun c hc => h c (List.mem_of_getLast? hc)⟩

/-! ## Parsing -/

theorem le_ofDigitChars (cs : List Char) (acc : ℕ) : acc ≤ Nat.ofDigitChars 10 cs acc := by
  induction cs generalizing acc with
  | nil => exact le_of_eq Nat.ofDigitChars_nil.symm
  | cons c cs ih =>
    rw [Nat.ofDigitChars_cons]
    exact le_trans (by omega) (ih _)

/-- The fold of `parse` computes the value of the digits, as long as it fits. -/
theorem foldlM_parseDigit_eq_some_iff {bits n : ℕ} (cs : List Char) {acc : ℕ}
    (hacc : acc < 2 ^ bits) : cs.foldlM (parseDigit bits) acc = some n ↔
      (∀ c ∈ cs, c.isDigit) ∧ Nat.ofDigitChars 10 cs acc = n ∧ n < 2 ^ bits := by
  induction cs generalizing acc with
  | nil =>
    rw [List.foldlM_nil, Nat.ofDigitChars_nil]
    apply Iff.intro
    · intro h
      obtain rfl := Option.some.inj h
      exact ⟨fun c hc => absurd hc List.not_mem_nil, rfl, hacc⟩
    · rintro ⟨-, rfl, -⟩
      rfl
  | cons c cs ih =>
    rw [List.foldlM_cons, Nat.ofDigitChars_cons, List.forall_mem_cons, and_assoc]
    have hvalue : 10 * acc + (c.toNat - '0'.toNat) = acc * 10 + (c.toNat - '0'.toNat) := by omega
    rw [hvalue]
    by_cases hdigit : c.isDigit
    · by_cases hfits : acc * 10 + (c.toNat - '0'.toNat) < 2 ^ bits
      · have hstep : parseDigit bits acc c = some (acc * 10 + (c.toNat - '0'.toNat)) := by
          rw [parseDigit, if_pos hdigit]
          exact if_pos hfits
        rw [hstep, Option.bind_eq_bind, Option.bind_some, ih hfits, and_iff_right hdigit]
      · have hstep : parseDigit bits acc c = none := by
          rw [parseDigit, if_pos hdigit]
          exact if_neg hfits
        rw [hstep, Option.bind_eq_bind, Option.bind_none]
        -- a value that does not fit only grows
        refine iff_of_false nofun ?_
        rintro ⟨-, -, rfl, hlt⟩
        exact hfits (lt_of_le_of_lt (le_ofDigitChars cs _) hlt)
    · rw [parseDigit, if_neg hdigit, Option.bind_eq_bind, Option.bind_none]
      exact iff_of_false nofun fun h => hdigit h.1

/-- The text is the number in decimal digits, with an optional `+`. -/
def IsDecimal (s : String) (n : ℕ) : Prop :=
  ∃ digits, (s.toList = digits ∨ s.toList = '+' :: digits) ∧ digits ≠ [] ∧
    (∀ c ∈ digits, c.isDigit) ∧ Nat.ofDigitChars 10 digits 0 = n

/-- `parse` accepts the decimal texts of the numbers that fit the type. -/
theorem parseUnsigned_eq_some_iff {bits n : ℕ} {s : String} :
    parseUnsigned bits s = some n ↔ IsDecimal s n ∧ n < 2 ^ bits := by
  have hfold (digits : List Char) :
      (if digits = [] then none else digits.foldlM (parseDigit bits) 0) = some n ↔
        (digits ≠ [] ∧ (∀ c ∈ digits, c.isDigit) ∧ Nat.ofDigitChars 10 digits 0 = n) ∧
          n < 2 ^ bits := by
    rw [Option.ite_none_left_eq_some, foldlM_parseDigit_eq_some_iff digits (Nat.two_pow_pos bits)]
    simp only [ne_eq, and_assoc]
  by_cases hplus : ∃ rest, s.toList = '+' :: rest
  · obtain ⟨rest, hs⟩ := hplus
    unfold parseUnsigned IsDecimal
    rw [hs]
    refine (hfold rest).trans (and_congr_left' (Iff.intro (fun h => ⟨rest, Or.inr rfl, h⟩) ?_))
    rintro ⟨digits, rfl | hdigits, h⟩
    · exact absurd (h.2.1 '+' List.mem_cons_self) (by decide)
    · obtain rfl := (List.cons.inj hdigits).2
      exact h
  · have hstrip : parseUnsigned bits s =
        if s.toList = [] then none else s.toList.foldlM (parseDigit bits) 0 := by
      unfold parseUnsigned
      dsimp only
      split
      · rename_i rest hs
        exact absurd ⟨rest, hs⟩ hplus
      · rfl
    rw [hstrip, hfold s.toList]
    refine and_congr_left' (Iff.intro (fun h => ⟨s.toList, Or.inl rfl, h⟩) ?_)
    rintro ⟨digits, rfl | hdigits, h⟩
    · exact h
    · exact absurd ⟨digits, hdigits⟩ hplus

/-! ## Decimal numbers -/

theorem isWhitespace_of_isDigit {c : Char} (hc : c.isDigit) : isWhitespace c = false := by
  have hcode : 48 ≤ c.toNat ∧ c.toNat ≤ 57 := Char.isDigit_iff_toNat.1 hc
  simp only [isWhitespace, Bool.or_eq_false_iff, Bool.and_eq_false_iff, decide_eq_false_iff_not,
    beq_eq_false_iff_ne]
  omega

theorem isDigit_of_mem_repr {n : ℕ} {c : Char} (h : c ∈ n.repr.toList) : c.isDigit := by
  rw [Nat.toList_repr] at h
  exact Nat.isDigit_of_mem_toDigits (by decide) le_rfl h

theorem toList_repr_ne_nil (n : ℕ) : n.repr.toList ≠ [] := by
  rw [Nat.toList_repr]
  exact Nat.toDigits_ne_nil

theorem ofDigitChars_repr (n : ℕ) : Nat.ofDigitChars 10 n.repr.toList 0 = n := by
  rw [Nat.toList_repr, Nat.ofDigitChars_ten_toDigits]

/-- A number is read back from its decimal form, whatever white space follows it. -/
theorem parseUnsigned_trim_repr {bits n : ℕ} (hn : n < 2 ^ bits) {ws : String}
    (hws : ∀ c ∈ ws.toList, isWhitespace c = true) :
    parseUnsigned bits (trim (n.repr ++ ws)) = some n := by
  have htrimmed : Trimmed n.repr :=
    trimmed_of_free fun c hc => isWhitespace_of_isDigit (isDigit_of_mem_repr hc)
  rw [trim_append hws, trim_of_trimmed htrimmed, parseUnsigned_eq_some_iff]
  exact ⟨⟨n.repr.toList, Or.inl rfl, toList_repr_ne_nil n, fun c => isDigit_of_mem_repr,
    ofDigitChars_repr n⟩, hn⟩

end Osedax
