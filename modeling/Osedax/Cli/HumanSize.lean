import Osedax.Rust.Number
import Osedax.Support.Rounding

/-!
# Sizes for the reader

`human_size` of `cli/src/main.rs`.  Its floats are exact but for two roundings, to the 53 bits of an
`f64` and to the one decimal of the output, so they are naturals here: after `u` divisions by 1024
the float is the first one over `1024 ^ u`.  The size can be read off the text again; what is read
is within a sixteenth of the size, and a larger disk never shows as a smaller one
(`humanSize_shows`).
-/

namespace Osedax

/-- `bytes as f64`. -/
def asF64 (bytes : UInt64) : ℕ := Rounding.toBits 53 bytes.toNat

def units : List String := ["B", "KB", "MB", "GB", "TB", "PB"]

/-- The loop of `humanSize`; its float is `n / 1024 ^ u`. -/
def unitLoop (n u : ℕ) : ℕ :=
  if 1024 * 1024 ^ u ≤ n ∧ u < units.length - 1 then unitLoop n (u + 1) else u
termination_by units.length - 1 - u

/-- `{v:.1}` in tenths, for the float `n / 1024 ^ u`. -/
def tenths (n u : ℕ) : ℕ := Rounding.halfEven (10 * n) (1024 ^ u)

/-- A byte count as a short text. -/
def humanSize (bytes : UInt64) : String :=
  let n := asF64 bytes
  let u := unitLoop n 0
  if u = 0 then bytes.toNat.repr ++ " B"
  else (tenths n u / 10).repr ++ "." ++ (tenths n u % 10).repr ++ " " ++ units.getD u ""

/-! ## The unit -/

/-- The loop ends at the largest unit that is not above the size. -/
theorem unitLoop_spec {n u : ℕ} (hu : u ≤ 5) (hlow : u = 0 ∨ 1024 ^ u ≤ n) :
    unitLoop n u ≤ 5 ∧ (unitLoop n u = 0 ∨ 1024 ^ unitLoop n u ≤ n) ∧
      (unitLoop n u = 5 ∨ n < 1024 ^ (unitLoop n u + 1)) := by
  have hlast : units.length - 1 = 5 := rfl
  fun_induction unitLoop n u with
  | case1 u hstep ih =>
    refine ih (by omega) (Or.inr ?_)
    rw [Nat.pow_succ']
    exact hstep.1
  | case2 u hstop =>
    refine ⟨hu, hlow, ?_⟩
    rw [Nat.pow_succ']
    omega

theorem unitLoop_mono {m n : ℕ} (h : m ≤ n) : unitLoop m 0 ≤ unitLoop n 0 := by
  obtain ⟨hm5, hmlow, -⟩ := unitLoop_spec (n := m) (Nat.zero_le 5) (Or.inl rfl)
  obtain ⟨-, -, hnhigh⟩ := unitLoop_spec (n := n) (Nat.zero_le 5) (Or.inl rfl)
  by_contra hlt
  have hpow : 1024 ^ (unitLoop n 0 + 1) ≤ 1024 ^ unitLoop m 0 :=
    Nat.pow_le_pow_right (by decide) (by omega)
  omega

/-! ## What is shown -/

/-- What the text shows, in tenths of a byte. -/
def shown (bytes : UInt64) : ℕ :=
  let n := asF64 bytes
  let u := unitLoop n 0
  if u = 0 then 10 * bytes.toNat else tenths n u * 1024 ^ u

section

variable {a b bytes : UInt64}

theorem asF64_mono (h : a ≤ b) : asF64 a ≤ asF64 b :=
  Rounding.toBits_mono (by decide) (UInt64.le_iff_toNat_le.1 h)

theorem asF64_eq_of_lt (h : asF64 bytes < 1024) : asF64 bytes = bytes.toNat := by
  refine Rounding.toBits_of_size_le (not_lt.1 fun hsize => ?_)
  have hlead : 2 ^ (bytes.toNat.size - 1) ≤ asF64 bytes := Rounding.le_toBits (by decide) hsize
  have hlarge : 2 ^ 10 ≤ 2 ^ (bytes.toNat.size - 1) := Nat.pow_le_pow_right (by decide) (by omega)
  omega

theorem shown_eq_of_unit_zero (h : unitLoop (asF64 bytes) 0 = 0) : shown bytes = 10 * bytes.toNat :=
  if_pos h

theorem shown_eq_of_unit_ne_zero (h : unitLoop (asF64 bytes) 0 ≠ 0) : shown bytes =
    tenths (asF64 bytes) (unitLoop (asF64 bytes) 0) * 1024 ^ unitLoop (asF64 bytes) 0 :=
  if_neg h

/-- Less than a whole next unit is shown as no more than that unit. -/
theorem shown_le (h : unitLoop (asF64 bytes) 0 < 5) :
    shown bytes ≤ 10 * 1024 ^ (unitLoop (asF64 bytes) 0 + 1) := by
  obtain ⟨-, -, hhigh⟩ := unitLoop_spec (n := asF64 bytes) (Nat.zero_le 5) (Or.inl rfl)
  have hlt := hhigh.resolve_left (ne_of_lt h)
  by_cases hu : unitLoop (asF64 bytes) 0 = 0
  · rw [shown_eq_of_unit_zero hu, hu]
    rw [hu] at hlt
    have heq := asF64_eq_of_lt hlt
    omega
  · rw [shown_eq_of_unit_ne_zero hu, Nat.pow_succ', ← Nat.mul_assoc]
    refine Nat.mul_le_mul_right _ (Rounding.halfEven_le (Nat.pow_pos (by decide)) ?_)
    rw [Nat.mul_assoc, ← Nat.pow_succ']
    omega

/-- A unit that is used is shown in full. -/
theorem le_shown (h : unitLoop (asF64 bytes) 0 ≠ 0) :
    10 * 1024 ^ unitLoop (asF64 bytes) 0 ≤ shown bytes := by
  obtain ⟨-, hlow, -⟩ := unitLoop_spec (n := asF64 bytes) (Nat.zero_le 5) (Or.inl rfl)
  rw [shown_eq_of_unit_ne_zero h]
  refine Nat.mul_le_mul_right _ (Rounding.le_halfEven (Nat.pow_pos (by decide)) ?_)
  exact Nat.mul_le_mul_left 10 (hlow.resolve_left h)

theorem shown_mono (h : a ≤ b) : shown a ≤ shown b := by
  have hn := asF64_mono h
  have hunit := unitLoop_mono hn
  by_cases hsame : unitLoop (asF64 a) 0 = unitLoop (asF64 b) 0
  · unfold shown
    dsimp only
    rw [hsame]
    split_ifs
    · exact Nat.mul_le_mul_left 10 (UInt64.le_iff_toNat_le.1 h)
    · exact Nat.mul_le_mul_right _ (Rounding.halfEven_mono (Nat.mul_le_mul_left 10 hn))
  · -- a whole number of the larger unit stands between the two
    obtain ⟨hb5, -, -⟩ := unitLoop_spec (n := asF64 b) (Nat.zero_le 5) (Or.inl rfl)
    calc shown a ≤ 10 * 1024 ^ (unitLoop (asF64 a) 0 + 1) := shown_le (by omega)
      _ ≤ 10 * 1024 ^ unitLoop (asF64 b) 0 :=
        Nat.mul_le_mul_left 10 (Nat.pow_le_pow_right (by decide) (by omega))
      _ ≤ shown b := le_shown (by omega)

/-- Both roundings together are off by less than a sixteenth. -/
theorem shown_close (bytes : UInt64) :
    16 * shown bytes ≤ 170 * bytes.toNat ∧ 150 * bytes.toNat ≤ 16 * shown bytes := by
  by_cases hu : unitLoop (asF64 bytes) 0 = 0
  · rw [shown_eq_of_unit_zero hu]
    omega
  · obtain ⟨-, hlow, -⟩ := unitLoop_spec (n := asF64 bytes) (Nat.zero_le 5) (Or.inl rfl)
    have hunit := hlow.resolve_left hu
    have hfloat : 2 ^ 53 * asF64 bytes ≤ 2 ^ 53 * bytes.toNat + bytes.toNat ∧
        2 ^ 53 * bytes.toNat ≤ 2 ^ 53 * asF64 bytes + bytes.toNat := Rounding.toBits_error 53 _
    have hdecimal := Rounding.halfEven_error (10 * asF64 bytes)
      (Nat.pow_pos (n := unitLoop (asF64 bytes) 0) (by decide : 0 < 1024))
    rw [← tenths, ← shown_eq_of_unit_ne_zero hu] at hdecimal
    omega

end

/-! ## Reading the text -/

/-- The size that a text shows, in tenths of a byte. -/
def readSize (text : String) : Option ℕ :=
  match Fields.words (· == ' ') text.toList with
  | [number, unit] =>
    match Fields.words (· == '.') number with
    | [whole] =>
      some (10 * Nat.ofDigitChars 10 whole 0 * 1024 ^ units.idxOf (String.ofList unit))
    | [whole, tenth] =>
      some ((10 * Nat.ofDigitChars 10 whole 0 + Nat.ofDigitChars 10 tenth 0) *
        1024 ^ units.idxOf (String.ofList unit))
    | _ => none
  | _ => none

theorem unit_spec : ∀ u < 6, ' ' ∉ (units.getD u "").toList ∧ (units.getD u "").toList ≠ [] ∧
    units.idxOf (units.getD u "") = u := by
  decide

theorem free_repr {c : Char} (hc : c.isDigit = false) (n : ℕ) :
    Fields.Free (· == c) n.repr.toList := by
  refine Fields.free_beq_iff.2 fun hmem => ?_
  rw [isDigit_of_mem_repr hmem] at hc
  contradiction

theorem words_number_unit {number : List Char} (hfree : Fields.Free (· == ' ') number)
    (hne : number ≠ []) {u : ℕ} (hu : u < 6) :
    Fields.words (· == ' ') (number ++ ' ' :: (units.getD u "").toList) =
      [number, (units.getD u "").toList] := by
  obtain ⟨hspace, hunit, -⟩ := unit_spec u hu
  rw [Fields.words_cons_of_free hfree hne (by decide),
    Fields.words_of_free (Fields.free_beq_iff.2 hspace) hunit]

/-- Bytes are shown as they are. -/
theorem toList_humanSize_of_unit_zero {bytes : UInt64} (hu : unitLoop (asF64 bytes) 0 = 0) :
    (humanSize bytes).toList = bytes.toNat.repr.toList ++ ' ' :: (units.getD 0 "").toList := by
  have hlast : " B".toList = ' ' :: (units.getD 0 "").toList := by decide
  unfold humanSize
  dsimp only
  rw [if_pos hu, String.toList_append, hlast]

/-- A larger unit is shown with one decimal. -/
theorem toList_humanSize_of_unit_ne_zero {bytes : UInt64} {u t : ℕ}
    (hu : unitLoop (asF64 bytes) 0 = u) (ht : tenths (asF64 bytes) u = t) (hne : u ≠ 0) :
    (humanSize bytes).toList =
      ((t / 10).repr.toList ++ '.' :: (t % 10).repr.toList) ++
        ' ' :: (units.getD u "").toList := by
  have hpoint : ".".toList = ['.'] := by decide
  have hspace : " ".toList = [' '] := by decide
  unfold humanSize
  dsimp only
  rw [hu, if_neg hne, ht]
  simp [hpoint, hspace]

theorem readSize_humanSize_of_unit_zero {bytes : UInt64} (hu : unitLoop (asF64 bytes) 0 = 0) :
    readSize (humanSize bytes) = some (10 * bytes.toNat) := by
  have hunit := (unit_spec 0 (by decide)).2.2
  unfold readSize
  rw [toList_humanSize_of_unit_zero hu,
    words_number_unit (free_repr (by decide) _) (toList_repr_ne_nil _) (by decide)]
  dsimp only
  rw [Fields.words_of_free (free_repr (by decide) _) (toList_repr_ne_nil _), String.ofList_toList,
    hunit]
  dsimp only
  rw [ofDigitChars_repr, pow_zero, Nat.mul_one]

theorem readSize_humanSize_of_unit_ne_zero {bytes : UInt64} {u t : ℕ}
    (hu : unitLoop (asF64 bytes) 0 = u) (ht : tenths (asF64 bytes) u = t) (hne : u ≠ 0)
    (hu5 : u ≤ 5) : readSize (humanSize bytes) = some (t * 1024 ^ u) := by
  have hunit := (unit_spec u (by omega)).2.2
  have hfree : Fields.Free (· == ' ') ((t / 10).repr.toList ++ '.' :: (t % 10).repr.toList) := by
    refine List.forall_mem_append.2 ⟨free_repr (by decide) _, ?_⟩
    exact (free_repr (by decide) _).cons (by decide)
  unfold readSize
  rw [toList_humanSize_of_unit_ne_zero hu ht hne, words_number_unit hfree (by simp) (by omega)]
  dsimp only
  rw [Fields.words_cons_of_free (free_repr (by decide) _) (toList_repr_ne_nil _) (by decide),
    Fields.words_of_free (free_repr (by decide) _) (toList_repr_ne_nil _), String.ofList_toList,
    hunit]
  dsimp only
  rw [ofDigitChars_repr, ofDigitChars_repr, Nat.div_add_mod]

/-- What the text shows is read. -/
theorem readSize_humanSize (bytes : UInt64) : readSize (humanSize bytes) = some (shown bytes) := by
  obtain ⟨hu5, -, -⟩ := unitLoop_spec (n := asF64 bytes) (Nat.zero_le 5) (Or.inl rfl)
  by_cases hu : unitLoop (asF64 bytes) 0 = 0
  · rw [shown_eq_of_unit_zero hu]
    exact readSize_humanSize_of_unit_zero hu
  · rw [shown_eq_of_unit_ne_zero hu]
    exact readSize_humanSize_of_unit_ne_zero rfl rfl hu hu5

/-- The text of a size can be read again; what is read grows with the size and is off by less than
a sixteenth of it. -/
theorem humanSize_shows : ∃ shows : UInt64 → ℕ,
    (∀ bytes, readSize (humanSize bytes) = some (shows bytes)) ∧
    (∀ a b, a ≤ b → shows a ≤ shows b) ∧
    ∀ bytes, 16 * shows bytes ≤ 170 * bytes.toNat ∧ 150 * bytes.toNat ≤ 16 * shows bytes :=
  ⟨shown, readSize_humanSize, fun _ _ => shown_mono, shown_close⟩

-- Rounding can show a whole number of the next unit.
example : humanSize 1048575 = "1024.0 KB" := by decide +kernel

end Osedax
