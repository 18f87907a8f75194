import Osedax.Rust.Text

/-!
# Lossy text

`to_string_lossy`: the bytes of a file name as a text, with U+FFFD for each maximal part that is
not UTF-8.  UTF-8 comes through unchanged, and nothing else does
(`asBytes_toStringLossy_eq_iff`); an ASCII character of the text is a byte of the name.
-/

namespace Osedax

/-! ## The decoder -/

/-- `core::str::utf8_char_width`: the length of the sequence that a byte starts. -/
def utf8CharWidth (b : UInt8) : ℕ :=
  if b.toNat < 0x80 then 1
  else if b.toNat < 0xC2 then 0
  else if b.toNat < 0xE0 then 2
  else if b.toNat < 0xF0 then 3
  else if b.toNat < 0xF5 then 4
  else 0

def isContinuationByte (b : UInt8) : Bool := 0x80 ≤ b.toNat && b.toNat ≤ 0xBF

/-- What may stand second in a sequence of three or four bytes. -/
def isSecondByte (first b : UInt8) : Bool :=
  if first.toNat = 0xE0 then 0xA0 ≤ b.toNat && b.toNat ≤ 0xBF
  else if first.toNat = 0xED then 0x80 ≤ b.toNat && b.toNat ≤ 0x9F
  else if first.toNat = 0xF0 then 0x90 ≤ b.toNat && b.toNat ≤ 0xBF
  else if first.toNat = 0xF4 then 0x80 ≤ b.toNat && b.toNat ≤ 0x8F
  else isContinuationByte b

/-- The six bits that a continuation byte carries. -/
def payload (b : UInt8) : ℕ := b.toNat % 64

/-- One round of the walk: how many of the bytes behind `first` go with it, and the character that
they make, none if the sequence breaks off.  Behind the end there are zero bytes. -/
def nextChar (first : UInt8) (rest : List UInt8) : ℕ × Option Char :=
  let b₁ := rest.getD 0 0
  let b₂ := rest.getD 1 0
  let b₃ := rest.getD 2 0
  if utf8CharWidth first = 1 then (0, some (Char.ofNat first.toNat))
  else if utf8CharWidth first = 2 then
    if !isContinuationByte b₁ then (0, none)
    else (1, some (Char.ofNat (first.toNat % 32 * 64 + payload b₁)))
  else if utf8CharWidth first = 3 then
    if !isSecondByte first b₁ then (0, none)
    else if !isContinuationByte b₂ then (1, none)
    else (2, some (Char.ofNat (first.toNat % 16 * 4096 + payload b₁ * 64 + payload b₂)))
  else if utf8CharWidth first = 4 then
    if !isSecondByte first b₁ then (0, none)
    else if !isContinuationByte b₂ then (1, none)
    else if !isContinuationByte b₃ then (2, none)
    else (3, some (Char.ofNat
      (first.toNat % 8 * 262144 + payload b₁ * 4096 + payload b₂ * 64 + payload b₃)))
  else (0, none)

def lossyChars : List UInt8 → List Char
  | [] => []
  | first :: rest =>
    (nextChar first rest).2.getD '\uFFFD' :: lossyChars (rest.drop (nextChar first rest).1)
termination_by bytes => bytes.length
decreasing_by
  rw [List.length_drop, List.length_cons]
  omega

/-- `OsStr::to_string_lossy`. -/
def toStringLossy (bytes : List UInt8) : String := String.ofList (lossyChars bytes)

/-! ## UTF-8 comes through -/

theorem ofNat_toNat_of_eq {n : ℕ} {c : Char} (h : n = c.toNat) : Char.ofNat n = c := by
  rw [h, Char.ofNat_toNat]

theorem toNat_ofNat_of_lt {n : ℕ} (h : n < 256) : (UInt8.ofNat n).toNat = n :=
  UInt8.toNat_ofNat_of_lt' h

section

variable {b₀ b₁ b₂ b₃ : UInt8} {c : Char} (rest : List UInt8)

theorem nextChar_one (h₀ : b₀.toNat < 0x80) (hc : b₀.toNat = c.toNat) :
    nextChar b₀ rest = (0, some c) := by
  have hw : utf8CharWidth b₀ = 1 := if_pos h₀
  simp only [nextChar, hw, ↓reduceIte]
  rw [ofNat_toNat_of_eq hc]

theorem nextChar_two (h₀ : 0xC2 ≤ b₀.toNat ∧ b₀.toNat < 0xE0) (h₁ : isContinuationByte b₁ = true)
    (hc : b₀.toNat % 32 * 64 + payload b₁ = c.toNat) :
    nextChar b₀ (b₁ :: rest) = (1, some c) := by
  have hw : utf8CharWidth b₀ = 2 := by
    unfold utf8CharWidth
    split_ifs <;> omega
  simp only [nextChar, hw, List.getD_cons_zero, h₁, Nat.reduceEqDiff, ↓reduceIte, Bool.not_true,
    Bool.false_eq_true]
  rw [ofNat_toNat_of_eq hc]

theorem nextChar_three (h₀ : 0xE0 ≤ b₀.toNat ∧ b₀.toNat < 0xF0) (h₁ : isSecondByte b₀ b₁ = true)
    (h₂ : isContinuationByte b₂ = true)
    (hc : b₀.toNat % 16 * 4096 + payload b₁ * 64 + payload b₂ = c.toNat) :
    nextChar b₀ (b₁ :: b₂ :: rest) = (2, some c) := by
  have hw : utf8CharWidth b₀ = 3 := by
    unfold utf8CharWidth
    split_ifs <;> omega
  simp only [nextChar, hw, List.getD_cons_zero, List.getD_cons_succ, h₁, h₂, Nat.reduceEqDiff,
    ↓reduceIte, Bool.not_true, Bool.false_eq_true]
  rw [ofNat_toNat_of_eq hc]

theorem nextChar_four (h₀ : 0xF0 ≤ b₀.toNat ∧ b₀.toNat < 0xF5) (h₁ : isSecondByte b₀ b₁ = true)
    (h₂ : isContinuationByte b₂ = true) (h₃ : isContinuationByte b₃ = true)
    (hc : b₀.toNat % 8 * 262144 + payload b₁ * 4096 + payload b₂ * 64 + payload b₃ = c.toNat) :
    nextChar b₀ (b₁ :: b₂ :: b₃ :: rest) = (3, some c) := by
  have hw : utf8CharWidth b₀ = 4 := by
    unfold utf8CharWidth
    split_ifs <;> omega
  simp only [nextChar, hw, List.getD_cons_zero, List.getD_cons_succ, h₁, h₂, h₃,
    Nat.reduceEqDiff, ↓reduceIte, Bool.not_true, Bool.false_eq_true]
  rw [ofNat_toNat_of_eq hc]

end

/-- The continuation bytes of the encoder. -/
theorem continuation_ofNat (n : ℕ) : isContinuationByte (UInt8.ofNat (n % 0x40 + 0x80)) = true ∧
    payload (UInt8.ofNat (n % 0x40 + 0x80)) = n % 0x40 := by
  have hbyte : (UInt8.ofNat (n % 0x40 + 0x80)).toNat = n % 0x40 + 0x80 :=
    toNat_ofNat_of_lt (by omega)
  simp only [isContinuationByte, payload, hbyte, Bool.and_eq_true, decide_eq_true_eq]
  omega

/-- The decoder takes a character of the encoder as a whole. -/
theorem nextChar_utf8EncodeChar (c : Char) : ∃ first tail, String.utf8EncodeChar c = first :: tail ∧
    ∀ rest, nextChar first (tail ++ rest) = (tail.length, some c) := by
  have hvalid : c.val.toNat < 0xD800 ∨ 0xDFFF < c.val.toNat ∧ c.val.toNat < 0x110000 := c.valid
  have hcode : c.toNat = c.val.toNat := rfl
  unfold String.utf8EncodeChar
  dsimp only
  split_ifs with h₁ h₂ h₃
  · have h₀ : (UInt8.ofNat c.val.toNat).toNat = c.val.toNat :=
      toNat_ofNat_of_lt (by omega)
    exact ⟨_, _, rfl, fun rest => nextChar_one _ (by omega) (by omega)⟩
  · have h₀ : (UInt8.ofNat (c.val.toNat / 64 % 0x20 + 0xc0)).toNat =
        c.val.toNat / 64 % 0x20 + 0xc0 := toNat_ofNat_of_lt (by omega)
    obtain ⟨hcont, hpay⟩ := continuation_ofNat c.val.toNat
    exact ⟨_, _, rfl, fun rest => nextChar_two _ (by omega) hcont (by rw [hpay]; omega)⟩
  · have h₀ : (UInt8.ofNat (c.val.toNat / 4096 % 0x10 + 0xe0)).toNat =
        c.val.toNat / 4096 % 0x10 + 0xe0 := toNat_ofNat_of_lt (by omega)
    obtain ⟨hcont₁, hpay₁⟩ := continuation_ofNat (c.val.toNat / 64)
    obtain ⟨hcont₂, hpay₂⟩ := continuation_ofNat c.val.toNat
    refine ⟨_, _, rfl, fun rest => nextChar_three _ (by omega) ?_ hcont₂ ?_⟩
    · have hbyte : (UInt8.ofNat (c.val.toNat / 64 % 0x40 + 0x80)).toNat =
          c.val.toNat / 64 % 0x40 + 0x80 := toNat_ofNat_of_lt (by omega)
      simp only [isSecondByte, hcont₁, h₀, hbyte]
      split_ifs <;> simp <;> omega
    · rw [hpay₁, hpay₂]
      omega
  · have h₀ : (UInt8.ofNat (c.val.toNat / 262144 % 0x08 + 0xf0)).toNat =
        c.val.toNat / 262144 % 0x08 + 0xf0 := toNat_ofNat_of_lt (by omega)
    obtain ⟨hcont₁, hpay₁⟩ := continuation_ofNat (c.val.toNat / 4096)
    obtain ⟨hcont₂, hpay₂⟩ := continuation_ofNat (c.val.toNat / 64)
    obtain ⟨hcont₃, hpay₃⟩ := continuation_ofNat c.val.toNat
    refine ⟨_, _, rfl, fun rest => nextChar_four _ (by omega) ?_ hcont₂ hcont₃ ?_⟩
    · have hbyte : (UInt8.ofNat (c.val.toNat / 4096 % 0x40 + 0x80)).toNat =
          c.val.toNat / 4096 % 0x40 + 0x80 := toNat_ofNat_of_lt (by omega)
      simp only [isSecondByte, hcont₁, h₀, hbyte]
      split_ifs <;> simp <;> omega
    · rw [hpay₁, hpay₂, hpay₃]
      omega

theorem lossyChars_append (c : Char) (rest : List UInt8) :
    lossyChars (String.utf8EncodeChar c ++ rest) = c :: lossyChars rest := by
  obtain ⟨first, tail, hc, hnext⟩ := nextChar_utf8EncodeChar c
  rw [hc, List.cons_append, lossyChars, hnext rest, Option.getD_some, List.drop_left]

theorem lossyChars_encode (cs : List Char) : lossyChars (Utf8.encode cs) = cs := by
  induction cs with
  | nil =>
    rw [Utf8.encode_nil]
    unfold lossyChars
    rfl
  | cons c cs ih => rw [Utf8.encode_cons, lossyChars_append, ih]

theorem toStringLossy_asBytes (s : String) : toStringLossy (asBytes s) = s := by
  rw [toStringLossy, asBytes_eq_encode, lossyChars_encode, String.ofList_toList]

/-- The lossy text has the bytes of the name exactly if these are UTF-8. -/
theorem asBytes_toStringLossy_eq_iff {bytes : List UInt8} :
    asBytes (toStringLossy bytes) = bytes ↔ Utf8.Valid bytes := by
  rw [toStringLossy, asBytes_ofList]
  apply Iff.intro
  · exact fun h => ⟨_, h⟩
  · rintro ⟨cs, rfl⟩
    rw [lossyChars_encode]

/-! ## ASCII in a lossy text -/

theorem encode_map_ofNat {bytes : List UInt8} (h : ∀ b ∈ bytes, b < 0x80) :
    Utf8.encode (bytes.map fun b => Char.ofNat b.toNat) = bytes := by
  induction bytes with
  | nil => rfl
  | cons b bytes ih =>
    rw [List.forall_mem_cons] at h
    rw [List.map_cons, Utf8.encode_cons, Utf8.utf8EncodeChar_ofNat h.1, ih h.2,
      List.singleton_append]

theorem toNat_charOfNat {n : ℕ} (h : n < 0xD800 ∨ 0xDFFF < n ∧ n < 0x110000) :
    (Char.ofNat n).toNat = n := by
  rw [Char.ofNat, dif_pos h]
  exact UInt32.toNat_ofNatLT

theorem payload_of_isContinuationByte {b : UInt8} (h : isContinuationByte b = true) :
    b.toNat = payload b + 0x80 ∧ payload b < 0x40 := by
  simp only [isContinuationByte, Bool.and_eq_true, decide_eq_true_eq] at h
  unfold payload
  omega

/-- The second byte keeps the sequences of three and four bytes among the characters. -/
theorem payload_of_isSecondByte {first b : UInt8} (h : isSecondByte first b = true) :
    b.toNat = payload b + 0x80 ∧ payload b < 0x40 ∧ (first.toNat = 0xE0 → 0x20 ≤ payload b) ∧
      (first.toNat = 0xED → payload b < 0x20) ∧ (first.toNat = 0xF0 → 0x10 ≤ payload b) ∧
      (first.toNat = 0xF4 → payload b < 0x10) := by
  unfold isSecondByte isContinuationByte at h
  unfold payload
  split_ifs at h <;> simp only [Bool.and_eq_true, decide_eq_true_eq] at h <;> omega

/-- A sequence of several bytes makes no ASCII character. -/
theorem le_toNat_of_nextChar {first : UInt8} {rest : List UInt8} {n : ℕ} {c : Char}
    (hfirst : 0x80 ≤ first.toNat) (h : nextChar first rest = (n, some c)) : 0x80 ≤ c.toNat := by
  have hwidth : utf8CharWidth first ≠ 1 := by
    unfold utf8CharWidth
    split_ifs <;> omega
  simp only [nextChar, if_neg hwidth] at h
  split_ifs at h with h2 h21 h3 h31 h32 h4 h41 h42 h43 <;>
    simp only [Prod.mk.injEq, Option.some_inj, reduceCtorEq, and_false] at h <;>
    obtain ⟨-, rfl⟩ := h
  · have hlead : 0xC2 ≤ first.toNat ∧ first.toNat < 0xE0 := by
      unfold utf8CharWidth at h2
      split_ifs at h2 <;> omega
    rw [Bool.not_eq_true', Bool.not_eq_false] at h21
    have h₁ := payload_of_isContinuationByte h21
    rw [toNat_charOfNat] <;> omega
  · have hlead : 0xE0 ≤ first.toNat ∧ first.toNat < 0xF0 := by
      unfold utf8CharWidth at h3
      split_ifs at h3 <;> omega
    rw [Bool.not_eq_true', Bool.not_eq_false] at h31 h32
    have h₁ := payload_of_isSecondByte h31
    have h₂ := payload_of_isContinuationByte h32
    rw [toNat_charOfNat] <;> omega
  · have hlead : 0xF0 ≤ first.toNat ∧ first.toNat < 0xF5 := by
      unfold utf8CharWidth at h4
      split_ifs at h4 <;> omega
    rw [Bool.not_eq_true', Bool.not_eq_false] at h41 h42 h43
    have h₁ := payload_of_isSecondByte h41
    have h₂ := payload_of_isContinuationByte h42
    have h₃ := payload_of_isContinuationByte h43
    rw [toNat_charOfNat] <;> omega

/-- Each round takes an ASCII byte as it is, or makes a character beyond ASCII. -/
theorem nextChar_cases (first : UInt8) (rest : List UInt8) :
    first.toNat < 0x80 ∧ (Char.ofNat first.toNat).toNat = first.toNat ∧
      nextChar first rest = (0, some (Char.ofNat first.toNat)) ∨
    0x80 ≤ ((nextChar first rest).2.getD '\uFFFD').toNat := by
  by_cases hfirst : first.toNat < 0x80
  · have hval : (Char.ofNat first.toNat).toNat = first.toNat := toNat_charOfNat (by omega)
    exact Or.inl ⟨hfirst, hval, nextChar_one rest hfirst hval.symm⟩
  · refine Or.inr ?_
    rcases hnext : nextChar first rest with ⟨n, _ | c⟩
    · exact (by decide : 0x80 ≤ '\uFFFD'.toNat)
    · exact le_toNat_of_nextChar (Nat.le_of_not_lt hfirst) hnext

/-- A lossy text that is ASCII is the text of its bytes: nothing was replaced. -/
theorem encode_lossyChars_of_ascii {bytes : List UInt8}
    (h : ∀ c ∈ lossyChars bytes, c.toNat < 0x80) : Utf8.encode (lossyChars bytes) = bytes := by
  induction bytes using lossyChars.induct with
  | case1 =>
    unfold lossyChars
    rfl
  | case2 first rest ih =>
    rw [lossyChars, List.forall_mem_cons] at h
    rcases nextChar_cases first rest with ⟨hfirst, -, hnext⟩ | hle
    · rw [hnext] at h ih
      rw [lossyChars, hnext, Utf8.encode_cons, Option.getD_some, Utf8.utf8EncodeChar_ofNat hfirst,
        List.singleton_append, ih h.2, List.drop_zero]
    · exact absurd h.1 (Nat.not_lt_of_le hle)

/-- An ASCII character of a lossy text was a byte. -/
theorem mem_of_mem_lossyChars {bytes : List UInt8} {b : UInt8} (hb : b.toNat < 0x80)
    (h : ∃ c ∈ lossyChars bytes, c.toNat = b.toNat) : b ∈ bytes := by
  induction bytes using lossyChars.induct with
  | case1 =>
    unfold lossyChars at h
    obtain ⟨c, hc, -⟩ := h
    exact absurd hc List.not_mem_nil
  | case2 first rest ih =>
    rw [lossyChars] at h
    obtain ⟨c, hc, hcode⟩ := h
    rcases List.mem_cons.1 hc with rfl | hc
    · rcases nextChar_cases first rest with ⟨-, hval, hnext⟩ | hle
      · rw [hnext, Option.getD_some, hval] at hcode
        rw [UInt8.toNat_inj.1 hcode]
        exact List.mem_cons_self
      · omega
    · exact List.mem_cons_of_mem _ (List.mem_of_mem_drop (ih ⟨c, hc, hcode⟩))

/-- The lossy text has no ASCII byte that the name has not. -/
theorem mem_of_mem_asBytes_toStringLossy {bytes : List UInt8} {b : UInt8} (hb : b < 0x80)
    (h : b ∈ asBytes (toStringLossy bytes)) : b ∈ bytes := by
  rw [toStringLossy, asBytes_ofList, Utf8.encode, List.mem_flatMap] at h
  obtain ⟨c, hc, hmem⟩ := h
  have hascii : c.toNat < 0x80 := by
    by_contra hle
    exact absurd hb (UInt8.not_lt.2 (Utf8.le_of_mem_utf8EncodeChar (Nat.le_of_not_lt hle) hmem))
  rw [Utf8.utf8EncodeChar_of_ascii hascii, List.mem_singleton] at hmem
  refine mem_of_mem_lossyChars hb ⟨c, hc, ?_⟩
  rw [hmem, toNat_ofNat_of_lt (by omega)]

/-- Two names with the same ASCII text are the same. -/
theorem eq_asBytes_of_toStringLossy {bytes : List UInt8} {s : String}
    (hs : (s.toList.all fun c => c.toNat < 0x80) = true) (h : toStringLossy bytes = s) :
    bytes = asBytes s := by
  have hchars : lossyChars bytes = s.toList := by
    rw [← h, toStringLossy, String.toList_ofList]
  rw [asBytes_eq_encode, ← hchars, encode_lossyChars_of_ascii]
  rw [hchars]
  exact fun c hc => of_decide_eq_true (List.all_eq_true.1 hs c hc)

end Osedax
