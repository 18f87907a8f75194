import Mathlib.Data.List.Basic

/-!
# UTF-8 texts as byte lists

`encode` is the UTF-8 encoding of a list of characters, `decode` the partial map from byte lists
to the strings they encode, and `Valid` its domain.  A byte below `0x80` is a character of its own
wherever it stands, and the encoding of any other character has no such byte.  So a text can be
cut at an ASCII byte (`encode_eq_append_cons`), and an operation on bytes that leaves the bytes
from `0x80` on alone is an operation on characters (`flatMap_encode`, `all_encode`).
-/

namespace Utf8

/-- The UTF-8 encoding. -/
def encode (cs : List Char) : List UInt8 := cs.flatMap String.utf8EncodeChar

/-- The string that a byte list encodes, or `none` if it is not UTF-8. -/
def decode (bytes : List UInt8) : Option String := String.fromUTF8? bytes.toByteArray

def Valid (bytes : List UInt8) : Prop := ∃ cs, encode cs = bytes

@[simp] theorem encode_nil : encode [] = [] := rfl

@[simp] theorem encode_cons (c : Char) (cs : List Char) :
    encode (c :: cs) = String.utf8EncodeChar c ++ encode cs := rfl

@[simp] theorem encode_append (cs ds : List Char) : encode (cs ++ ds) = encode cs ++ encode ds :=
  List.flatMap_append

theorem valid_encode (cs : List Char) : Valid (encode cs) := ⟨cs, rfl⟩

/-! ## Decoding -/

theorem encode_toList (s : String) : encode s.toList = s.toByteArray.data.toList := by
  have hbytes : s.toList.utf8Encode = s.toByteArray := String.utf8Encode_toList
  rw [← hbytes, List.utf8Encode, List.data_toByteArray]
  rfl

theorem toByteArray_encode_toList (s : String) : (encode s.toList).toByteArray = s.toByteArray :=
  String.utf8Encode_toList

theorem decode_eq_some_iff {bytes : List UInt8} {s : String} :
    decode bytes = some s ↔ encode s.toList = bytes := by
  unfold decode
  rw [String.fromUTF8?]
  split
  case isTrue hvalid =>
    rw [Option.some_inj, ← String.toByteArray_inj, ← toByteArray_encode_toList s]
    show bytes.toByteArray = _ ↔ _
    apply Iff.intro
    · intro h
      have hdata := congrArg (fun b : ByteArray => b.data.toList) h
      simpa only [List.data_toByteArray] using hdata.symm
    · intro h
      rw [h]
  case isFalse hvalid =>
    refine iff_of_false nofun fun h => hvalid ?_
    rw [← h, toByteArray_encode_toList]
    exact s.isValidUTF8

@[simp] theorem decode_encode (cs : List Char) : decode (encode cs) = some (String.ofList cs) := by
  rw [decode_eq_some_iff, String.toList_ofList]

theorem encode_injective : Function.Injective encode := by
  intro cs ds h
  have hdecode : some (String.ofList cs) = some (String.ofList ds) := by
    rw [← decode_encode, ← decode_encode, h]
  exact String.ofList_injective (Option.some.inj hdecode)

theorem decode_eq_none_iff {bytes : List UInt8} : decode bytes = none ↔ ¬ Valid bytes := by
  rw [Option.eq_none_iff_forall_ne_some, Valid, not_exists]
  apply Iff.intro
  · intro h cs hcs
    apply h (String.ofList cs)
    rw [← hcs, decode_encode]
  · intro h s hs
    exact h s.toList (decode_eq_some_iff.1 hs)

/-! ## ASCII bytes -/

theorem utf8EncodeChar_of_ascii {c : Char} (hc : c.toNat < 0x80) :
    String.utf8EncodeChar c = [UInt8.ofNat c.toNat] := by
  have hle : c.val.toNat ≤ 0x7f := Nat.le_of_lt_succ hc
  rw [String.utf8EncodeChar]
  exact if_pos hle

theorem le_ofNat {n : ℕ} (hn : 0x80 ≤ n) (hlt : n < 0x100) : 0x80 ≤ UInt8.ofNat n := by
  rw [UInt8.le_iff_toNat_le, UInt8.toNat_ofNat_of_lt' hlt]
  exact hn

theorem le_of_mem_utf8EncodeChar {c : Char} (hc : 0x80 ≤ c.toNat) {b : UInt8}
    (hb : b ∈ String.utf8EncodeChar c) : 0x80 ≤ b := by
  have hgt : ¬ c.val.toNat ≤ 0x7f := Nat.not_le_of_lt hc
  simp only [String.utf8EncodeChar, if_neg hgt] at hb
  split at hb
  case isTrue =>
    simp only [List.mem_cons, List.not_mem_nil, or_false] at hb
    rcases hb with rfl | rfl <;> exact le_ofNat (by omega) (by omega)
  case isFalse =>
    split at hb
    case isTrue =>
      simp only [List.mem_cons, List.not_mem_nil, or_false] at hb
      rcases hb with rfl | rfl | rfl <;> exact le_ofNat (by omega) (by omega)
    case isFalse =>
      simp only [List.mem_cons, List.not_mem_nil, or_false] at hb
      rcases hb with rfl | rfl | rfl | rfl <;> exact le_ofNat (by omega) (by omega)

/-- An ASCII byte is the encoding of the character with its code. -/
theorem utf8EncodeChar_ofNat {x : UInt8} (hx : x < 0x80) :
    String.utf8EncodeChar (Char.ofNat x.toNat) = [x] := by
  have hlt : x.toNat < 0x80 := hx
  have hval : (Char.ofNat x.toNat).toNat = x.toNat := by
    rw [Char.ofNat, dif_pos (Or.inl (by omega))]
    exact UInt32.toNat_ofNatLT
  rw [utf8EncodeChar_of_ascii (by rwa [hval]), hval, UInt8.ofNat_toNat]

/-- An ASCII byte in the encoding of a character is all of it. -/
theorem eq_singleton_of_mem_utf8EncodeChar {c : Char} {x : UInt8} (hx : x < 0x80)
    (hmem : x ∈ String.utf8EncodeChar c) : String.utf8EncodeChar c = [x] := by
  by_cases hascii : c.toNat < 0x80
  · rw [utf8EncodeChar_of_ascii hascii] at hmem ⊢
    rw [List.mem_singleton.1 hmem]
  · exact absurd hx (UInt8.not_lt.2 (le_of_mem_utf8EncodeChar (Nat.le_of_not_lt hascii) hmem))

/-- A symbol that is not in the first part of a list stands in the second. -/
theorem eq_append_of_notMem {α : Type*} {u v a b : List α} {x : α} (hx : x ∉ u)
    (h : u ++ v = a ++ x :: b) : ∃ a', a = u ++ a' ∧ v = a' ++ x :: b := by
  obtain ⟨a', ha, hv⟩ | ⟨a', hu, hb⟩ := List.append_eq_append_iff.1 h
  · exact ⟨a', ha, hv⟩
  · cases a' with
    | nil => exact ⟨[], by rw [hu, List.append_nil, List.append_nil], hb.symm⟩
    | cons y a' =>
      obtain ⟨rfl, -⟩ := List.cons.inj hb
      rw [hu] at hx
      exact absurd (List.mem_append_right a List.mem_cons_self) hx

/-- A text can be cut at an ASCII byte: it is the character that stands there. -/
theorem encode_eq_append_cons {cs : List Char} {a b : List UInt8} {x : UInt8} (hx : x < 0x80)
    (h : encode cs = a ++ x :: b) : ∃ cs₁ c cs₂, cs = cs₁ ++ c :: cs₂ ∧ encode cs₁ = a ∧
      String.utf8EncodeChar c = [x] ∧ encode cs₂ = b := by
  induction cs generalizing a with
  | nil => simp at h
  | cons c cs ih =>
    rw [encode_cons] at h
    by_cases hc : String.utf8EncodeChar c = [x]
    · cases a with
      | nil =>
        rw [hc] at h
        exact ⟨[], c, cs, rfl, rfl, hc, (List.cons.inj h).2⟩
      | cons y a =>
        rw [hc] at h
        obtain ⟨rfl, hrest⟩ := List.cons.inj h
        obtain ⟨cs₁, d, cs₂, rfl, ha, hd, hb⟩ := ih hrest
        refine ⟨c :: cs₁, d, cs₂, rfl, ?_, hd, hb⟩
        rw [encode_cons, ha, hc, List.singleton_append]
    · -- otherwise the byte is no part of this character, and the cut is further on
      have hmem : x ∉ String.utf8EncodeChar c := mt (eq_singleton_of_mem_utf8EncodeChar hx) hc
      obtain ⟨a', rfl, hrest⟩ := eq_append_of_notMem hmem h
      obtain ⟨cs₁, d, cs₂, rfl, ha, hd, hb⟩ := ih hrest
      refine ⟨c :: cs₁, d, cs₂, rfl, ?_, hd, hb⟩
      rw [encode_cons, ha]

theorem valid_append_cons_iff {a b : List UInt8} {x : UInt8} (hx : x < 0x80) :
    Valid (a ++ x :: b) ↔ Valid a ∧ Valid b := by
  apply Iff.intro
  · intro ⟨cs, h⟩
    obtain ⟨cs₁, c, cs₂, rfl, ha, -, hb⟩ := encode_eq_append_cons hx h
    exact ⟨⟨cs₁, ha⟩, ⟨cs₂, hb⟩⟩
  · rintro ⟨⟨cs₁, rfl⟩, ⟨cs₂, rfl⟩⟩
    refine ⟨cs₁ ++ Char.ofNat x.toNat :: cs₂, ?_⟩
    rw [encode_append, encode_cons, utf8EncodeChar_ofNat hx, List.singleton_append]

/-! ## The first byte of a character -/

/-- A byte inside a character, behind its first. -/
def IsContinuation (b : UInt8) : Prop := 0x80 ≤ b ∧ b ≤ 0xBF

theorem not_isContinuation_ofNat {n : ℕ} (hlt : n < 0x100) (hn : n < 0x80 ∨ 0xC0 ≤ n) :
    ¬ IsContinuation (UInt8.ofNat n) := by
  rintro ⟨hlo, hhi⟩
  rw [UInt8.le_iff_toNat_le, UInt8.toNat_ofNat_of_lt' hlt] at hlo hhi
  have hlo' : 128 ≤ n := hlo
  have hhi' : n ≤ 191 := hhi
  omega

theorem not_isContinuation_head (c : Char) :
    ∃ b rest, String.utf8EncodeChar c = b :: rest ∧ ¬ IsContinuation b := by
  unfold String.utf8EncodeChar
  dsimp only
  split_ifs
  · exact ⟨_, _, rfl, not_isContinuation_ofNat (by omega) (Or.inl (by omega))⟩
  · exact ⟨_, _, rfl, not_isContinuation_ofNat (by omega) (Or.inr (by omega))⟩
  · exact ⟨_, _, rfl, not_isContinuation_ofNat (by omega) (Or.inr (by omega))⟩
  · exact ⟨_, _, rfl, not_isContinuation_ofNat (by omega) (Or.inr (by omega))⟩

/-- A text does not start inside a character. -/
theorem not_isContinuation_of_valid_cons {b : UInt8} {rest : List UInt8}
    (h : Valid (b :: rest)) : ¬ IsContinuation b := by
  obtain ⟨cs, hcs⟩ := h
  cases cs with
  | nil => exact absurd hcs.symm (List.cons_ne_nil b rest)
  | cons c cs =>
    obtain ⟨b', rest', hc, hb'⟩ := not_isContinuation_head c
    rw [encode_cons, hc, List.cons_append] at hcs
    exact (List.cons.inj hcs).1 ▸ hb'

/-! ## Operations that act on ASCII only -/

/-- A rewriting of bytes that keeps those from `0x80` on is the rewriting of characters that it
makes on ASCII. -/
theorem flatMap_encode {f : UInt8 → List UInt8} {g : Char → List Char}
    (hascii : ∀ c : Char, c.toNat < 0x80 → f (UInt8.ofNat c.toNat) = encode (g c))
    (hf : ∀ b, 0x80 ≤ b → f b = [b]) (hg : ∀ c : Char, 0x80 ≤ c.toNat → g c = [c])
    (cs : List Char) : (encode cs).flatMap f = encode (cs.flatMap g) := by
  induction cs with
  | nil => rfl
  | cons c cs ih =>
    rw [encode_cons, List.flatMap_append, ih, List.flatMap_cons, encode_append]
    congr 1
    by_cases hc : c.toNat < 0x80
    · rw [utf8EncodeChar_of_ascii hc, List.flatMap_cons, List.flatMap_nil, List.append_nil]
      exact hascii c hc
    · have hc' : 0x80 ≤ c.toNat := Nat.le_of_not_lt hc
      have hkeep : (String.utf8EncodeChar c).flatMap f = (String.utf8EncodeChar c).flatMap ([·]) :=
        List.flatMap_congr fun b hb => hf b (le_of_mem_utf8EncodeChar hc' hb)
      rw [hkeep, List.flatMap_singleton', hg c hc', encode_cons, encode_nil, List.append_nil]

/-- A test that only ASCII can pass may be made on the bytes or on the characters. -/
theorem all_encode {p : UInt8 → Bool} {q : Char → Bool}
    (hascii : ∀ c : Char, c.toNat < 0x80 → p (UInt8.ofNat c.toNat) = q c)
    (hp : ∀ b, 0x80 ≤ b → p b = false) (hq : ∀ c : Char, 0x80 ≤ c.toNat → q c = false)
    (cs : List Char) : (encode cs).all p = cs.all q := by
  induction cs with
  | nil => rfl
  | cons c cs ih =>
    rw [encode_cons, List.all_append, ih, List.all_cons]
    congr 1
    by_cases hc : c.toNat < 0x80
    · rw [utf8EncodeChar_of_ascii hc, List.all_cons, List.all_nil, Bool.and_true]
      exact hascii c hc
    · have hc' : 0x80 ≤ c.toNat := Nat.le_of_not_lt hc
      rw [hq c hc', List.all_eq_false]
      obtain ⟨b, hb⟩ := List.exists_mem_of_ne_nil _ (String.utf8EncodeChar_ne_nil (c := c))
      refine ⟨b, hb, ?_⟩
      rw [hp b (le_of_mem_utf8EncodeChar hc' hb)]
      exact Bool.false_ne_true

end Utf8
