import Mathlib.Algebra.Group.Nat.Defs
import Mathlib.Data.List.DropRight
import Osedax.Support.Fields
import Osedax.Support.Utf8

/-!
# Strings of the source

The methods of `str` that the source calls, on Lean's strings.  A `str` is a UTF-8 text: `asBytes`
are its bytes and `fromUtf8` is the checked conversion back.
-/

namespace Osedax

/-- The bytes of a string: `str::as_bytes`, and the value of a literal `b"…"`. -/
def asBytes (s : String) : List UInt8 := s.toUTF8.data.toList

/-- `String::from_utf8`: `none` where the bytes are not UTF-8. -/
def fromUtf8 (bytes : List UInt8) : Option String := Utf8.decode bytes

/-- `u8::is_ascii_digit`. -/
def isAsciiDigit (b : UInt8) : Bool := 0x30 ≤ b && b ≤ 0x39

/-- `char::is_whitespace`: the Unicode property `White_Space`. -/
def isWhitespace (c : Char) : Bool :=
  (0x09 ≤ c.toNat && c.toNat ≤ 0x0D) || c.toNat == 0x20 || c.toNat == 0x85 || c.toNat == 0xA0 ||
    c.toNat == 0x1680 || (0x2000 ≤ c.toNat && c.toNat ≤ 0x200A) || c.toNat == 0x2028 ||
    c.toNat == 0x2029 || c.toNat == 0x202F || c.toNat == 0x205F || c.toNat == 0x3000

/-- `str::trim`. -/
def trim (s : String) : String :=
  String.ofList ((s.toList.dropWhile isWhitespace).rdropWhile isWhitespace)

/-- `str::split_whitespace`. -/
def splitWhitespace (s : String) : List String :=
  (Fields.words isWhitespace s.toList).map String.ofList

/-- A piece of `split_inclusive('\n')` without its line ending `"\n"` or `"\r\n"`. -/
def stripLineEnding (piece : List Char) : List Char :=
  if piece.getLast? = some '\n' then
    if piece.dropLast.getLast? = some '\r' then piece.dropLast.dropLast else piece.dropLast
  else piece

/-- `str::lines`. -/
def lines (s : String) : List String :=
  (Fields.pieces (· == '\n') s.toList).map fun piece => String.ofList (stripLineEnding piece)

/-- `str::strip_prefix`. -/
def stripPrefix (s pre : String) : Option String :=
  if pre.toList <+: s.toList then some (String.ofList (s.toList.drop pre.toList.length)) else none

/-- One digit of `parse`: the accumulator is checked against the width of the type. -/
def parseDigit (bits acc : ℕ) (c : Char) : Option ℕ :=
  if c.isDigit then
    let val := acc * 10 + (c.toNat - '0'.toNat)
    if val < 2 ^ bits then some val else none
  else none

/-- `str::parse` at the unsigned type of `bits` bits: an optional `+` and at least one digit. -/
def parseUnsigned (bits : ℕ) (s : String) : Option ℕ :=
  let digits := match s.toList with
    | '+' :: rest => rest
    | cs => cs
  if digits = [] then none else digits.foldlM (parseDigit bits) 0

theorem asBytes_eq_encode (s : String) : asBytes s = Utf8.encode s.toList :=
  (Utf8.encode_toList s).symm

@[simp] theorem asBytes_ofList (cs : List Char) : asBytes (String.ofList cs) = Utf8.encode cs := by
  rw [asBytes_eq_encode, String.toList_ofList]

theorem asBytes_append (s t : String) : asBytes (s ++ t) = asBytes s ++ asBytes t := by
  rw [asBytes_eq_encode, String.toList_append, Utf8.encode_append, ← asBytes_eq_encode,
    ← asBytes_eq_encode]

theorem asBytes_injective : Function.Injective asBytes := by
  intro s t h
  rw [asBytes_eq_encode, asBytes_eq_encode] at h
  exact String.toList_injective (Utf8.encode_injective h)

theorem fromUtf8_eq_none_iff {bytes : List UInt8} :
    fromUtf8 bytes = none ↔ ¬ Utf8.Valid bytes := Utf8.decode_eq_none_iff

theorem stripPrefix_eq_some_iff {s pre rest : String} :
    stripPrefix s pre = some rest ↔ s = pre ++ rest := by
  unfold stripPrefix
  rw [Option.ite_none_right_eq_some, Option.some_inj]
  apply Iff.intro
  · rintro ⟨⟨cs, hcs⟩, rfl⟩
    apply String.toList_injective
    rw [String.toList_append, String.toList_ofList, ← hcs, List.drop_left]
  · rintro rfl
    rw [String.toList_append, List.drop_left, String.ofList_toList]
    exact ⟨List.prefix_append _ _, rfl⟩

/-! ## Digits -/

theorem isAsciiDigit_iff {b : UInt8} : isAsciiDigit b ↔ 48 ≤ b.toNat ∧ b.toNat ≤ 57 := by
  unfold isAsciiDigit
  rw [Bool.and_eq_true, decide_eq_true_eq, decide_eq_true_eq]
  exact Iff.rfl

/-- The digits of a string are its bytes that are digits. -/
theorem all_isAsciiDigit (s : String) :
    (asBytes s).all isAsciiDigit = s.toList.all Char.isDigit := by
  have hdigit : ∀ c : Char, c.isDigit ↔ 48 ≤ c.toNat ∧ c.toNat ≤ 57 := fun _ =>
    Char.isDigit_iff_toNat
  rw [asBytes_eq_encode]
  apply Utf8.all_encode
  · intro c hc
    have hbyte : (UInt8.ofNat c.toNat).toNat = c.toNat :=
      UInt8.toNat_ofNat_of_lt' (Nat.lt_trans hc (by decide))
    rw [Bool.eq_iff_iff, isAsciiDigit_iff, hdigit, hbyte]
  · intro b hb
    have hb' : 128 ≤ b.toNat := hb
    rw [← Bool.not_eq_true, isAsciiDigit_iff]
    omega
  · intro c hc
    rw [← Bool.not_eq_true, hdigit]
    omega

/-! ## Lines and columns -/

theorem isWhitespace_eq_false_of_all {w : List Char} (hw : (w.all fun c => !isWhitespace c) = true)
    {c : Char} (hc : c ∈ w) : isWhitespace c = false := by
  have h := List.all_eq_true.1 hw c hc
  rwa [Bool.not_eq_true'] at h

theorem words_dropLast {cs : List Char} {c : Char} (hlast : cs.getLast? = some c)
    (hc : isWhitespace c) :
    Fields.words isWhitespace cs.dropLast = Fields.words isWhitespace cs := by
  have hcs : cs.dropLast ++ [c] = cs := List.dropLast_append_getLast? c hlast
  conv => rhs; rw [← hcs]
  exact (Fields.words_concat hc).symm

/-- Columns do not see the line ending that `lines` takes off. -/
theorem words_stripLineEnding (piece : List Char) :
    Fields.words isWhitespace (stripLineEnding piece) = Fields.words isWhitespace piece := by
  unfold stripLineEnding
  split_ifs with hn hr
  · rw [words_dropLast hr (by decide), words_dropLast hn (by decide)]
  · exact words_dropLast hn (by decide)
  · rfl

end Osedax
