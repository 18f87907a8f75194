import Osedax.Device.KernelTable
import Osedax.Support.Window

/-!
# Decoding a mount point

`unescapeMount` on every string, not only on what the kernel writes: it undoes the kernel's
escaping of any path, it leaves a string without escapes alone, and escaping its answer again gives
the string back exactly when the kernel could have written it.
-/

namespace Osedax

open Window

/-- An octal ASCII digit. -/
def IsOctal (d : UInt8) : Prop := 0x30 ≤ d ∧ d ≤ 0x37

/-- The number that three octal digits stand for. -/
def octalValue (d₁ d₂ d₃ : UInt8) : ℕ :=
  64 * (d₁.toNat - 48) + 8 * (d₂.toNat - 48) + (d₃.toNat - 48)

/-- Byte `i` is a backslash with three octal digits behind it that stand for a byte. -/
def EscapeAt (i : ℕ) (bytes : List UInt8) : Prop :=
  ∃ d₁ d₂ d₃, IsOctal d₁ ∧ IsOctal d₂ ∧ IsOctal d₃ ∧ octalValue d₁ d₂ d₃ ≤ 255 ∧
    OccursAt [backslash, d₁, d₂, d₃] i bytes

/-! ## Three digits -/

theorem isOctal_iff {d : UInt8} : IsOctal d ↔ 48 ≤ d.toNat ∧ d.toNat ≤ 55 := by
  rw [IsOctal, UInt8.le_iff_toNat_le, UInt8.le_iff_toNat_le]
  exact Iff.rfl

theorem parseOctalByte_of_length {t : List UInt8} (h : t.length ≠ 3) : parseOctalByte t = none :=
  if_pos h

/-- What a digit adds; three digits stay below `2 ^ 9`. -/
theorem toNat_octalStep (val : UInt16) {d : UInt8} (hval : val.toNat < 64) (hd : IsOctal d) :
    (val * 8 + (d - 0x30).toUInt16).toNat = 8 * val.toNat + (d.toNat - 48) := by
  obtain ⟨hlo, hhi⟩ := isOctal_iff.1 hd
  have hdigit : (d - 0x30).toNat = d.toNat - 48 := UInt8.toNat_sub_of_le _ _ hd.1
  have height : (8 : UInt16).toNat = 8 := rfl
  rw [UInt16.toNat_add, UInt16.toNat_mul, UInt8.toNat_toUInt16, hdigit, height]
  omega

/-- One digit of the fold, tested before the rest goes on. -/
theorem octalDigit_bind_iff {d v : UInt8} {x : UInt16} {f : UInt16 → Option UInt8} :
    (if 0x30 ≤ d && d ≤ 0x37 then some x else none).bind f = some v ↔
      IsOctal d ∧ f x = some v := by
  rw [Option.bind_eq_some_iff]
  simp [IsOctal, and_assoc]

/-- The value is a byte when it passes the last test. -/
theorem toUInt8_eq_some_iff {x : UInt16} {v : UInt8} {n : ℕ} (hx : x.toNat = n) :
    (if x ≤ 0xFF then some x.toUInt8 else none) = some v ↔ n = v.toNat := by
  have hlt := v.toNat_lt
  rw [Option.ite_none_right_eq_some, Option.some_inj, ← UInt8.toNat_inj, UInt16.toNat_toUInt8,
    UInt16.le_iff_toNat_le, hx]
  show n ≤ 255 ∧ n % 2 ^ 8 = v.toNat ↔ n = v.toNat
  omega

theorem parseOctalByte_eq_some_iff {d₁ d₂ d₃ v : UInt8} :
    parseOctalByte [d₁, d₂, d₃] = some v ↔
      IsOctal d₁ ∧ IsOctal d₂ ∧ IsOctal d₃ ∧ octalValue d₁ d₂ d₃ = v.toNat := by
  unfold parseOctalByte
  rw [if_neg (by simp)]
  simp only [List.foldlM_cons, List.foldlM_nil, Option.bind_eq_bind, Option.bind_assoc,
    octalDigit_bind_iff]
  refine and_congr_right fun h₁ => and_congr_right fun h₂ => and_congr_right fun h₃ => ?_
  have hd₁ := isOctal_iff.1 h₁
  have hd₂ := isOctal_iff.1 h₂
  have hd₃ := isOctal_iff.1 h₃
  have hzero : (0 : UInt16).toNat = 0 := rfl
  have hv₁ := toNat_octalStep 0 (by decide) h₁
  have hv₂ := toNat_octalStep (0 * 8 + (d₁ - 0x30).toUInt16) (by omega) h₂
  have hv₃ := toNat_octalStep ((0 * 8 + (d₁ - 0x30).toUInt16) * 8 + (d₂ - 0x30).toUInt16)
    (by omega) h₃
  have hvalue : (((0 * 8 + (d₁ - 0x30).toUInt16) * 8 + (d₂ - 0x30).toUInt16) * 8 +
      (d₃ - 0x30).toUInt16).toNat = octalValue d₁ d₂ d₃ := by
    rw [hv₃, hv₂, hv₁, octalValue]
    omega
  exact toUInt8_eq_some_iff hvalue

/-! ## Escapes in a text -/

theorem exists_digits_of_parseOctalByte {t : List UInt8} {v : UInt8}
    (h : parseOctalByte t = some v) : ∃ d₁ d₂ d₃, t = [d₁, d₂, d₃] := by
  by_contra hno
  have hlen : t.length ≠ 3 := fun hlen => hno (List.length_eq_three.1 hlen)
  rw [parseOctalByte_of_length hlen] at h
  exact absurd h nofun

/-- Wherever the decoder takes an escape, the text holds one. -/
theorem escapeAt_of_isSome {pre post : List UInt8} {a v : UInt8}
    (h : mountEscape.escapeAt a post = some v) : EscapeAt pre.length (pre ++ a :: post) := by
  obtain ⟨⟨rfl, hwidth⟩, hparse⟩ := Option.ite_none_right_eq_some.1 h
  obtain ⟨d₁, d₂, d₃, htake⟩ := exists_digits_of_parseOctalByte hparse
  have hparse' : parseOctalByte [d₁, d₂, d₃] = some v := htake ▸ hparse
  obtain ⟨h₁, h₂, h₃, hvalue⟩ := parseOctalByte_eq_some_iff.1 hparse'
  have hlt := v.toNat_lt
  refine ⟨d₁, d₂, d₃, h₁, h₂, h₃, by omega, pre, post.drop mountEscape.width, ?_, rfl⟩
  have hsplit := List.take_append_drop mountEscape.width post
  rw [htake] at hsplit
  rw [← hsplit]
  rfl

theorem unescapeMount_of_no_escape {s : String} (h : ∀ i, ¬ EscapeAt i (asBytes s)) :
    unescapeMount s = ⟨asBytes s⟩ := by
  rw [unescapeMount_eq, mountEscape.decode_of_no_escape]
  intro pre a post hs
  rw [Option.eq_none_iff_forall_ne_some]
  intro v hv
  refine h pre.length ?_
  rw [hs]
  exact escapeAt_of_isSome hv

theorem unescapeMount_mangle {p : List UInt8} (h : Utf8.Valid p) :
    ∃ s, fromUtf8 (mangle p) = some s ∧ unescapeMount s = ⟨p⟩ := by
  obtain ⟨cs, rfl⟩ := h
  refine ⟨String.ofList (cs.flatMap mangleChar), ?_, unescapeMount_flatMap_mangleChar cs⟩
  rw [mangle_encode, fromUtf8, Utf8.decode_encode]

/-- `unescapeMount` undoes `mangle` on every path that is UTF-8, leaves a text without escapes as
it is, and is undone by `mangle` exactly on what `mangle` writes. -/
theorem unescapeMount_roundTrip :
    (∀ p, Utf8.Valid p → ∃ s, fromUtf8 (mangle p) = some s ∧ unescapeMount s = ⟨p⟩) ∧
    (∀ s, (∀ i, ¬ EscapeAt i (asBytes s)) → unescapeMount s = ⟨asBytes s⟩) ∧
    ∀ s, mangle (unescapeMount s).bytes = asBytes s ↔ ∃ p, mangle p = asBytes s := by
  refine ⟨fun _ => unescapeMount_mangle, fun _ => unescapeMount_of_no_escape, fun s => ?_⟩
  rw [unescapeMount_eq]
  exact mountEscape.encode_decode_iff

end Osedax
