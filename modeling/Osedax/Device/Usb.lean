import Osedax.Device.Linux
import Osedax.Rust.Lossy

/-!
# The USB bus in a device path

`detect_usb` looks at the lossy text of each segment of the canonical device path; `detectUsb` at
its bytes.  They agree on every path (`detectUsbText_eq`): what is not UTF-8 never makes a segment
count.  So a disk is on USB exactly if a segment of its path is `usb` with a bus number, or `usb`.
-/

namespace Osedax

/-- The test of `detect_usb` on the text of a segment. -/
def isUsbText (seg : String) : Bool :=
  seg == "usb" || ("usb".toList.isPrefixOf seg.toList && (seg.toList.drop 3).all Char.isDigit)

/-- `detect_usb`, on the lossy texts of the segments. -/
def detectUsbText (fs : FileSystem) (base : String) : Bool :=
  match fs.canonicalize (Path.ofString (base ++ "/device")) with
  | none => false
  | some target => target.components.any fun c => isUsbText (toStringLossy c.asOsStr)

/-! ## The segment -/

theorem isUsbText_iff {seg : String} :
    isUsbText seg ↔ ∃ digits, seg = "usb" ++ digits ∧ (asBytes digits).all isAsciiDigit := by
  unfold isUsbText
  rw [Bool.or_eq_true, beq_iff_eq, Bool.and_eq_true, List.isPrefixOf_iff_prefix]
  apply Iff.intro
  · rintro (rfl | ⟨⟨digits, hseg⟩, hdigits⟩)
    · exact ⟨"", rfl, rfl⟩
    · refine ⟨String.ofList digits, ?_, ?_⟩
      · have hlist : (String.ofList digits).toList = digits := String.toList_ofList
        apply String.toList_injective
        rw [String.toList_append, hlist, hseg]
      · rw [all_isAsciiDigit, String.toList_ofList]
        rw [← hseg] at hdigits
        exact hdigits
  · rintro ⟨digits, rfl, hdigits⟩
    rw [all_isAsciiDigit] at hdigits
    rw [String.toList_append]
    exact Or.inr ⟨List.prefix_append _ _, hdigits⟩

theorem isUsbSegment_iff {seg : List UInt8} :
    isUsbSegment seg ↔ ∃ digits, seg = asBytes "usb" ++ digits ∧ digits.all isAsciiDigit := by
  unfold isUsbSegment
  rw [Bool.or_eq_true, beq_iff_eq, Bool.and_eq_true, List.isPrefixOf_iff_prefix]
  apply Iff.intro
  · rintro (rfl | ⟨⟨digits, rfl⟩, hdigits⟩)
    · exact ⟨[], rfl, rfl⟩
    · exact ⟨digits, rfl, hdigits⟩
  · rintro ⟨digits, rfl, hdigits⟩
    exact Or.inr ⟨List.prefix_append _ _, hdigits⟩

/-- The text of a segment passes exactly if its bytes do. -/
theorem isUsbText_toStringLossy (seg : List UInt8) :
    isUsbText (toStringLossy seg) = isUsbSegment seg := by
  rw [Bool.eq_iff_iff, isUsbText_iff, isUsbSegment_iff]
  apply Iff.intro
  · rintro ⟨digits, htext, hdigits⟩
    -- the text is ASCII, so it is the segment itself
    have hascii : (("usb" ++ digits).toList.all fun c => c.toNat < 0x80) = true := by
      have husb : ("usb".toList.all fun c => c.toNat < 0x80) = true := by decide
      rw [all_isAsciiDigit, List.all_eq_true] at hdigits
      rw [String.toList_append, List.all_append, husb, Bool.true_and, List.all_eq_true]
      intro c hc
      have hcode : 48 ≤ c.toNat ∧ c.toNat ≤ 57 := Char.isDigit_iff_toNat.1 (hdigits c hc)
      rw [decide_eq_true_eq]
      omega
    rw [eq_asBytes_of_toStringLossy hascii htext, asBytes_append]
    exact ⟨asBytes digits, rfl, hdigits⟩
  · rintro ⟨digits, rfl, hdigits⟩
    have hascii : ∀ b ∈ digits, b < 0x80 := fun b hb =>
      lt_of_le_of_lt (isAsciiDigit_iff.1 (List.all_eq_true.1 hdigits b hb)).2 (by decide)
    have hbytes : asBytes (String.ofList (digits.map fun b => Char.ofNat b.toNat)) = digits := by
      rw [asBytes_ofList, encode_map_ofNat hascii]
    refine ⟨String.ofList (digits.map fun b => Char.ofNat b.toNat), ?_, ?_⟩
    · rw [← toStringLossy_asBytes ("usb" ++ _), asBytes_append, hbytes]
    · rw [hbytes, hdigits]

theorem detectUsbText_eq (fs : FileSystem) (base : String) :
    detectUsbText fs base = detectUsb fs base := by
  unfold detectUsbText detectUsb
  cases fs.canonicalize (Path.ofString (base ++ "/device")) with
  | none => rfl
  | some target => simp only [isUsbText_toStringLossy]

/-- A disk is on USB exactly if a segment of its canonical device path is `usb` and a number, which
may be empty. -/
theorem detectUsbText_iff {fs : FileSystem} {base : String} :
    detectUsbText fs base ↔ ∃ target digits,
      fs.canonicalize (Path.ofString (base ++ "/device")) = some target ∧
      .normal (asBytes "usb" ++ digits) ∈ target.components ∧ digits.all isAsciiDigit := by
  have hsegment (c : Component) : isUsbSegment c.asOsStr ↔
      ∃ digits, c = .normal (asBytes "usb" ++ digits) ∧ digits.all isAsciiDigit := by
    rw [isUsbSegment_iff]
    cases c with
    | normal name => simp only [Component.asOsStr, Component.normal.injEq]
    | _ =>
      -- no other component has a name that starts so
      refine iff_of_false ?_ (by simp)
      rintro ⟨digits, h, -⟩
      have hhead : (asBytes "usb" ++ digits).head? = some 0x75 := rfl
      rw [← h] at hhead
      exact absurd hhead (by decide)
  rw [detectUsbText_eq]
  unfold detectUsb
  cases fs.canonicalize (Path.ofString (base ++ "/device")) with
  | none => simp
  | some target =>
    simp only [List.any_eq_true, hsegment, Option.some_inj]
    apply Iff.intro
    · rintro ⟨_, hmem, digits, rfl, hdigits⟩
      exact ⟨target, digits, rfl, hmem, hdigits⟩
    · rintro ⟨_, digits, rfl, hmem, hdigits⟩
      exact ⟨_, hmem, digits, rfl, hdigits⟩

end Osedax
