import Mathlib.Order.BoundedOrder.Monotone
import Osedax.Detect.ImgReport

/-!
# Recording more markers

The scanner only adds markers to a report, so reports are ordered: `r ≤ r'` when `r'` holds every
marker of `r`.  The predicates built from markers with "and" and "or" alone are monotone in this
order; persistence and the FAT32 test also have negated parts, and what takes them away is one of
those.
-/

namespace Osedax

/-! ## Bits that stay set -/

theorem u16_ne_zero_of_and_eq {a b : UInt16} (hab : a &&& b = a) (ha : a ≠ 0) : b ≠ 0 := by
  rintro rfl
  exact ha (hab.symm.trans UInt16.and_zero)

theorem u8_ne_zero_of_and_eq {a b : UInt8} (hab : a &&& b = a) (ha : a ≠ 0) : b ≠ 0 := by
  rintro rfl
  exact ha (hab.symm.trans UInt8.and_zero)

/-- A mask that hits some bits hits them when more are set. -/
theorem and_mask_ne_zero {a b mask : UInt16} (hab : a &&& b = a) (ha : a &&& mask ≠ 0) :
    b &&& mask ≠ 0 := by
  intro hb
  rw [← hab, UInt16.and_assoc, hb, UInt16.and_zero] at ha
  exact ha rfl

namespace ImgReport

/-- `r'` holds every marker of `r`. -/
structure Holds (r r' : ImgReport) : Prop where
  isIso : r.isIso → r'.isIso
  isDdBootableMarker : r.isDdBootableMarker ≠ .no → r'.isDdBootableMarker ≠ .no
  disableIso : r.disableIso → r'.disableIso
  hasBootmgrMarker : r.hasBootmgrMarker → r'.hasBootmgrMarker
  hasBootmgrEfi : r.hasBootmgrEfi → r'.hasBootmgrEfi
  wininstIndex : r.wininstIndex ≠ 0 → r'.wininstIndex ≠ 0
  winpe : r.winpe &&& r'.winpe = r.winpe
  usesMinint : r.usesMinint → r'.usesMinint
  hasEfi : r.hasEfi &&& r'.hasEfi = r.hasEfi
  hasGrub2 : r.hasGrub2 &&& r'.hasGrub2 = r.hasGrub2
  hasGrub2Fs : r.hasGrub2Fs &&& r'.hasGrub2Fs = r.hasGrub2Fs
  hasGrub4dos : r.hasGrub4dos → r'.hasGrub4dos
  slVersion : r.slVersion ≠ 0 → r'.slVersion ≠ 0
  hasKolibriosMarker : r.hasKolibriosMarker → r'.hasKolibriosMarker
  reactosPath : r.reactosPath ≠ "" → r'.reactosPath ≠ ""
  needsNtfs : r.needsNtfs → r'.needsNtfs

theorem u16_and_eq_trans {a b c : UInt16} (hab : a &&& b = a) (hbc : b &&& c = b) :
    a &&& c = a := by
  rw [← hab, UInt16.and_assoc, hbc]

theorem u8_and_eq_trans {a b c : UInt8} (hab : a &&& b = a) (hbc : b &&& c = b) : a &&& c = a := by
  rw [← hab, UInt8.and_assoc, hbc]

instance : Preorder ImgReport where
  le := Holds
  le_refl r := by
    constructor <;> first | exact id | exact UInt16.and_self | exact UInt8.and_self
  le_trans _ _ _ h k :=
    { isIso := k.isIso ∘ h.isIso
      isDdBootableMarker := k.isDdBootableMarker ∘ h.isDdBootableMarker
      disableIso := k.disableIso ∘ h.disableIso
      hasBootmgrMarker := k.hasBootmgrMarker ∘ h.hasBootmgrMarker
      hasBootmgrEfi := k.hasBootmgrEfi ∘ h.hasBootmgrEfi
      wininstIndex := k.wininstIndex ∘ h.wininstIndex
      winpe := u16_and_eq_trans h.winpe k.winpe
      usesMinint := k.usesMinint ∘ h.usesMinint
      hasEfi := u16_and_eq_trans h.hasEfi k.hasEfi
      hasGrub2 := u8_and_eq_trans h.hasGrub2 k.hasGrub2
      hasGrub2Fs := u8_and_eq_trans h.hasGrub2Fs k.hasGrub2Fs
      hasGrub4dos := k.hasGrub4dos ∘ h.hasGrub4dos
      slVersion := k.slVersion ∘ h.slVersion
      hasKolibriosMarker := k.hasKolibriosMarker ∘ h.hasKolibriosMarker
      reactosPath := k.reactosPath ∘ h.reactosPath
      needsNtfs := k.needsNtfs ∘ h.needsNtfs }

theorem holds_of_le {r r' : ImgReport} (h : r ≤ r') : Holds r r' := h

/-! ## Monotone predicates -/

theorem monotone_hasReactos : Monotone fun r : ImgReport => r.hasReactos = true := by
  intro r r' h hr
  simp only [hasReactos, Bool.not_eq_true', Bool.eq_false_iff, ne_eq, String.isEmpty_iff] at hr ⊢
  exact (holds_of_le h).reactosPath hr

theorem monotone_hasKolibrios : Monotone fun r : ImgReport => r.hasKolibrios = true :=
  fun _ _ h => (holds_of_le h).hasKolibriosMarker

theorem monotone_hasGrub : Monotone fun r : ImgReport => r.hasGrub = true := by
  simp only [hasGrub, Bool.or_eq_true, bne_iff_ne]
  exact monotone_or (fun _ _ h => u8_ne_zero_of_and_eq (holds_of_le h).hasGrub2)
    fun _ _ h => (holds_of_le h).hasGrub4dos

theorem monotone_hasSyslinux : Monotone fun r : ImgReport => r.hasSyslinux = true := by
  simp only [hasSyslinux, bne_iff_ne]
  exact fun _ _ h => (holds_of_le h).slVersion

theorem monotone_hasBootmgr : Monotone fun r : ImgReport => r.hasBootmgr = true := by
  simp only [hasBootmgr, Bool.or_eq_true]
  exact monotone_or (fun _ _ h => (holds_of_le h).hasBootmgrMarker)
    fun _ _ h => (holds_of_le h).hasBootmgrEfi

theorem monotone_hasWininst : Monotone fun r : ImgReport => r.hasWininst = true := by
  simp only [hasWininst, bne_iff_ne]
  exact fun _ _ h => (holds_of_le h).wininstIndex

theorem monotone_hasWinpe : Monotone fun r : ImgReport => r.hasWinpe = true := by
  simp only [hasWinpe, bne_iff_ne]
  exact fun _ _ h => and_mask_ne_zero (holds_of_le h).winpe

theorem monotone_hasWindows : Monotone fun r : ImgReport => r.hasWindows = true := by
  simp only [hasWindows, Bool.or_eq_true]
  exact monotone_or (monotone_or monotone_hasBootmgr fun _ _ h => (holds_of_le h).usesMinint)
    monotone_hasWinpe

theorem monotone_isEfiBootable : Monotone fun r : ImgReport => r.isEfiBootable = true := by
  simp only [isEfiBootable, bne_iff_ne]
  exact fun _ _ h => u16_ne_zero_of_and_eq (holds_of_le h).hasEfi

theorem monotone_isBiosBootable : Monotone fun r : ImgReport => r.isBiosBootable = true := by
  simp only [isBiosBootable, Bool.or_eq_true]
  exact monotone_or (monotone_or (monotone_or (monotone_or (monotone_or monotone_hasBootmgr
    monotone_hasSyslinux) monotone_hasWinpe) monotone_hasGrub) monotone_hasReactos)
    monotone_hasKolibrios

theorem isBootable_iff {d : DdBootable} : d.isBootable = true ↔ d ≠ .no := by
  cases d <;> decide

theorem monotone_isDdBootable : Monotone fun r : ImgReport => r.isDdBootable = true := by
  simp only [isDdBootable, isBootable_iff]
  exact fun _ _ h => (holds_of_le h).isDdBootableMarker

theorem monotone_hasWintogo : Monotone fun r : ImgReport => r.hasWintogo = true := by
  simp only [hasWintogo, Bool.and_eq_true]
  exact monotone_and (monotone_and monotone_hasBootmgr monotone_isEfiBootable) monotone_hasWininst

theorem monotone_isSupported : Monotone fun r : ImgReport => r.isSupported = true := by
  simp only [isSupported, Bool.or_eq_true]
  exact monotone_or (monotone_or monotone_isDdBootable monotone_isBiosBootable)
    monotone_isEfiBootable

/-! ## Predicates with negated parts -/

/-- What a medium can lose persistence to. -/
theorem hasPersistence_or {r r' : ImgReport} (h : r ≤ r') (hr : r.hasPersistence = true) :
    r'.hasPersistence = true ∨ r'.hasWindows = true ∨ r'.hasReactos = true ∨
      r'.hasKolibrios = true := by
  simp only [hasPersistence, Bool.and_eq_true, Bool.or_eq_true, Bool.not_eq_true',
    Bool.or_eq_false_iff] at hr ⊢
  have hloader : r'.hasSyslinux = true ∨ r'.hasGrub = true :=
    hr.1.imp (monotone_hasSyslinux h) (monotone_hasGrub h)
  cases r'.hasWindows <;> cases r'.hasReactos <;> cases r'.hasKolibrios <;> simp [hloader]

/-- What takes the FAT32 target away, the oversized files being the same. -/
theorem isFat32Compat_or {r r' : ImgReport} {dual : Bool} (hfile : r'.has4gbFile = r.has4gbFile)
    (hr : r.isFat32Compat dual = true) : r'.isFat32Compat dual = true ∨ r'.needsNtfs = true ∨
      r'.hasFatlessGrub = true ∧ r'.has4gbFile = 0 := by
  simp only [isFat32Compat, Bool.and_eq_true, Bool.or_eq_true, Bool.not_eq_true', beq_iff_eq,
    hfile] at hr ⊢
  cases hntfs : r'.needsNtfs with
  | true => exact Or.inr (Or.inl rfl)
  | false =>
    rcases hr.1 with ⟨hzero, -⟩ | hsplit
    · cases hgrub : r'.hasFatlessGrub with
      | true => exact Or.inr (Or.inr ⟨rfl, hzero⟩)
      | false => exact Or.inl ⟨Or.inl ⟨hzero, rfl⟩, rfl⟩
    · exact Or.inl ⟨Or.inr hsplit, rfl⟩

/-! ## Every capability is supported -/

section Supported

variable {r : ImgReport}

theorem isSupported_iff : r.isSupported = true ↔
    r.isDdBootable = true ∨ r.isBiosBootable = true ∨ r.isEfiBootable = true := by
  rw [isSupported, Bool.or_eq_true, Bool.or_eq_true, or_assoc]

theorem isBiosBootable_of_hasBootmgr (h : r.hasBootmgr = true) : r.isBiosBootable = true := by
  simp [isBiosBootable, h]

theorem isBiosBootable_of_hasGrub (h : r.hasGrub = true) : r.isBiosBootable = true := by
  simp [isBiosBootable, h]

theorem isBiosBootable_of_hasSyslinux (h : r.hasSyslinux = true) : r.isBiosBootable = true := by
  simp [isBiosBootable, h]

theorem isEfiBootable_of_hasRegularEfi (h : r.hasRegularEfi = true) : r.isEfiBootable = true := by
  simp only [hasRegularEfi, isEfiBootable, bne_iff_ne] at h ⊢
  intro hzero
  rw [hzero, UInt16.zero_and] at h
  exact h rfl

theorem isSupported_of_hasWintogo (h : r.hasWintogo = true) : r.isSupported = true := by
  simp only [hasWintogo, Bool.and_eq_true] at h
  exact isSupported_iff.2 (Or.inr (Or.inr h.1.2))

theorem isSupported_of_hasPersistence (h : r.hasPersistence = true) : r.isSupported = true := by
  simp only [hasPersistence, Bool.and_eq_true, Bool.or_eq_true] at h
  exact isSupported_iff.2 (Or.inr (Or.inl
    (h.1.elim isBiosBootable_of_hasSyslinux isBiosBootable_of_hasGrub)))

theorem isSupported_of_hasWin7Efi (h : r.hasWin7Efi = true) : r.isSupported = true := by
  simp only [hasWin7Efi, Bool.and_eq_true, beq_iff_eq] at h
  refine isSupported_iff.2 (Or.inr (Or.inr ?_))
  rw [isEfiBootable, h.1]
  rfl

theorem isSupported_of_hasRegularEfi (h : r.hasRegularEfi = true) : r.isSupported = true :=
  isSupported_iff.2 (Or.inr (Or.inr (isEfiBootable_of_hasRegularEfi h)))

theorem isSupported_of_hasFatlessGrub (h : r.hasFatlessGrub = true) : r.isSupported = true := by
  simp only [hasFatlessGrub, Bool.and_eq_true, bne_iff_ne] at h
  have hgrub : r.hasGrub2 ≠ 0 := by
    intro hzero
    rw [hzero, UInt8.zero_and] at h
    exact h.1 rfl
  refine isSupported_iff.2 (Or.inr (Or.inl (isBiosBootable_of_hasGrub ?_)))
  rw [hasGrub, bne_iff_ne.2 hgrub, Bool.true_or]

theorem isSupported_of_isWindows1x (h : r.isWindows1x = true) : r.isSupported = true := by
  simp only [isWindows1x, Bool.and_eq_true] at h
  refine isSupported_iff.2 (Or.inr (Or.inl (isBiosBootable_of_hasBootmgr ?_)))
  rw [hasBootmgr, h.1, Bool.or_true]

theorem isSupported_of_isDdOnly (h : r.isDdOnly = true) : r.isSupported = true := by
  simp only [isDdOnly, Bool.and_eq_true] at h
  exact isSupported_iff.2 (Or.inl h.1)

/-- A medium that runs Windows from the stick has no persistence. -/
theorem hasWintogo_eq_false_of_hasPersistence (h : r.hasPersistence = true) :
    r.hasWintogo = false := by
  simp only [hasPersistence, Bool.and_eq_true, Bool.not_eq_true', Bool.or_eq_false_iff,
    hasWindows] at h
  rw [hasWintogo, h.2.1.1.1.1, Bool.false_and, Bool.false_and]

theorem hasRegularEfi_eq_false_of_hasWin7Efi (h : r.hasWin7Efi = true) :
    r.hasRegularEfi = false := by
  simp only [hasWin7Efi, Bool.and_eq_true, beq_iff_eq] at h
  rw [hasRegularEfi, h.1]
  rfl

end Supported

/-- Recording more markers never retracts support, and each capability passes the final gate. -/
theorem capability_of_le {r r' : ImgReport} (h : r ≤ r') :
    (r.isEfiBootable = true → r'.isEfiBootable = true) ∧
    (r.isBiosBootable = true → r'.isBiosBootable = true) ∧
    (r.hasWindows = true → r'.hasWindows = true) ∧
    (r.hasWintogo = true → r'.hasWintogo = true) ∧
    (r.isSupported = true → r'.isSupported = true) ∧
    (r.hasPersistence = true → r'.hasPersistence = false →
      r'.hasWindows = true ∨ r'.hasReactos = true ∨ r'.hasKolibrios = true) ∧
    (∀ dual, r.isFat32Compat dual = true → r'.has4gbFile = r.has4gbFile →
      r'.isFat32Compat dual = false →
        r'.needsNtfs = true ∨ r'.hasFatlessGrub = true ∧ r'.has4gbFile = 0) ∧
    ∀ s : ImgReport,
      ((s.hasWintogo || s.hasPersistence || s.hasWin7Efi || s.hasRegularEfi || s.hasFatlessGrub ||
        s.isWindows1x || s.isDdOnly) = true → s.isSupported = true) ∧
      (s.hasPersistence = true → s.hasWintogo = false) ∧
      (s.hasWin7Efi = true → s.hasRegularEfi = false) := by
  refine ⟨monotone_isEfiBootable h, monotone_isBiosBootable h, monotone_hasWindows h,
    monotone_hasWintogo h, monotone_isSupported h, ?persistence, ?fat32, fun s => ⟨?supported,
      hasWintogo_eq_false_of_hasPersistence, hasRegularEfi_eq_false_of_hasWin7Efi⟩⟩
  case persistence =>
    intro hr hr'
    exact (hasPersistence_or h hr).resolve_left (by rw [hr']; exact Bool.false_ne_true)
  case fat32 =>
    intro dual hr hfile hr'
    exact (isFat32Compat_or hfile hr).resolve_left (by rw [hr']; exact Bool.false_ne_true)
  case supported =>
    simp only [Bool.or_eq_true]
    rintro ((((((h | h) | h) | h) | h) | h) | h)
    · exact isSupported_of_hasWintogo h
    · exact isSupported_of_hasPersistence h
    · exact isSupported_of_hasWin7Efi h
    · exact isSupported_of_hasRegularEfi h
    · exact isSupported_of_hasFatlessGrub h
    · exact isSupported_of_isWindows1x h
    · exact isSupported_of_isDdOnly h

/-- A live medium with syslinux. -/
def liveMedium : ImgReport where
  slVersion := 0x0603

/-- The same medium, with a Windows boot manager found later. -/
def liveWithBootmgr : ImgReport where
  slVersion := 0x0603
  hasBootmgrMarker := true

theorem capability_of_le_liveMedium : liveMedium ≤ liveWithBootmgr ∧
    (liveWithBootmgr.hasWindows = true ∨ liveWithBootmgr.hasReactos = true ∨
      liveWithBootmgr.hasKolibrios = true) := by
  have hle : liveMedium ≤ liveWithBootmgr := by constructor <;> decide
  exact ⟨hle, (capability_of_le hle).2.2.2.2.2.1 (by decide) (by decide)⟩

end ImgReport

end Osedax
