import Mathlib.Data.Nat.Notation

/-!
# The image report

The report of `core/src/detect/img_report.rs` with the predicates that every downstream decision
reads.  The record has the fields that a predicate looks at.  A field whose name is also the name
of a predicate ends in `Marker` here.
-/

namespace Osedax

/-- The part of the Windows version that is compared. -/
structure WinVer where
  major : UInt16
  deriving DecidableEq, Repr

/-- Tri-state DD-bootability. -/
inductive DdBootable where
  | no
  | yes
  | forced
  deriving DecidableEq, Repr

def DdBootable.isBootable : DdBootable → Bool
  | .yes | .forced => true
  | .no => false

/-! ## Bit masks -/

def efiBootmgr : UInt16 := 0x0001

/-- Every bit except bit 0 (bootmgr.efi) and bit 15 (efi.img-only). -/
def efiRegularMask : UInt16 := 0x7FFE

def grub2Efi : UInt8 := 0x80
def grub2FsFat : UInt8 := 0x1

/-- One file of at least 4 GiB, and it is the first install.wim. -/
def fourgbSplittableOnly : UInt8 := 0x11

def winpeI386 : UInt16 := 0x1
def winpeAmd64 : UInt16 := 0x2
def winpeMinint : UInt16 := 0x4

structure ImgReport where
  isIso : Bool := false
  isDdBootableMarker : DdBootable := .no
  disableIso : Bool := false
  hasBootmgrMarker : Bool := false
  hasBootmgrEfi : Bool := false
  wininstIndex : UInt8 := 0
  winVersion : WinVer := ⟨0⟩
  winpe : UInt16 := 0
  usesMinint : Bool := false
  hasEfi : UInt16 := 0
  hasGrub2 : UInt8 := 0
  hasGrub2Fs : UInt8 := 0
  hasGrub4dos : Bool := false
  slVersion : UInt16 := 0
  hasKolibriosMarker : Bool := false
  reactosPath : String := ""
  has4gbFile : UInt8 := 0
  needsNtfs : Bool := false
  deriving DecidableEq, Repr

namespace ImgReport

variable (r : ImgReport)

/-! ## The predicates -/

def hasKolibrios : Bool := r.hasKolibriosMarker

def hasReactos : Bool := !r.reactosPath.isEmpty

def hasGrub : Bool := r.hasGrub2 != 0 || r.hasGrub4dos

def hasSyslinux : Bool := r.slVersion != 0

def hasBootmgr : Bool := r.hasBootmgrMarker || r.hasBootmgrEfi

/-- A real per-architecture EFI loader exists. -/
def hasRegularEfi : Bool := r.hasEfi &&& efiRegularMask != 0

def hasWininst : Bool := r.wininstIndex != 0

def hasWinpe : Bool := r.winpe &&& (winpeI386 ||| winpeAmd64 ||| winpeMinint) != 0

def hasWindows : Bool := r.hasBootmgr || r.usesMinint || r.hasWinpe

/-- EFI is only bootmgr.efi and an installer exists. -/
def hasWin7Efi : Bool := r.hasEfi == efiBootmgr && r.hasWininst

/-- EFI GRUB present but its build carries no FAT driver. -/
def hasFatlessGrub : Bool :=
  (r.hasGrub2 &&& grub2Efi != 0) && (r.hasGrub2Fs &&& grub2FsFat == 0)

def isWindows1x : Bool := r.hasBootmgrEfi && r.winVersion.major ≥ 10

def isWindows11 : Bool := r.hasBootmgrEfi && r.winVersion.major ≥ 11

def isEfiBootable : Bool := r.hasEfi != 0

def isBiosBootable : Bool :=
  r.hasBootmgr || r.hasSyslinux || r.hasWinpe || r.hasGrub || r.hasReactos || r.hasKolibrios

def isDdBootable : Bool := r.isDdBootableMarker.isBootable

/-- DD-bootable but not usable in ISO mode. -/
def isDdOnly : Bool := r.isDdBootableMarker.isBootable && (!r.isIso || r.disableIso)

def hasWintogo : Bool := r.hasBootmgr && r.isEfiBootable && r.hasWininst

def hasPersistence : Bool :=
  (r.hasSyslinux || r.hasGrub) && !(r.hasWindows || r.hasReactos || r.hasKolibrios)

/-- FAT32 holds the image: no file of at least 4 GiB, or only one that is split. -/
def isFat32Compat (allowDualUefiBios : Bool) : Bool :=
  let clean := r.has4gbFile == 0 && !r.hasFatlessGrub
  let splittable := r.has4gbFile == fourgbSplittableOnly && allowDualUefiBios
  (clean || splittable) && !r.needsNtfs

/-- The final gate: raw-writable, or a BIOS or EFI boot method. -/
def isSupported : Bool := r.isDdBootable || r.isBiosBootable || r.isEfiBootable

end ImgReport

end Osedax
