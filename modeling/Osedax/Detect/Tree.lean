import Osedax.Detect.Magic

/-!
# The image-detection decision tree

The classifier of `core/src/detect/tree.rs`: compression first, then the ISO/UDF optical family
with its hybrid branch, then raw disk images, then bare filesystems, then unknown; and the warning
that an optical-only image gets.  Strings are compared by their UTF-8 bytes, as `str::find` does.
-/

namespace Osedax

/-- How much of an image head the tree says it needs. -/
def headLen : ℕ := 40 * 1024

/-- Bytes of the image head that `detect/mod.rs` asks callers to read. -/
def detectionHeadLen : ℕ := 64 * 1024

/-- Whether a detected ISO can be raw-written to USB and boot, or is optical-only. -/
inductive IsoHybrid where
  | biosHybrid
  | uefiHybrid
  | biosAndUefiHybrid
  | opticalOnly
  deriving DecidableEq, Repr

/-- True if this ISO can be raw-written to USB and reasonably expected to boot. -/
def IsoHybrid.isDdWritable (hybrid : IsoHybrid) : Bool := hybrid != .opticalOnly

inductive ImageKind where
  | compressed (c : Magic.Compression)
  | iso (hybrid : IsoHybrid) (udf elTorito : Bool)
  | diskImage (gpt : Bool)
  | bareFilesystem (hint : Magic.FilesystemHint)
  | wim
  | unknown
  deriving DecidableEq, Repr

/-- Branch 1a: decide whether an ISO carries a partition table or is optical-only. -/
def classifyHybrid (head : List UInt8) : IsoHybrid :=
  let parts := (Magic.mbrPartitions head).filter fun _ => Magic.mbrSignature head
  let bios := parts.any fun p => p.any fun e => e.isUsed && !e.isGptProtective && !e.isEsp
  let mbrEfiMarker := parts.any fun p => p.any fun e => e.isGptProtective || e.isEsp
  let gpt := Magic.hasGpt head || mbrEfiMarker
  match bios, gpt with
  | true, true => .biosAndUefiHybrid
  | false, true => .uefiHybrid
  | true, false => .biosHybrid
  | false, false => .opticalOnly

/-- Classify the head of an (uncompressed) image. -/
def classify (head : List UInt8) : ImageKind :=
  match Magic.detectCompression head with
  | some c => .compressed c
  | none =>
    let iso := Magic.hasIso9660 head
    let udf := Magic.hasUdf head
    if iso || udf then .iso (classifyHybrid head) udf (Magic.elTorito head).isSome
    else if Magic.isWim head then .wim
    else if Magic.hasGpt head then .diskImage true
    else if Magic.hasMbrPartitionTable head then .diskImage false
    else if Magic.isNtfsBootsector head then .bareFilesystem .ntfs
    else if Magic.isFatOrNtfsBootsector head then .bareFilesystem .fat
    else if Magic.isExt head then .bareFilesystem .ext
    else .unknown

/-! ## The optical-only warning -/

inductive BsdFlavor where
  | freeBsd
  | openBsd
  | netBsd
  | dragonFly
  | unknown
  deriving DecidableEq, Repr

def BsdFlavor.usbImageHint : BsdFlavor → String
  | .freeBsd => "FreeBSD-<ver>-<arch>-memstick.img"
  | .openBsd => "install<XX>.img (e.g. install79.img)"
  | .netBsd => "the install.img.gz memstick image (decompress first)"
  | .dragonFly => "dfly-<arch>-<ver>_REL.img.bz2 (decompress first)"
  | .unknown => "the vendor's dedicated USB (.img/memstick) image"

/-- A hard warning that an optical-only ISO is about to be written to USB. -/
structure BsdWarning where
  flavor : BsdFlavor
  message : String
  deriving DecidableEq, Repr

/-- `str::to_ascii_lowercase`, on the bytes of the string. -/
def toAsciiLowercase (s : List UInt8) : List UInt8 :=
  s.map fun b => if 0x41 ≤ b && b ≤ 0x5A then b + 0x20 else b

/-- `str::find`: the byte offset of the first occurrence of `pat`. -/
def find (pat : List UInt8) : List UInt8 → Option ℕ
  | [] => if pat.isEmpty then some 0 else none
  | b :: s => if pat.isPrefixOf (b :: s) then some 0 else (find pat s).map (· + 1)

def contains (s pat : List UInt8) : Bool := (find pat s).isSome

theorem find_add_length_le {pat s : List UInt8} {pos : ℕ} (h : find pat s = some pos) :
    pos + pat.length ≤ s.length := by
  induction s generalizing pos with
  | nil =>
    simp only [find, List.isEmpty_iff, Option.ite_none_right_eq_some, Option.some.injEq] at h
    obtain ⟨rfl, rfl⟩ := h
    simp
  | cons b s ih =>
    rw [find] at h
    split_ifs at h with hp
    · obtain rfl := Option.some.inj h
      simpa using (List.isPrefixOf_iff_prefix.1 hp).length_le
    · obtain ⟨q, hq, rfl⟩ := Option.map_eq_some_iff.1 h
      have := ih hq
      rw [List.length_cons]
      omega

/-- The inner loop of `hasOpenbsdIsoName`: look for `token` from byte `start` on, and resume after
the token while fewer than two digits follow it. -/
def openbsdTokenLoop (token : List UInt8) (nonempty : token ≠ []) (s : List UInt8) (start : ℕ) :
    Bool :=
  match _found : find token (s.drop start) with
  | none => false
  | some pos =>
    let after := start + pos + token.length
    let digits := ((s.drop after).takeWhile isAsciiDigit).length
    if digits ≥ 2 then true else openbsdTokenLoop token nonempty s after
termination_by s.length - start
decreasing_by
  have hpos := find_add_length_le _found
  have htoken := List.length_pos_iff.2 nonempty
  rw [List.length_drop] at hpos
  omega

/-- True if the lowercased `s` contains `install` or `cd` immediately followed by at least two
digits. -/
def hasOpenbsdIsoName (s : List UInt8) : Bool :=
  openbsdTokenLoop (asBytes "install") (by decide) s 0 ||
    openbsdTokenLoop (asBytes "cd") (by decide) s 0

/-- Guess the BSD flavor from an image's filename and/or volume label. -/
def guessBsdFlavor (nameAndLabel : String) : BsdFlavor :=
  let s := toAsciiLowercase (asBytes nameAndLabel)
  if contains s (asBytes "freebsd") then .freeBsd
  else if contains s (asBytes "openbsd") || hasOpenbsdIsoName s then .openBsd
  else if contains s (asBytes "netbsd") then .netBsd
  else if contains s (asBytes "dragonfly") || contains s (asBytes "dfly") then .dragonFly
  else .unknown

/-- The sentence of the warning that names the vendor. -/
def BsdFlavor.named : BsdFlavor → String
  | .unknown => ""
  | .freeBsd => " It looks like a FreeBSD install ISO."
  | .openBsd => " It looks like an OpenBSD install ISO."
  | .netBsd => " It looks like a NetBSD install ISO."
  | .dragonFly => " It looks like a DragonFly BSD install ISO."

/-- The text of the warning for one flavor. -/
def BsdFlavor.message (flavor : BsdFlavor) : String :=
  "This is an ISO-9660 image with no hybrid partition table or EFI boot " ++
    "entry, so writing it raw to USB will most likely produce a non-bootable " ++
    "stick." ++ flavor.named ++ " For USB, use " ++ flavor.usbImageHint ++
    " instead. Write this ISO to USB anyway?"

def bsdWarning (kind : ImageKind) (nameAndLabel : String) : Option BsdWarning :=
  match kind with
  | .iso hybrid _ _ =>
    if hybrid ≠ .opticalOnly then none
    else
      let flavor := guessBsdFlavor nameAndLabel
      some ⟨flavor, flavor.message⟩
  | _ => none

/-! ## The top-level verdict -/

structure Verdict where
  kind : ImageKind
  bsdWarning : Option BsdWarning
  deriving DecidableEq, Repr

/-- True if this image can be raw-written to USB with a reasonable expectation of booting. -/
def Verdict.isDdWritable (v : Verdict) : Bool :=
  match v.kind with
  | .iso hybrid _ _ => hybrid.isDdWritable
  | .diskImage _ | .bareFilesystem _ => true
  | .compressed _ | .wim | .unknown => false

def inspect (head : List UInt8) (nameAndLabel : String) : Verdict :=
  let kind := classify head
  ⟨kind, bsdWarning kind nameAndLabel⟩

end Osedax
