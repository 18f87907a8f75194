import Osedax.Rust.Text
import Osedax.Support.Window

/-!
# Byte-signature probes

The probes of `core/src/detect/magic.rs`.  A buffer is the list of its bytes; offsets and lengths
are naturals.  `region` is the only way a probe reaches into the buffer, apart from the checked
prefix comparison `startsWith`.
-/

namespace Osedax

/-- `u32::from_le_bytes`. -/
def u32FromLeBytes (b₀ b₁ b₂ b₃ : UInt8) : UInt32 :=
  UInt32.ofNat (b₀.toNat + 2 ^ 8 * b₁.toNat + 2 ^ 16 * b₂.toNat + 2 ^ 24 * b₃.toNat)

namespace Magic

/-! ## Offsets and magic values -/

def iso9660MagicOffset : ℕ := 32769
def vrsStart : ℕ := 32768
def isoSector : ℕ := 2048
def elToritoBrvdOffset : ℕ := 34816
def mbrSigOffset : ℕ := 510
def mbrPartitionTableOffset : ℕ := 446
def gptHeaderOffset512 : ℕ := 512
def gptHeaderOffset4K : ℕ := 4096
def extMagicOffset : ℕ := 1080

def iso9660Magic : List UInt8 := asBytes "CD001"
def udfNsr02 : List UInt8 := asBytes "NSR02"
def udfNsr03 : List UInt8 := asBytes "NSR03"
def udfTea01 : List UInt8 := asBytes "TEA01"
def elToritoId : List UInt8 := asBytes "EL TORITO SPECIFICATION"
def gptMagic : List UInt8 := asBytes "EFI PART"
def wimMagic : List UInt8 := asBytes "MSWIM" ++ [0, 0, 0]
def wimPipableMagic : List UInt8 := asBytes "WLPWM" ++ [0, 0, 0]

/-! ## Helpers -/

/-- Borrow `len` bytes at `offset`, or `none` if out of range. -/
def region (buf : List UInt8) (offset len : ℕ) : Option (List UInt8) :=
  Window.slice buf offset len

def startsWith (buf pre : List UInt8) : Bool :=
  decide (buf.length ≥ pre.length) && buf.take pre.length == pre

/-- `buf[lo..hi]`, for bounds that the caller knows to be in range. -/
def subslice (buf : List UInt8) (lo hi : ℕ) : List UInt8 := (buf.drop lo).take (hi - lo)

/-! ## Compression wrappers -/

inductive Compression where
  | gzip
  | xz
  | zstd
  | bzip2
  | lz4
  | sevenZip
  deriving DecidableEq, Repr

def detectCompression (head : List UInt8) : Option Compression :=
  if startsWith head ([0xFD] ++ asBytes "7zXZ" ++ [0x00]) then some .xz
  else if startsWith head [0x28, 0xB5, 0x2F, 0xFD] then some .zstd
  else if startsWith head [0x37, 0x7A, 0xBC, 0xAF, 0x27, 0x1C] then some .sevenZip
  else if startsWith head [0x04, 0x22, 0x4D, 0x18] then some .lz4
  else if startsWith head [0x1F, 0x8B] then some .gzip
  else if startsWith head (asBytes "BZh") && head[3]?.any fun b => 0x31 ≤ b && b ≤ 0x39 then
    some .bzip2
  else none

/-! ## ISO 9660 and UDF -/

def hasIso9660 (buf : List UInt8) : Bool :=
  region buf iso9660MagicOffset 5 == some iso9660Magic

/-- The loop of `hasUdf` over the descriptor numbers still to visit. -/
def hasUdfLoop (buf : List UInt8) : List ℕ → Bool
  | [] => false
  | k :: ks =>
    let off := vrsStart + k * isoSector
    match region buf (off + 1) 5 with
    | none => false
    | some id => if id == udfNsr02 || id == udfNsr03 then true else hasUdfLoop buf ks

/-- Scan the Volume Recognition Sequence for a UDF NSR descriptor. -/
def hasUdf (buf : List UInt8) : Bool := hasUdfLoop buf (List.range 16)

/-! ## El Torito -/

structure ElTorito where
  catalogLba : UInt32
  deriving DecidableEq, Repr

/-- Detect the El Torito Boot Record Volume Descriptor at LBA 17. -/
def elTorito (buf : List UInt8) : Option ElTorito :=
  match region buf elToritoBrvdOffset 75 with
  | none => none
  | some brvd =>
    if brvd.getD 0 0 ≠ 0x00 then none
    else if subslice brvd 1 6 ≠ iso9660Magic then none
    else if !elToritoId.isPrefixOf (subslice brvd 7 39) then none
    else
      some ⟨u32FromLeBytes (brvd.getD 71 0) (brvd.getD 72 0) (brvd.getD 73 0) (brvd.getD 74 0)⟩

/-! ## MBR -/

/-- A single MBR partition-table entry (16 bytes at 446 + i*16). -/
structure MbrPartition where
  status : UInt8
  partType : UInt8
  startLba : UInt32
  sectors : UInt32
  deriving DecidableEq, Repr

/-- A non-empty entry points somewhere and has a type. -/
def MbrPartition.isUsed (e : MbrPartition) : Bool :=
  e.partType != 0 && (e.startLba != 0 || e.sectors != 0)

/-- 0xEE: the protective partition that signals a GPT disk. -/
def MbrPartition.isGptProtective (e : MbrPartition) : Bool := e.partType == 0xEE

/-- 0xEF: an EFI System Partition marker in the MBR. -/
def MbrPartition.isEsp (e : MbrPartition) : Bool := e.partType == 0xEF

def mbrSignature (buf : List UInt8) : Bool := region buf mbrSigOffset 2 == some [0x55, 0xAA]

/-- The entry read from its 16-byte slot. -/
def mbrEntry (e : List UInt8) : MbrPartition where
  status := e.getD 0 0
  partType := e.getD 4 0
  startLba := u32FromLeBytes (e.getD 8 0) (e.getD 9 0) (e.getD 10 0) (e.getD 11 0)
  sectors := u32FromLeBytes (e.getD 12 0) (e.getD 13 0) (e.getD 14 0) (e.getD 15 0)

/-- Parse the four MBR partition-table entries, or `none` if the buffer is too short. -/
def mbrPartitions (buf : List UInt8) : Option (Vector MbrPartition 4) :=
  (region buf mbrPartitionTableOffset 64).map fun table =>
    Vector.ofFn fun i : Fin 4 => mbrEntry (subslice table (i * 16) (i * 16 + 16))

/-- True if there is a valid MBR (0x55AA) with at least one used partition entry. -/
def hasMbrPartitionTable (buf : List UInt8) : Bool :=
  if !mbrSignature buf then false
  else (mbrPartitions buf).any fun p => p.any fun e => e.isUsed

/-! ## GPT -/

/-- True if a GPT header ("EFI PART") is present at either common location. -/
def hasGpt (buf : List UInt8) : Bool :=
  region buf gptHeaderOffset512 8 == some gptMagic ||
    region buf gptHeaderOffset4K 8 == some gptMagic

/-! ## Bare filesystems -/

inductive FilesystemHint where
  | fat
  | ntfs
  | ext
  deriving DecidableEq, Repr

def isFatOrNtfsBootsector (buf : List UInt8) : Bool :=
  match region buf 0 3 with
  | none => false
  | some head =>
    let jump := (head.getD 0 0 == 0xEB && head.getD 2 0 == 0x90) || head.getD 0 0 == 0xE9
    jump && mbrSignature buf

def isNtfsBootsector (buf : List UInt8) : Bool :=
  isFatOrNtfsBootsector buf && region buf 3 8 == some (asBytes "NTFS    ")

def isExt (buf : List UInt8) : Bool := region buf extMagicOffset 2 == some [0x53, 0xEF]

/-! ## WIM -/

def isWim (buf : List UInt8) : Bool :=
  match region buf 0 8 with
  | none => false
  | some head => head == wimMagic || head == wimPipableMagic

end Magic

end Osedax
