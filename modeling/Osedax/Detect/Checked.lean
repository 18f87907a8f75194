import Osedax.Detect.Tree

/-!
# The detector with its panics

The functions of `magic.rs` and `tree.rs` that index, slice or cut a string, with these operations
partial as in the source: an index or a range out of bounds and a cut inside a character are
errors.  `slice::get`, which `region` goes through, cannot fail, so the probes that only compare a
region are the ones of `Magic`.
-/

namespace Osedax

/-- How a slice or string operation of the source panics. -/
inductive Panic where
  | indexOutOfBounds
  | sliceOutOfRange
  | notCharBoundary
  deriving DecidableEq, Repr

namespace Checked

/-! ## The partial operations -/

/-- `buf[i]`. -/
def index (buf : List UInt8) (i : ℕ) : Except Panic UInt8 :=
  match buf[i]? with
  | some b => .ok b
  | none => .error .indexOutOfBounds

/-- `&buf[lo..hi]`. -/
def slice (buf : List UInt8) (lo hi : ℕ) : Except Panic (List UInt8) :=
  if lo ≤ hi ∧ hi ≤ buf.length then .ok ((buf.drop lo).take (hi - lo))
  else .error .sliceOutOfRange

/-- `str::is_char_boundary`: not in front of a continuation byte. -/
def isCharBoundary (s : List UInt8) (i : ℕ) : Bool :=
  match s[i]? with
  | some b => i == 0 || !(0x80 ≤ b && b ≤ 0xBF)
  | none => i == s.length

/-- `&s[i..]`. -/
def strFrom (s : List UInt8) (i : ℕ) : Except Panic (List UInt8) :=
  if isCharBoundary s i then .ok (s.drop i) else .error .notCharBoundary

/-! ## magic.rs -/

def startsWith (buf pre : List UInt8) : Except Panic Bool :=
  if buf.length ≥ pre.length then do
    let head ← slice buf 0 pre.length
    return head == pre
  else return false

def detectCompression (head : List UInt8) : Except Panic (Option Magic.Compression) := do
  if ← startsWith head ([0xFD] ++ asBytes "7zXZ" ++ [0x00]) then return some .xz
  if ← startsWith head [0x28, 0xB5, 0x2F, 0xFD] then return some .zstd
  if ← startsWith head [0x37, 0x7A, 0xBC, 0xAF, 0x27, 0x1C] then return some .sevenZip
  if ← startsWith head [0x04, 0x22, 0x4D, 0x18] then return some .lz4
  if ← startsWith head [0x1F, 0x8B] then return some .gzip
  if (← startsWith head (asBytes "BZh")) && head[3]?.any fun b => 0x31 ≤ b && b ≤ 0x39 then
    return some .bzip2
  return none

def elTorito (buf : List UInt8) : Except Panic (Option Magic.ElTorito) :=
  match Magic.region buf Magic.elToritoBrvdOffset 75 with
  | none => return none
  | some brvd => do
    if (← index brvd 0) ≠ 0x00 then return none
    if (← slice brvd 1 6) ≠ Magic.iso9660Magic then return none
    if !Magic.elToritoId.isPrefixOf (← slice brvd 7 39) then return none
    return some ⟨u32FromLeBytes (← index brvd 71) (← index brvd 72) (← index brvd 73)
      (← index brvd 74)⟩

def mbrEntry (e : List UInt8) : Except Panic Magic.MbrPartition := do
  return {
    status := ← index e 0
    partType := ← index e 4
    startLba := u32FromLeBytes (← index e 8) (← index e 9) (← index e 10) (← index e 11)
    sectors := u32FromLeBytes (← index e 12) (← index e 13) (← index e 14) (← index e 15) }

def mbrPartitions (buf : List UInt8) : Except Panic (Option (Vector Magic.MbrPartition 4)) :=
  match Magic.region buf Magic.mbrPartitionTableOffset 64 with
  | none => return none
  | some table => do
    let entries ← Vector.ofFnM fun i : Fin 4 => do
      let e ← slice table (i * 16) (i * 16 + 16)
      mbrEntry e
    return some entries

def hasMbrPartitionTable (buf : List UInt8) : Except Panic Bool :=
  if !Magic.mbrSignature buf then return false
  else return (← mbrPartitions buf).any fun p => p.any fun e => e.isUsed

def isFatOrNtfsBootsector (buf : List UInt8) : Except Panic Bool :=
  match Magic.region buf 0 3 with
  | none => return false
  | some head => do
    let jump ← (return (← index head 0) == 0xEB) <&&> (return (← index head 2) == 0x90) <||>
      (return (← index head 0) == 0xE9)
    return jump && Magic.mbrSignature buf

def isNtfsBootsector (buf : List UInt8) : Except Panic Bool :=
  return (← isFatOrNtfsBootsector buf) && Magic.region buf 3 8 == some (asBytes "NTFS    ")

/-! ## tree.rs -/

def classifyHybrid (head : List UInt8) : Except Panic IsoHybrid := do
  let parts := (← mbrPartitions head).filter fun _ => Magic.mbrSignature head
  let bios := parts.any fun p => p.any fun e => e.isUsed && !e.isGptProtective && !e.isEsp
  let mbrEfiMarker := parts.any fun p => p.any fun e => e.isGptProtective || e.isEsp
  let gpt := Magic.hasGpt head || mbrEfiMarker
  return match bios, gpt with
    | true, true => .biosAndUefiHybrid
    | false, true => .uefiHybrid
    | true, false => .biosHybrid
    | false, false => .opticalOnly

def classify (head : List UInt8) : Except Panic ImageKind := do
  if let some c ← detectCompression head then return .compressed c
  let iso := Magic.hasIso9660 head
  let udf := Magic.hasUdf head
  if iso || udf then
    return .iso (← classifyHybrid head) udf (← elTorito head).isSome
  if Magic.isWim head then return .wim
  if Magic.hasGpt head then return .diskImage true
  if ← hasMbrPartitionTable head then return .diskImage false
  if ← isNtfsBootsector head then return .bareFilesystem .ntfs
  if ← isFatOrNtfsBootsector head then return .bareFilesystem .fat
  if Magic.isExt head then return .bareFilesystem .ext
  return .unknown

/-- The inner loop of `hasOpenbsdIsoName`. -/
def openbsdTokenLoop (token : List UInt8) (nonempty : token ≠ []) (s : List UInt8) (start : ℕ) :
    Except Panic Bool :=
  match _rest : strFrom s start with
  | .error e => .error e
  | .ok rest =>
    match _found : find token rest with
    | none => return false
    | some pos =>
      let after := start + pos + token.length
      match strFrom s after with
      | .error e => .error e
      | .ok tail =>
        let digits := (tail.takeWhile isAsciiDigit).length
        if digits ≥ 2 then return true else openbsdTokenLoop token nonempty s after
termination_by s.length - start
decreasing_by
  have hrest : s.drop start = rest := by
    unfold strFrom at _rest
    split_ifs at _rest
    exact Except.ok.inj _rest
  have hpos := find_add_length_le _found
  have htoken := List.length_pos_iff.2 nonempty
  rw [← hrest, List.length_drop] at hpos
  omega

theorem install_ne_nil : asBytes "install" ≠ [] := by decide

theorem cd_ne_nil : asBytes "cd" ≠ [] := by decide

def hasOpenbsdIsoName (s : List UInt8) : Except Panic Bool :=
  openbsdTokenLoop (asBytes "install") install_ne_nil s 0 <||>
    openbsdTokenLoop (asBytes "cd") cd_ne_nil s 0

def guessBsdFlavor (nameAndLabel : String) : Except Panic BsdFlavor := do
  let s := toAsciiLowercase (asBytes nameAndLabel)
  if contains s (asBytes "freebsd") then return .freeBsd
  else if ← (return contains s (asBytes "openbsd")) <||> hasOpenbsdIsoName s then return .openBsd
  else if contains s (asBytes "netbsd") then return .netBsd
  else if contains s (asBytes "dragonfly") || contains s (asBytes "dfly") then return .dragonFly
  else return .unknown

def bsdWarning (kind : ImageKind) (nameAndLabel : String) : Except Panic (Option BsdWarning) :=
  match kind with
  | .iso hybrid _ _ => do
    if hybrid ≠ .opticalOnly then return none
    let flavor ← guessBsdFlavor nameAndLabel
    return some ⟨flavor, flavor.message⟩
  | _ => return none

def inspect (head : List UInt8) (nameAndLabel : String) : Except Panic Verdict := do
  let kind ← classify head
  return ⟨kind, ← bsdWarning kind nameAndLabel⟩

end Checked

end Osedax
