import Osedax.Device.Safety
import Osedax.Support.Escape

/-!
# The mount table

The part of `core/src/device/enumerate/linux.rs` that reads `/proc/mounts`: `readMounts`, the
decoder of its mount-point field, and the attribution of mounts to whole disks.  A mount is the
name of its block device under `/dev/` with the mount point.
-/

namespace Osedax

/-! ## Escaped fields -/

/-- The backslash. -/
def backslash : UInt8 := 0x5C

/-- Exactly three octal ASCII digits as a byte. -/
def parseOctalByte (triple : List UInt8) : Option UInt8 :=
  if triple.length ≠ 3 then none
  else do
    let val ← triple.foldlM (fun (val : UInt16) b =>
      if 0x30 ≤ b && b ≤ 0x37 then some (val * 8 + (b - 0x30).toUInt16) else none) 0
    if val ≤ 0xFF then some val.toUInt8 else none

/-- The let-chain of the loop: the byte that an escape at index `i` stands for. -/
def escapedByte (bytes : List UInt8) (i : ℕ) : Option UInt8 :=
  if bytes[i]? = some backslash ∧ i + 3 < bytes.length then
    parseOctalByte ((bytes.drop (i + 1)).take 3)
  else none

/-- The loop of `unescapeMount`, at index `i` with the bytes `out` written so far. -/
def unescapeLoop (bytes : List UInt8) (i : ℕ) (out : List UInt8) : List UInt8 :=
  if h : i < bytes.length then
    match escapedByte bytes i with
    | some code => unescapeLoop bytes (i + 4) (out ++ [code])
    | none => unescapeLoop bytes (i + 1) (out ++ [bytes[i]])
  else out
termination_by bytes.length - i

/-- Decode a field of `/proc/mounts` into a path. -/
def unescapeMount (s : String) : Path :=
  let bytes := asBytes s
  if !bytes.contains backslash then Path.ofString s else ⟨unescapeLoop bytes 0 []⟩

/-! ## Reading the table -/

def procMounts : Path := Path.ofString "/proc/mounts"

/-- The mount of one line: its first two columns, when the first is under `/dev/`. -/
def mountOfLine (line : String) : Option (String × Path) :=
  match splitWhitespace line with
  | dev :: mnt :: _ => do
    let dev ← stripPrefix dev "/dev/"
    some (dev, unescapeMount mnt)
  | _ => none

/-- The mounts of `/proc/mounts`, none where it cannot be read. -/
def readMounts (fs : FileSystem) : List (String × Path) :=
  match fs.readToString procMounts with
  | none => []
  | some content => (lines content).filterMap mountOfLine

/-! ## Partitions and their disks -/

def endsWithDigit (s : String) : Bool := s.toList.getLast?.any Char.isDigit

/-- Non-empty and all ASCII digits, as the source tests the end of a partition name. -/
def isPartitionNumber (s : String) : Bool := !s.isEmpty && (asBytes s).all isAsciiDigit

/-- Whether `part` names a partition of the whole disk `disk`. -/
def isPartitionOf (disk part : String) : Bool :=
  (stripPrefix part disk).any fun rest =>
    if endsWithDigit disk then (stripPrefix rest "p").any isPartitionNumber
    else isPartitionNumber rest

/-- The mount points of a disk and of its partitions. -/
def mountsFor (name : String) (mounts : List (String × Path)) : List MountPoint :=
  (mounts.filter fun (dev, _) => dev == name || isPartitionOf name dev).map
    fun (_, path) => ⟨path⟩

/-! ## The decoder is an escape code -/

/-- The three octal digits of a byte. -/
def octal (b : UInt8) : List UInt8 := [0x30 + b / 64, 0x30 + b / 8 % 8, 0x30 + b % 8]

/-- The escapes of `/proc/mounts`: space, tab, newline and backslash. -/
def mountEscape : Escape UInt8 where
  esc := backslash
  width := 3
  code b := if b = 0x20 ∨ b = 0x09 ∨ b = 0x0A ∨ b = backslash then some (octal b) else none
  parse := parseOctalByte
  length_code := by
    intro b w h
    obtain ⟨-, h⟩ := Option.ite_none_right_eq_some.1 h
    exact congrArg List.length (Option.some.inj h).symm
  parse_code := by
    intro b w h
    obtain ⟨hb, h⟩ := Option.ite_none_right_eq_some.1 h
    obtain rfl := Option.some.inj h
    rcases hb with rfl | rfl | rfl | rfl <;> decide
  code_esc := by decide

theorem escapedByte_eq {bytes : List UInt8} {i : ℕ} (h : i < bytes.length) :
    escapedByte bytes i = mountEscape.escapeAt bytes[i] (bytes.drop (i + 1)) := by
  unfold escapedByte
  rw [Escape.escapeAt, List.getElem?_eq_getElem h, List.length_drop]
  refine if_congr (and_congr Option.some_inj ?_) rfl rfl
  show i + 3 < bytes.length ↔ 3 ≤ bytes.length - (i + 1)
  omega

theorem unescapeLoop_eq (bytes : List UInt8) (i : ℕ) (out : List UInt8) :
    unescapeLoop bytes i out = out ++ mountEscape.decode (bytes.drop i) := by
  -- along the loop: `out` is what is decoded so far, `bytes.drop i` what is left
  induction i, out using unescapeLoop.induct bytes with
  | case1 i out h code hcode ih =>
    rw [escapedByte_eq h] at hcode
    unfold unescapeLoop
    rw [dif_pos h, escapedByte_eq h, hcode, List.drop_eq_getElem_cons h,
      mountEscape.decode_cons_of_escape hcode]
    show unescapeLoop bytes (i + 4) (out ++ [code]) = _
    rw [ih, List.drop_drop, List.append_assoc]
    rfl
  | case2 i out h hcode ih =>
    rw [escapedByte_eq h] at hcode
    unfold unescapeLoop
    rw [dif_pos h, escapedByte_eq h, hcode, List.drop_eq_getElem_cons h,
      mountEscape.decode_cons_of_plain hcode]
    show unescapeLoop bytes (i + 1) (out ++ [bytes[i]]) = _
    rw [ih, List.append_assoc]
    rfl
  | case3 i out h =>
    unfold unescapeLoop
    rw [dif_neg h, List.drop_eq_nil_of_le (Nat.le_of_not_lt h),
      mountEscape.decode_nil, List.append_nil]

theorem unescapeMount_eq (s : String) : unescapeMount s = ⟨mountEscape.decode (asBytes s)⟩ := by
  unfold unescapeMount
  by_cases h : backslash ∈ asBytes s
  · have hcontains : (asBytes s).contains backslash = true := List.contains_iff_mem.2 h
    rw [if_neg (by rw [hcontains]; decide), unescapeLoop_eq]
    rfl
  · have hcontains : (asBytes s).contains backslash = false := by
      rw [← Bool.not_eq_true, List.contains_iff_mem]
      exact h
    rw [if_pos (by rw [hcontains]; rfl), mountEscape.decode_of_esc_notMem h]
    rfl

end Osedax
