import Osedax.Device.KernelTable
import Osedax.Device.Partitions

/-!
# The lines of the mount table

`/proc/mounts` line by line: the mounts of block devices, as the kernel writes them, and all other
lines.  The lines are texts, since one line that is not UTF-8 empties the table
(`keepsMounts_unlines_iff`).  Which mounts are read, and which of them belong to a disk, is decided
by each line alone (`HasTable.readMounts`, `HasTable.mountsFor`).
-/

namespace Osedax

/-- A line of `/proc/mounts`: a mount of a block device, or any other line. -/
inductive TableLine where
  | block (mount : KernelMount)
  | other (line : String) (oneLine : '\n' ∉ line.toList) (names_none : ¬ NamesBlockDevice line)

def TableLine.bytes : TableLine → List UInt8
  | .block mount => mount.line
  | .other line _ _ => asBytes line

def TableLine.mount : TableLine → Option KernelMount
  | .block mount => some mount
  | .other _ _ _ => none

/-- The line is a mount of the disk or of one of its partitions, by its device node. -/
def TableLine.isOf (disk : String) (line : TableLine) : Bool :=
  line.mount.any fun mount => OwnsNode disk mount.name

/-- The contents of `/proc/mounts`. -/
def mountTable (table : List TableLine) : List UInt8 := unlines (table.map TableLine.bytes)

/-- `/proc/mounts` holds these lines. -/
def HasTable (fs : FileSystem) (table : List TableLine) : Prop :=
  fs.read procMounts = some (mountTable table)

/-- The mount point as it is read: up to the first white space that the kernel does not escape. -/
def KernelMount.seenAt (m : KernelMount) : Path :=
  ⟨Utf8.encode (m.mountPoint.toList.takeWhile isKept)⟩

/-- The only white space in the mount point is what the kernel escapes. -/
def KernelMount.Clean (mount : KernelMount) : Prop := ∀ c ∈ mount.mountPoint.toList, isKept c

/-- All mount points are read as they are. -/
def CleanTable (table : List TableLine) : Prop :=
  ∀ line ∈ table, ∀ mount ∈ line.mount, mount.Clean

theorem seenAt_of_clean {mount : KernelMount} (h : mount.Clean) :
    mount.seenAt = Path.ofString mount.mountPoint := by
  rw [KernelMount.seenAt, List.takeWhile_eq_self_iff.2 h, Path.ofString, asBytes_eq_encode]

/-! ## Reading the lines -/

def TableLine.chars : TableLine → List Char
  | .block mount => mount.lineChars
  | .other line _ _ => line.toList

theorem encode_chars (line : TableLine) : Utf8.encode line.chars = line.bytes := by
  cases line with
  | block m => exact m.encode_lineChars
  | other line _ _ => exact (asBytes_eq_encode line).symm

theorem mountTable_eq_encode (table : List TableLine) :
    mountTable table = Utf8.encode (table.flatMap fun line => line.chars ++ ['\n']) := by
  induction table with
  | nil => rfl
  | cons line table ih =>
    rw [List.flatMap_cons, Utf8.encode_append, ← ih, Utf8.encode_append, encode_chars]
    rfl

/-- A line that names no block device gives no mount. -/
theorem mountsOfText_other {line : String} (honeLine : '\n' ∉ line.toList)
    (hnone : ¬ NamesBlockDevice line) (cs : List Char) :
    mountsOfText (line.toList ++ '\n' :: cs) = mountsOfText cs := by
  have hnewline : isWhitespace '\n' = true := by decide
  have hsplit : splitWhitespace (String.ofList (stripLineEnding (line.toList ++ ['\n']))) =
      splitWhitespace line := by
    simp [splitWhitespace, words_stripLineEnding, Fields.words_concat hnewline]
  have hline : mountOfLine (String.ofList (stripLineEnding (line.toList ++ ['\n']))) = none := by
    rw [mountOfLine_eq_none_iff, NamesBlockDevice, hsplit]
    exact hnone
  unfold mountsOfText lines
  rw [String.toList_ofList, String.toList_ofList,
    Fields.pieces_cons_of_free (Fields.free_beq_iff.2 honeLine) (by decide), List.map_cons,
    List.filterMap_cons_none hline]

/-- Every mount of a block device is read from the table, and nothing else. -/
theorem mountsIn_mountTable (fs : FileSystem) (table : List TableLine) :
    mountsIn fs (mountTable table) =
      (table.filterMap TableLine.mount).map fun m => (m.name, m.seenAt) := by
  rw [mountTable_eq_encode, mountsIn_encode]
  induction table with
  | nil => rfl
  | cons line table ih =>
    rw [List.flatMap_cons, List.append_assoc, List.singleton_append]
    cases line with
    | block m =>
      obtain ⟨rest, hwords⟩ := m.words_lineChars
      rw [TableLine.chars, mountsOfText_cons m.lineChars_free hwords, ih,
        unescapeMount_flatMap_mangleChar]
      rfl
    | other line honeLine hnone =>
      rw [TableLine.chars, mountsOfText_other honeLine hnone, ih]
      rfl

/-! ## The mounts of a disk -/

section

variable {fs : FileSystem} {table : List TableLine}

theorem HasTable.readMounts (h : HasTable fs table) : Osedax.readMounts fs =
    (table.filterMap TableLine.mount).map fun m => (m.name, m.seenAt) := by
  rw [← mountsIn_mountTable fs table]
  unfold mountsIn Osedax.readMounts
  rw [FileSystem.readToString_withFile, FileSystem.readToString, h, Option.bind_some]

/-- The mounts that do not belong to the disk come from the lines that are not of the disk. -/
theorem HasTable.filter_readMounts (h : HasTable fs table) (disk : String) :
    (Osedax.readMounts fs).filter (fun entry => ¬ OwnsNode disk entry.1) =
      ((table.filter fun line => !line.isOf disk).filterMap TableLine.mount).map
        fun m => (m.name, m.seenAt) := by
  rw [h.readMounts, List.filter_map, List.filter_filterMap, List.filterMap_filter]
  congr 1
  refine List.filterMap_congr fun line _ => ?_
  unfold TableLine.isOf
  cases line.mount with
  | none => simp
  | some m => by_cases hown : OwnsNode disk m.name <;> simp [hown]

/-- A disk has the mount points of the lines that name its nodes, in their order. -/
theorem HasTable.mountsFor (h : HasTable fs table) (hclean : CleanTable table) (disk : String) :
    Osedax.mountsFor disk (Osedax.readMounts fs) =
      ((table.filterMap TableLine.mount).filter fun m => OwnsNode disk m.name).map
        fun m => ⟨Path.ofString m.mountPoint⟩ := by
  rw [h.readMounts, mountsFor_eq, List.filter_map, List.map_map]
  refine List.map_congr_left fun m hm => ?_
  obtain ⟨line, hline, hmount⟩ := List.mem_filterMap.1 (List.mem_filter.1 hm).1
  show MountPoint.mk m.seenAt = _
  rw [seenAt_of_clean (hclean line hline m hmount)]

end

end Osedax
