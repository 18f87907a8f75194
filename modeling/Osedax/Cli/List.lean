import Mathlib.Data.List.Sublists
import Osedax.Cli.HumanSize
import Osedax.Device.Sysfs

/-!
# The list command

`list_devices` of `cli/src/main.rs`: a row for each disk with its flags and the mark of a default
target, and below it the mount points.  The columns before the flags hold whatever the disk calls
itself; the flags can be read back from every row (`listDevices_rows`).
-/

namespace Osedax

/-- `{:<width}`. -/
def padRight (width : ℕ) (s : String) : String :=
  s ++ String.ofList (List.replicate (width - s.length) ' ')

/-- `{:>width}`. -/
def padLeft (width : ℕ) (s : String) : String :=
  String.ofList (List.replicate (width - s.length) ' ') ++ s

/-- The flags that are on. -/
def Device.flags (d : Device) : List String :=
  ([(d.isUsb, "usb"), (d.isRemovable, "removable"), (d.isSystem, "system"),
    (d.isReadOnly, "ro")].filter Prod.fst).map Prod.snd

def deviceLine (d : Device) : String :=
  padRight 16 (toStringLossy d.path.bytes) ++ " " ++ padLeft 8 (humanSize d.size) ++ "  " ++
    padRight 24 (d.model.getD "(unknown)") ++ " [" ++ ",".intercalate d.flags ++ "]" ++
      (if d.isSafeDefaultTarget then "  <- default" else "")

def mountLine (m : MountPoint) : String :=
  "                 mounted at " ++ toStringLossy m.path.bytes

variable {ε : Type}

/-- The lines that are printed, or why enumeration failed. -/
def listDevices (os : TargetOs) (sys : System ε) :
    Except (EnumerateError ε) (List String) := do
  let devices ← enumerate os sys
  if devices.isEmpty then .ok ["No disks detected."]
  else .ok (devices.flatMap fun d => deviceLine d :: d.mountpoints.map mountLine)

/-! ## Reading a row -/

/-- The flags between the last `[` of a row and the next `]`, and whether the mark of a default
target follows. -/
def readRow (row : String) : List String × Bool :=
  let column := (row.toList.reverse.takeWhile (· ≠ '[')).reverse
  ((Fields.words (· == ',') (column.takeWhile (· ≠ ']'))).map String.ofList,
    column.dropWhile (· ≠ ']') == "]  <- default".toList)

/-- A row from behind its last `[`. -/
def flagColumn (flags : List String) (isDefault : Bool) : String :=
  ",".intercalate flags ++ "]" ++ (if isDefault then "  <- default" else "")

theorem deviceLine_eq (d : Device) : ∃ front : String,
    deviceLine d = front ++ "[" ++ flagColumn d.flags d.isSafeDefaultTarget := by
  have hbracket : " [" = " " ++ "[" := rfl
  unfold deviceLine flagColumn
  rw [hbracket]
  exact ⟨padRight 16 (toStringLossy d.path.bytes) ++ " " ++ padLeft 8 (humanSize d.size) ++ "  " ++
    padRight 24 (d.model.getD "(unknown)") ++ " ", by simp only [String.append_assoc]⟩

theorem flags_sublist (d : Device) : d.flags.Sublist ["usb", "removable", "system", "ro"] :=
  List.Sublist.map Prod.snd List.filter_sublist

/-- No flag has a bracket or a comma in it. -/
theorem flagColumn_spec : ∀ flags ∈ List.sublists ["usb", "removable", "system", "ro"],
    ∀ isDefault : Bool, (flagColumn flags isDefault).toList.all (· ≠ '[') = true ∧
      (Fields.words (· == ',') ((flagColumn flags isDefault).toList.takeWhile (· ≠ ']'))).map
        String.ofList = flags ∧
      ((flagColumn flags isDefault).toList.dropWhile (· ≠ ']') == "]  <- default".toList) =
        isDefault := by
  decide +kernel

/-- Whatever the other columns hold, the flags and the mark are read back. -/
theorem readRow_deviceLine (d : Device) :
    readRow (deviceLine d) = (d.flags, d.isSafeDefaultTarget) := by
  obtain ⟨front, hline⟩ := deviceLine_eq d
  obtain ⟨hfree, hflags, hmark⟩ :=
    flagColumn_spec d.flags (List.mem_sublists.2 (flags_sublist d)) d.isSafeDefaultTarget
  have hcolumn : ((deviceLine d).toList.reverse.takeWhile (· ≠ '[')).reverse =
      (flagColumn d.flags d.isSafeDefaultTarget).toList := by
    have hbracket : "[".toList = ['['] := by decide
    rw [hline, String.toList_append, String.toList_append, hbracket, List.reverse_append,
      List.reverse_append, List.reverse_singleton, List.singleton_append,
      List.takeWhile_append_of_pos, List.takeWhile_cons_of_neg (by decide), List.append_nil,
      List.reverse_reverse]
    exact fun c hc => List.all_eq_true.1 hfree c (List.mem_reverse.1 hc)
  unfold readRow
  dsimp only
  rw [hcolumn, hflags, hmark]

/-- The command prints a row for each disk, in the order of the list, with the mount points of the
disk below it, and one line where there is no disk; what it says of the disk is read back. -/
theorem listDevices_rows {os : TargetOs} {sys : System ε}
    {devices : List Device} (hok : enumerate os sys = .ok devices) :
    ∃ rows : List (String × List String),
      listDevices os sys = .ok (if rows = [] then ["No disks detected."]
        else rows.flatMap fun row => row.1 :: row.2) ∧
      rows.map (fun row => readRow row.1) =
        devices.map (fun d => (d.flags, d.isSafeDefaultTarget)) ∧
      rows.map Prod.snd = devices.map fun d => d.mountpoints.map mountLine := by
  refine ⟨devices.map fun d => (deviceLine d, d.mountpoints.map mountLine), ?_, ?_, ?_⟩
  · unfold listDevices
    rw [hok]
    cases devices with
    | nil => rfl
    | cons d devices =>
      rw [List.flatMap_map]
      rfl
  · rw [List.map_map]
    exact List.map_congr_left fun d _ => readRow_deviceLine d
  · rw [List.map_map]
    rfl

theorem listDevices_rows_sampleMachine : ∃ rows : List (String × List String),
    listDevices .linux (sampleMachine.system Unit) =
      .ok (if rows = [] then ["No disks detected."] else rows.flatMap fun row => row.1 :: row.2) ∧
    rows.map (fun row => readRow row.1) =
      sampleMachine.listing.map (fun d => (d.flags, d.isSafeDefaultTarget)) ∧
    rows.map Prod.snd = sampleMachine.listing.map fun d => d.mountpoints.map mountLine :=
  listDevices_rows (presents_system sampleMachine Unit).enumerate_eq

end Osedax
