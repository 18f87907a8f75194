import Osedax.Device.Linux
import Osedax.Device.Partitions

/-!
# The disk of the root file system

`isSourceDrive` leaves a bare `/` to the `isSystem` check, and `isSystem` is computed from the
`removable` attribute and the device link alone.  So the disk that carries `/` is protected when
it is fixed or write-protected, and only then: `rootDisk_protected_iff`.
-/

namespace Osedax

/-- The disk or one of its partitions is mounted at `/`. -/
def MountedAtRoot (name : String) (mounts : List (String × Path)) : Prop :=
  ∃ entry ∈ mounts, OwnsNode name entry.1 ∧ entry.2.beq Path.root

/-- Whatever is written, the guard refuses the device of the disk without `force`, and the device
is no default target. -/
def RootDiskProtected (fs : FileSystem) (name : String) (mounts : List (String × Path)) : Prop :=
  ∀ device, buildDevice fs name mounts = some device →
    (∀ canonicalize image size,
      checkWriteAllowed canonicalize device image size false ≠ .ok ()) ∧
    device.isSafeDefaultTarget = false

variable {fs : FileSystem} {name : String} {mounts : List (String × Path)} {device : Device}

/-- Sends a bare `/` to itself and every other path elsewhere. -/
def apartFromRoot (p : Path) : Option Path :=
  if p.beq Path.root then some Path.root else some (Path.ofString "/x")

theorem not_isSourceDrive_apartFromRoot (device : Device) :
    isSourceDrive apartFromRoot device Path.root = false := by
  rw [← Bool.not_eq_true, isSourceDrive_iff]
  rintro ⟨mp, -, hroot, hstarts⟩
  unfold canonicalizeOr apartFromRoot at hstarts
  rw [if_neg hroot, if_pos (by decide), Option.getD_some, Option.getD_some] at hstarts
  exact absurd hstarts (by decide)

/-- A device that is neither a system disk nor write-protected can be written to. -/
theorem exists_checkWriteAllowed_ok (hro : device.isReadOnly = false)
    (hsystem : device.isSystem = false) :
    ∃ canonicalize image size, checkWriteAllowed canonicalize device image size false = .ok () := by
  -- the image goes to `/`, and every mount that the guard looks at elsewhere
  refine ⟨apartFromRoot, Path.root, 0, checkWriteAllowed_eq_ok_iff.2 ⟨hro, ?_, ?_, ?_⟩⟩
  · exact not_isSourceDrive_apartFromRoot device
  · exact UInt64.zero_le
  · intro h
    rw [hsystem] at h
    exact h

/-- The flags that refuse every write without `force`. -/
theorem forall_checkWriteAllowed_ne_ok_iff : (∀ canonicalize image size,
      checkWriteAllowed canonicalize device image size false ≠ .ok ()) ↔
      device.isReadOnly = true ∨ device.isSystem = true := by
  apply Iff.intro
  · intro h
    by_contra hno
    rw [not_or, Bool.not_eq_true, Bool.not_eq_true] at hno
    obtain ⟨canonicalize, image, size, hok⟩ := exists_checkWriteAllowed_ok hno.1 hno.2
    exact h canonicalize image size hok
  · intro h canonicalize image size hok
    obtain ⟨hro, -, -, hforce⟩ := checkWriteAllowed_eq_ok_iff.1 hok
    cases h with
    | inl h => exact Bool.false_ne_true (hro.symm.trans h)
    | inr h => exact Bool.false_ne_true (hforce h)

/-- The same flags keep the device from being a default target. -/
theorem isSafeDefaultTarget_eq_false (h : device.isReadOnly = true ∨ device.isSystem = true) :
    device.isSafeDefaultTarget = false := by
  unfold Device.isSafeDefaultTarget
  cases h with
  | inl h => rw [h, Bool.not_true, Bool.and_false]
  | inr h => rw [h, Bool.not_true, Bool.and_false, Bool.false_and]

theorem BuiltFrom.isSystem_iff (h : BuiltFrom fs name mounts device) :
    device.isSystem = true ↔ readFlag fs (sysBase name) "removable" = false ∧
      fs.pathExists (Path.ofString (sysBase name ++ "/device")) = true := by
  rw [h.isSystem, detectVirtual, Bool.not_not, Bool.and_eq_true, Bool.not_eq_true']

/-- The disk that carries `/` is protected exactly if its size cannot be read, it is read-only, or
it is fixed and has a device link. -/
theorem rootDisk_protected_iff (_ : MountedAtRoot name mounts) :
    RootDiskProtected fs name mounts ↔
      readNumber 64 fs (sysBase name) "size" = none ∨
      readFlag fs (sysBase name) "ro" = true ∨
      readFlag fs (sysBase name) "removable" = false ∧
        fs.pathExists (Path.ofString (sysBase name ++ "/device")) = true := by
  rw [← buildDevice_eq_none_iff mounts]
  cases hbuild : buildDevice fs name mounts with
  | none => exact iff_of_true (fun device h => by rw [hbuild] at h; contradiction) (Or.inl rfl)
  | some device =>
    have hb : BuiltFrom fs name mounts device := builtFrom_of_buildDevice hbuild
    rw [or_iff_right (Option.some_ne_none device), ← hb.isReadOnly, ← hb.isSystem_iff]
    apply Iff.intro
    · intro hprot
      exact forall_checkWriteAllowed_ne_ok_iff.1 (hprot device hbuild).1
    · intro h built hbuilt
      obtain rfl : device = built := Option.some.inj (hbuild.symm.trans hbuilt)
      exact ⟨forall_checkWriteAllowed_ne_ok_iff.2 h, isSafeDefaultTarget_eq_false h⟩

/-- An installed system on a fixed disk. -/
def installedSystem : FileSystem where
  read p :=
    if p = Path.ofString "/sys/class/block/sda/size" then some (asBytes "1000215216\n")
    else if p = Path.ofString "/sys/class/block/sda/removable" then some (asBytes "0\n")
    else none
  canonicalize p := some p
  pathExists p := p = Path.ofString "/sys/class/block/sda/device"

theorem rootDisk_protected_iff_installedSystem :
    (buildDevice installedSystem "sda" [("sda2", Path.root)]).isSome ∧
      RootDiskProtected installedSystem "sda" [("sda2", Path.root)] := by
  have hroot : MountedAtRoot "sda" [("sda2", Path.root)] :=
    ⟨("sda2", Path.root), by decide, by decide, by decide⟩
  refine ⟨by decide +kernel, (rootDisk_protected_iff hroot).2 (Or.inr (Or.inr ⟨?_, ?_⟩))⟩
  · decide +kernel
  · decide

/-- A live system that was booted from a USB stick, the second disk. -/
def liveUsb : FileSystem where
  read p :=
    if p = Path.ofString "/sys/class/block/sdb/size" then some (asBytes "31266816\n")
    else if p = Path.ofString "/sys/class/block/sdb/removable" then some (asBytes "1\n")
    else if p = Path.ofString "/sys/class/block/sdb/ro" then some (asBytes "0\n")
    else none
  canonicalize p :=
    if p = Path.ofString "/sys/class/block/sdb/device" then
      some (Path.ofString "/sys/devices/pci0000:00/0000:00:14.0/usb1/1-1/1-1:1.0/host0")
    else some p
  pathExists p := p = Path.ofString "/sys/class/block/sdb/device"

def liveMounts : List (String × Path) := [("sdb1", Path.root)]

def liveStick : Device where
  path := Path.ofString "/dev/sdb"
  model := none
  size := 16008609792
  logicalBlockSize := 512
  physicalBlockSize := 512
  isUsb := true
  isRemovable := true
  isSystem := false
  isReadOnly := false
  mountpoints := [⟨Path.root⟩]

theorem mountedAtRoot_liveMounts : MountedAtRoot "sdb" liveMounts :=
  ⟨("sdb1", Path.root), by decide, by decide, by decide⟩

theorem buildDevice_liveUsb : buildDevice liveUsb "sdb" liveMounts = some liveStick := by
  decide +kernel

/-- The stick with the running system is a default target, and the guard lets an image be written
over it without `force`. -/
theorem liveUsb_not_protected : MountedAtRoot "sdb" liveMounts ∧
    checkWriteAllowed liveUsb.canonicalize liveStick (Path.ofString "/home/me/x.iso") 4096 false =
      .ok () ∧
    liveStick.isSafeDefaultTarget = true ∧ ¬ RootDiskProtected liveUsb "sdb" liveMounts := by
  refine ⟨mountedAtRoot_liveMounts, ?_, rfl, fun hprot => ?_⟩
  · rfl
  · have hsafe := (hprot liveStick buildDevice_liveUsb).2
    exact absurd hsafe (by decide)

end Osedax
