import Osedax.Device.Safety
import Osedax.Support.PrefixTable

/-!
# The image and the disk that holds it

An image is on the disk of the deepest mount point above it.  `isSourceDrive` looks at the mounts
of one device and asks for any mount point above the image but a bare `/`.  Both exceptions show:
a disk that holds the image through a bare `/` is not refused for it
(`refused_iff_not_bareRoot`), and a disk is refused for an image that a mount below its own hides
(`not_sourceOnTarget_iff`).
-/

namespace Osedax

open PrefixTable

variable {δ : Type*} {table : List (δ × Path)} {canonicalize : Path → Option Path}
  {device : Device} {image : Path} {disk : δ}

/-- A mount covers what lies below its mount point. -/
def mountKey (entry : δ × Path) : List Component := entry.2.components

/-- The image lies on the disk of `entry`: no mount point above it is deeper. -/
def HoldsImage (table : List (δ × Path)) (image : Path) (entry : δ × Path) : Prop :=
  IsDeepest mountKey table image.components entry

/-- `fs::canonicalize` leaves the image and the mount points as they are. -/
structure CanonicalPaths (canonicalize : Path → Option Path) (table : List (δ × Path))
    (image : Path) : Prop where
  image : canonicalize image = some image
  mount : ∀ entry ∈ table, canonicalize entry.2 = some entry.2

/-- The device has the mount points of the disk in the table, and no others. -/
def ListsMounts (table : List (δ × Path)) (disk : δ) (device : Device) : Prop :=
  ∀ p : Path, ⟨p⟩ ∈ device.mountpoints ↔ (disk, p) ∈ table

theorem canonicalizeOr_of_eq_some {p : Path} (h : canonicalize p = some p) :
    canonicalizeOr canonicalize p = p := by
  unfold canonicalizeOr
  rw [h, Option.getD_some]

theorem isSourceDrive_iff_exists_mount (hcanon : CanonicalPaths canonicalize table image)
    (hdevice : ListsMounts table disk device) : isSourceDrive canonicalize device image ↔
      ∃ p, (disk, p) ∈ table ∧ ¬ p.beq Path.root ∧ p.components <+: image.components := by
  rw [isSourceDrive_iff, canonicalizeOr_of_eq_some hcanon.image]
  apply Iff.intro
  · intro ⟨⟨p⟩, hmem, hroot, hstarts⟩
    have hp : (disk, p) ∈ table := (hdevice p).1 hmem
    rw [canonicalizeOr_of_eq_some (hcanon.mount _ hp), Path.startsWith_iff] at hstarts
    exact ⟨p, hp, hroot, hstarts⟩
  · intro ⟨p, hp, hroot, hpre⟩
    refine ⟨⟨p⟩, (hdevice p).2 hp, hroot, ?_⟩
    rw [canonicalizeOr_of_eq_some (hcanon.mount _ hp), Path.startsWith_iff]
    exact hpre

/-- With the deepest mount known, only the mounts above it matter. -/
theorem isSourceDrive_iff_of_holdsImage {entry : δ × Path}
    (hcanon : CanonicalPaths canonicalize table image) (hdevice : ListsMounts table disk device)
    (hholds : HoldsImage table image entry) : isSourceDrive canonicalize device image ↔
      ∃ p, (disk, p) ∈ table ∧ ¬ p.beq Path.root ∧ p.components <+: entry.2.components := by
  rw [isSourceDrive_iff_exists_mount hcanon hdevice]
  refine exists_congr fun p => and_congr_right fun hp => and_congr_right fun _ => ?_
  exact hholds.covers_iff hp

/-- The refusals that `force` and the size have no part in. -/
theorem forall_hardRefusal_iff : (∀ size force,
      checkWriteAllowed canonicalize device image size force = .error .readOnly ∨
        checkWriteAllowed canonicalize device image size force = .error .sourceOnTarget) ↔
      device.isReadOnly ∨ isSourceDrive canonicalize device image := by
  simp only [checkWriteAllowed_eq_readOnly_iff, checkWriteAllowed_eq_sourceOnTarget_iff]
  cases device.isReadOnly <;> simp

theorem forall_ne_sourceOnTarget_iff : (∀ size force,
      checkWriteAllowed canonicalize device image size force ≠ .error .sourceOnTarget) ↔
      device.isReadOnly ∨ ¬ isSourceDrive canonicalize device image := by
  simp only [ne_eq, checkWriteAllowed_eq_sourceOnTarget_iff]
  cases device.isReadOnly <;> simp

/-- Above a bare root there is only the bare root. -/
theorem beq_root_of_above {p q : Path} (hp : p.isAbsolute) (hq : q.beq Path.root)
    (hpre : p.components <+: q.components) : p.beq Path.root := by
  rw [Path.beq_root_iff] at hq ⊢
  rw [hq] at hpre
  exact hpre.eq_of_length_le (Path.rootDir_prefix_components hp).length_le

/-- A device that holds the image is refused for good, unless it holds it through a bare `/`. -/
theorem refused_iff_not_bareRoot {p : Path} (habs : ∀ entry ∈ table, entry.2.isAbsolute)
    (hcanon : CanonicalPaths canonicalize table image) (hdevice : ListsMounts table disk device)
    (hholds : HoldsImage table image (disk, p)) : (∀ size force,
      checkWriteAllowed canonicalize device image size force = .error .readOnly ∨
        checkWriteAllowed canonicalize device image size force = .error .sourceOnTarget) ↔
      device.isReadOnly ∨ ¬ p.beq Path.root := by
  rw [forall_hardRefusal_iff, isSourceDrive_iff_of_holdsImage hcanon hdevice hholds]
  refine or_congr_right ?_
  apply Iff.intro
  · intro ⟨q, hq, hroot, hpre⟩ hp
    exact hroot (beq_root_of_above (habs _ hq) hp hpre)
  · intro hp
    exact ⟨p, hholds.mem, hp, List.prefix_rfl⟩

/-- An internal disk, with its mount points. -/
def internalDisk (mountpoints : List MountPoint) : Device where
  path := Path.ofString "/dev/sda"
  model := none
  size := 512110190592
  logicalBlockSize := 512
  physicalBlockSize := 512
  isUsb := false
  isRemovable := false
  isSystem := true
  isReadOnly := false
  mountpoints := mountpoints

/-- A system disk with one partition for everything. -/
def rootTable : List (String × Path) := [("sda", Path.root)]

/-- The disk of a bare `/` holds the image, and `force` lets the write through. -/
theorem rootTable_force_ok :
    (∀ entry ∈ rootTable, entry.2.isAbsolute) ∧
    CanonicalPaths some rootTable (Path.ofString "/home/me/x.iso") ∧
    ListsMounts rootTable "sda" (internalDisk [⟨Path.root⟩]) ∧
    HoldsImage rootTable (Path.ofString "/home/me/x.iso") ("sda", Path.root) ∧
    checkWriteAllowed some (internalDisk [⟨Path.root⟩]) (Path.ofString "/home/me/x.iso") 4096 true =
      .ok () := by
  refine ⟨by decide, ⟨rfl, fun _ _ => rfl⟩, fun p => ?_, ⟨by decide, by decide, by decide⟩, rfl⟩
  simp [internalDisk, rootTable]

/-- A stick mounted below the home directory of another disk. -/
def nestedTable : List (String × Path) :=
  [("sda", Path.ofString "/home"), ("sdb", Path.ofString "/home/me/usb")]

def nestedImage : Path := Path.ofString "/home/me/usb/x.iso"

theorem canonicalPaths_nestedTable : CanonicalPaths some nestedTable nestedImage :=
  ⟨rfl, fun _ _ => rfl⟩

theorem listsMounts_nestedTable :
    ListsMounts nestedTable "sda" (internalDisk [⟨Path.ofString "/home"⟩]) := by
  intro p
  simp [internalDisk, nestedTable]

theorem holdsImage_nestedTable :
    HoldsImage nestedTable nestedImage ("sdb", Path.ofString "/home/me/usb") :=
  ⟨by decide, by decide, by decide⟩

theorem refused_iff_not_bareRoot_nestedTable : (∀ size force,
      checkWriteAllowed some (internalDisk [⟨Path.ofString "/home/me/usb"⟩]) nestedImage size
          force = .error .readOnly ∨
        checkWriteAllowed some (internalDisk [⟨Path.ofString "/home/me/usb"⟩]) nestedImage size
          force = .error .sourceOnTarget) ↔
      false = true ∨ ¬ (Path.ofString "/home/me/usb").beq Path.root :=
  refused_iff_not_bareRoot (by decide) canonicalPaths_nestedTable
    (fun p => by simp [internalDisk, nestedTable]) holdsImage_nestedTable

/-- A device is never refused as the holder of an image that another entry holds, if and only if
it has no mount point above that entry but a bare `/`. -/
theorem not_sourceOnTarget_iff {other : δ} {q : Path} (_ : other ≠ disk)
    (hcanon : CanonicalPaths canonicalize table image) (hdevice : ListsMounts table disk device)
    (hholds : HoldsImage table image (other, q)) : (∀ size force,
      checkWriteAllowed canonicalize device image size force ≠ .error .sourceOnTarget) ↔
      device.isReadOnly ∨
        ∀ p, (disk, p) ∈ table → p.components <+: q.components → p.beq Path.root := by
  rw [forall_ne_sourceOnTarget_iff, isSourceDrive_iff_of_holdsImage hcanon hdevice hholds]
  refine or_congr_right ?_
  push Not
  exact forall₂_congr fun p _ => Iff.intro (fun h hpre => by_contra fun hroot => h hroot hpre)
    fun h hroot hpre => hroot (h hpre)

/-- The stick is mounted below a bare `/`. -/
def rootAndStick : List (String × Path) :=
  [("sda", Path.root), ("sdb", Path.ofString "/home/me/usb")]

/-- The disk of the bare `/` is not taken for the holder of an image on the stick. -/
theorem not_sourceOnTarget_iff_rootAndStick :
    HoldsImage rootAndStick nestedImage ("sdb", Path.ofString "/home/me/usb") ∧
    ∀ size force, checkWriteAllowed some (internalDisk [⟨Path.root⟩]) nestedImage size force ≠
      .error .sourceOnTarget := by
  have hcanon : CanonicalPaths some rootAndStick nestedImage := ⟨rfl, fun _ _ => rfl⟩
  have hdevice : ListsMounts rootAndStick "sda" (internalDisk [⟨Path.root⟩]) := by
    intro p
    simp [internalDisk, rootAndStick]
  have hholds : HoldsImage rootAndStick nestedImage ("sdb", Path.ofString "/home/me/usb") :=
    ⟨by decide, by decide, by decide⟩
  refine ⟨hholds, (not_sourceOnTarget_iff (by decide) hcanon hdevice hholds).2 (Or.inr ?_)⟩
  intro p hp _
  have hroot : p = Path.root := by simpa [rootAndStick] using hp
  rw [hroot]
  decide

/-- The disk of `/home` is refused for the image on the stick, even with `force`. -/
theorem nestedTable_sourceOnTarget :
    CanonicalPaths some nestedTable nestedImage ∧
    ListsMounts nestedTable "sda" (internalDisk [⟨Path.ofString "/home"⟩]) ∧
    HoldsImage nestedTable nestedImage ("sdb", Path.ofString "/home/me/usb") ∧
    checkWriteAllowed some (internalDisk [⟨Path.ofString "/home"⟩]) nestedImage 4096 true =
      .error .sourceOnTarget :=
  ⟨canonicalPaths_nestedTable, listsMounts_nestedTable, holdsImage_nestedTable, rfl⟩

end Osedax
