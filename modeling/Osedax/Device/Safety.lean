import Osedax.Rust.Path

/-!
# The write-safety guard

The device model of `core/src/device/mod.rs` and the guard of `core/src/device/safety.rs`.
`fs::canonicalize` is a parameter, a partial function on paths; where it fails the guard goes on
with the path as given.
-/

namespace Osedax

/-- A mount point of a device or one of its partitions. -/
structure MountPoint where
  path : Path
  deriving DecidableEq

/-- A whole disk, as the enumeration layer sees it. -/
structure Device where
  path : Path
  model : Option String
  size : UInt64
  logicalBlockSize : UInt32
  physicalBlockSize : UInt32
  isUsb : Bool
  isRemovable : Bool
  isSystem : Bool
  isReadOnly : Bool
  mountpoints : List MountPoint
  deriving DecidableEq

/-- A removable USB disk that is neither the system disk nor write-protected. -/
def Device.isSafeDefaultTarget (device : Device) : Bool :=
  device.isUsb && device.isRemovable && !device.isSystem && !device.isReadOnly

/-- Why a write was refused. -/
inductive WriteRefusal where
  | readOnly
  | sourceOnTarget
  | tooSmall (need «have» : UInt64)
  | systemDrive
  deriving DecidableEq

/-- `fs::canonicalize(p).unwrap_or_else(|_| p)`. -/
def canonicalizeOr (canonicalize : Path → Option Path) (p : Path) : Path :=
  (canonicalize p).getD p

/-- Whether the image lies under a mount point of the device other than a bare `/`. -/
def isSourceDrive (canonicalize : Path → Option Path) (device : Device) (imagePath : Path) : Bool :=
  let image := canonicalizeOr canonicalize imagePath
  device.mountpoints.any fun mp =>
    if mp.path.beq Path.root then false
    else
      let mount := canonicalizeOr canonicalize mp.path
      image.startsWith mount

def checkWriteAllowed (canonicalize : Path → Option Path) (device : Device) (imagePath : Path)
    (imageSize : UInt64) (force : Bool) : Except WriteRefusal Unit :=
  if device.isReadOnly then .error .readOnly
  else if isSourceDrive canonicalize device imagePath then .error .sourceOnTarget
  else if device.size < imageSize then .error (.tooSmall imageSize device.size)
  else if device.isSystem && !force then .error .systemDrive
  else .ok ()

/-! ## What the guard decides -/

section

variable {canonicalize : Path → Option Path} {device : Device} {image : Path} {size : UInt64}
  {force : Bool}

theorem isSourceDrive_iff : isSourceDrive canonicalize device image ↔
    ∃ mp ∈ device.mountpoints, ¬ mp.path.beq Path.root ∧
      (canonicalizeOr canonicalize image).startsWith (canonicalizeOr canonicalize mp.path) := by
  unfold isSourceDrive
  rw [List.any_eq_true]
  refine exists_congr fun mp => and_congr_right fun _ => ?_
  by_cases hroot : mp.path.beq Path.root
  · simp [hroot]
  · simp [hroot]

theorem checkWriteAllowed_eq_ok_iff :
    checkWriteAllowed canonicalize device image size force = .ok () ↔
      device.isReadOnly = false ∧ isSourceDrive canonicalize device image = false ∧
        size ≤ device.size ∧ (device.isSystem = true → force = true) := by
  unfold checkWriteAllowed
  rw [← UInt64.not_lt]
  by_cases hro : device.isReadOnly
  · simp [hro]
  by_cases hsource : isSourceDrive canonicalize device image
  · simp [hro, hsource]
  by_cases hsize : device.size < size
  · simp [hro, hsource, hsize]
  cases hsystem : device.isSystem <;> cases force <;> simp [hro, hsource, hsize]

theorem checkWriteAllowed_eq_readOnly_iff :
    checkWriteAllowed canonicalize device image size force = .error .readOnly ↔
      device.isReadOnly = true := by
  unfold checkWriteAllowed
  by_cases hro : device.isReadOnly
  · simp [hro]
  · rw [if_neg hro]
    refine iff_of_false ?_ hro
    split_ifs <;> exact nofun

theorem checkWriteAllowed_eq_sourceOnTarget_iff :
    checkWriteAllowed canonicalize device image size force = .error .sourceOnTarget ↔
      device.isReadOnly = false ∧ isSourceDrive canonicalize device image = true := by
  unfold checkWriteAllowed
  by_cases hro : device.isReadOnly
  · simp [hro]
  · by_cases hsource : isSourceDrive canonicalize device image
    · simp [hro, hsource]
    · rw [if_neg hro, if_neg hsource]
      refine iff_of_false ?_ fun h => hsource h.2
      split_ifs <;> exact nofun

end

end Osedax
