import Mathlib.Logic.Relation
import Mathlib.Order.Basic
import Osedax.Device.Safety

/-!
# Adding hazards to a write

A device gets more hazardous by becoming write-protected or a system drive, by shrinking, and by
being mounted at one more place.  No number of such steps, and no larger image, makes the guard
allow a write that it refused before; and `force` is only ever asked for the system check.
-/

namespace Osedax

/-- One step that adds a hazard to a device. -/
inductive AddHazard : Device → Device → Prop
  | readOnly (device : Device) : AddHazard device { device with isReadOnly := true }
  | system (device : Device) : AddHazard device { device with isSystem := true }
  | shrink (device : Device) (size : UInt64) (h : size ≤ device.size) :
      AddHazard device { device with size := size }
  | mount (device : Device) (before after : List MountPoint) (mp : MountPoint)
      (h : device.mountpoints = before ++ after) :
      AddHazard device { device with mountpoints := before ++ mp :: after }

/-- The second device has every hazard of the first. -/
structure MoreHazardous (device device' : Device) : Prop where
  isReadOnly : device.isReadOnly = true → device'.isReadOnly = true
  isSystem : device.isSystem = true → device'.isSystem = true
  size : device'.size ≤ device.size
  mountpoints : device.mountpoints ⊆ device'.mountpoints

theorem MoreHazardous.refl (device : Device) : MoreHazardous device device :=
  ⟨id, id, UInt64.le_refl _, List.Subset.refl _⟩

theorem MoreHazardous.trans {a b c : Device} (h : MoreHazardous a b) (k : MoreHazardous b c) :
    MoreHazardous a c where
  isReadOnly := k.isReadOnly ∘ h.isReadOnly
  isSystem := k.isSystem ∘ h.isSystem
  size := UInt64.le_trans k.size h.size
  mountpoints := List.Subset.trans h.mountpoints k.mountpoints

theorem AddHazard.moreHazardous {device device' : Device} (h : AddHazard device device') :
    MoreHazardous device device' := by
  cases h with
  | readOnly => exact { MoreHazardous.refl device with isReadOnly := fun _ => rfl }
  | system => exact { MoreHazardous.refl device with isSystem := fun _ => rfl }
  | shrink size h => exact { MoreHazardous.refl device with size := h }
  | mount before after mp h =>
    refine { MoreHazardous.refl device with mountpoints := ?_ }
    rw [h]
    exact List.append_subset.2 ⟨List.subset_append_left _ _,
      List.Subset.trans (List.subset_cons_self _ _) (List.subset_append_right _ _)⟩

/-- Any combination of steps. -/
theorem moreHazardous_of_reflTransGen {device device' : Device}
    (h : Relation.ReflTransGen AddHazard device device') : MoreHazardous device device' := by
  induction h with
  | refl => exact MoreHazardous.refl device
  | tail _ hstep ih => exact ih.trans hstep.moreHazardous

section

variable {canonicalize : Path → Option Path} {device device' : Device} {image : Path}
  {size size' : UInt64}

theorem isSourceDrive_mono (h : MoreHazardous device device')
    (hsource : isSourceDrive canonicalize device image = true) :
    isSourceDrive canonicalize device' image = true := by
  obtain ⟨mp, hmp, hunder⟩ := isSourceDrive_iff.1 hsource
  exact isSourceDrive_iff.2 ⟨mp, h.mountpoints hmp, hunder⟩

/-- A write that is allowed stays allowed on a less hazardous device, for a smaller image and with
at least as much force. -/
theorem checkWriteAllowed_antitone (h : MoreHazardous device device') (hsize : size ≤ size')
    {force force' : Bool} (hforce : device.isSystem = true → force' = true → force = true)
    (hok : checkWriteAllowed canonicalize device' image size' force' = .ok ()) :
    checkWriteAllowed canonicalize device image size force = .ok () := by
  obtain ⟨hro, hsource, hfits, hsystem⟩ := checkWriteAllowed_eq_ok_iff.1 hok
  exact checkWriteAllowed_eq_ok_iff.2
    ⟨Bool.eq_false_iff.2 (mt h.isReadOnly (Bool.eq_false_iff.1 hro)),
      Bool.eq_false_iff.2 (mt (isSourceDrive_mono h) (Bool.eq_false_iff.1 hsource)),
      UInt64.le_trans hsize (UInt64.le_trans hfits h.size),
      fun hs => hforce hs (hsystem (h.isSystem hs))⟩

/-- `force` is consulted last, and only for a system drive. -/
theorem checkWriteAllowed_force :
    (checkWriteAllowed canonicalize device image size false = .error .systemDrive →
      checkWriteAllowed canonicalize device image size true = .ok ()) ∧
    (checkWriteAllowed canonicalize device image size false ≠ .error .systemDrive →
      checkWriteAllowed canonicalize device image size true =
        checkWriteAllowed canonicalize device image size false) := by
  unfold checkWriteAllowed
  split_ifs with hro hsource hsize htrue hfalse <;> simp_all

/-- The source drive of the image is refused as such, whatever else is wrong with the write. -/
theorem checkWriteAllowed_sourceOnTarget (hsource : isSourceDrive canonicalize device image = true)
    (hro : device.isReadOnly = false) (capacity : UInt64) (isSystem : Bool) (size : UInt64)
    (force : Bool) :
    checkWriteAllowed canonicalize { device with size := capacity, isSystem := isSystem } image
      size force = .error .sourceOnTarget :=
  checkWriteAllowed_eq_sourceOnTarget_iff.2 ⟨hro, hsource⟩

end

/-- The guard is monotone in the hazards, `force` relaxes the system check alone, and the source
drive of the image is refused as such. -/
theorem checkWriteAllowed_hazards (canonicalize : Path → Option Path) (image : Path) :
    (∀ device device' size size', Relation.ReflTransGen AddHazard device device' → size ≤ size' →
      (checkWriteAllowed canonicalize device' image size' false = .ok () →
        ∀ force, checkWriteAllowed canonicalize device image size force = .ok ()) ∧
      (checkWriteAllowed canonicalize device' image size' true = .ok () →
        checkWriteAllowed canonicalize device image size true = .ok ())) ∧
    (∀ device size,
      (checkWriteAllowed canonicalize device image size false = .error .systemDrive →
        checkWriteAllowed canonicalize device image size true = .ok ()) ∧
      (checkWriteAllowed canonicalize device image size false ≠ .error .systemDrive →
        checkWriteAllowed canonicalize device image size true =
          checkWriteAllowed canonicalize device image size false)) ∧
    ∀ device, isSourceDrive canonicalize device image = true → device.isReadOnly = false →
      ∀ capacity isSystem size force,
        checkWriteAllowed canonicalize { device with size := capacity, isSystem := isSystem } image
          size force = .error .sourceOnTarget := by
  refine ⟨fun device device' size size' hsteps hsize => ?_,
    fun device size => checkWriteAllowed_force, fun device => checkWriteAllowed_sourceOnTarget⟩
  have hmore := moreHazardous_of_reflTransGen hsteps
  apply And.intro
  · intro hok force
    exact checkWriteAllowed_antitone hmore hsize (fun _ h => absurd h Bool.false_ne_true) hok
  · intro hok
    exact checkWriteAllowed_antitone hmore hsize (fun _ _ => rfl) hok

/-- An unmounted stick of 1000 bytes. -/
def blankStick : Device where
  path := Path.ofString "/dev/sdb"
  model := none
  size := 1000
  logicalBlockSize := 512
  physicalBlockSize := 512
  isUsb := true
  isRemovable := true
  isSystem := false
  isReadOnly := false
  mountpoints := []

theorem checkWriteAllowed_hazards_blankStick :
    checkWriteAllowed (fun _ => none) blankStick (Path.ofString "/home/x.iso") 700 false =
      .ok () := by
  have hsteps : Relation.ReflTransGen AddHazard blankStick
      { blankStick with size := 900, mountpoints := [⟨Path.ofString "/mnt"⟩] } :=
    (Relation.ReflTransGen.single (.shrink blankStick 900 (by decide))).tail
      (.mount _ [] [] ⟨Path.ofString "/mnt"⟩ rfl)
  exact ((checkWriteAllowed_hazards (fun _ => none) (Path.ofString "/home/x.iso")).1 _ _ 700 800
    hsteps (by decide)).1 (by decide) false

end Osedax
