import Osedax.Device.HotPlug

/-!
# The listed devices as targets

What `enumerate` promises of every device it lists, whatever sysfs contains: the size is the number
in the size file times 512, as far as that fits, and no allowed write is larger than the disk
(`enumerate_capacity`); and what makes a device a default target (`enumerate_default`).
-/

namespace Osedax

variable {ε : Type} {sys : System ε} {fs : FileSystem} {name : String} {devices : List Device}
  {device : Device}

/-! ## Capacity -/

/-- What a size file has to contain. -/
theorem readNumber_eq_some_iff {bits n : ℕ} {attr : String} :
    readNumber bits fs (sysBase name) attr = some n ↔
      ∃ text, readAttr fs (sysBase name) attr = some text ∧ IsDecimal (trim text) n ∧
        n < 2 ^ bits := by
  unfold readNumber
  simp only [Option.bind_eq_some_iff, parseUnsigned_eq_some_iff]

theorem toNat_size_eq (sectors : ℕ) :
    (UInt64.ofNat sectors * 512).toNat = sectors * 512 % 2 ^ 64 := by
  rw [UInt64.toNat_mul, UInt64.toNat_ofNat', Nat.mod_mul_mod]
  rfl

/-- The size of a listed device is that of the disk, if it fits in 64 bits, and is smaller if it
does not; so no write that is allowed goes beyond the end of the disk. -/
theorem enumerate_capacity (hok : enumerate .linux sys = .ok devices) (hdevice : device ∈ devices) :
    ∃ name text sectors, device.path = Path.ofString ("/dev/" ++ name) ∧
      readAttr sys.toFileSystem (sysBase name) "size" = some text ∧ IsDecimal (trim text) sectors ∧
      (device.size.toNat = sectors * 512 ↔ sectors < 2 ^ 55) ∧
      ∀ canonicalize image size force,
        checkWriteAllowed canonicalize device image size force = .ok () →
          size.toNat ≤ sectors * 512 := by
  obtain ⟨name, hpath, hbuild⟩ := exists_buildDevice_of_mem hok hdevice
  obtain ⟨sectors, hsize, -, hdeviceSize⟩ := exists_size_of_buildDevice hbuild
  obtain ⟨text, hread, hdecimal, -⟩ := readNumber_eq_some_iff.1 hsize
  have htotal : device.size.toNat = sectors * 512 % 2 ^ 64 := by
    rw [hdeviceSize, toNat_size_eq]
  refine ⟨name, text, sectors, hpath, hread, hdecimal, ?_, ?_⟩
  · rw [htotal]
    omega
  · intro canonicalize image size force hallowed
    have hfits : size ≤ device.size := (checkWriteAllowed_eq_ok_iff.1 hallowed).2.2.1
    calc size.toNat ≤ device.size.toNat := UInt64.le_iff_toNat_le.1 hfits
      _ = sectors * 512 % 2 ^ 64 := htotal
      _ ≤ sectors * 512 := Nat.mod_le _ _

theorem mem_listing_sampleStick : sampleMachine.view sampleStick ∈ sampleMachine.listing :=
  sampleMachine.mem_listing_iff.2 ⟨sampleStick, List.mem_cons_self, by decide, rfl⟩

theorem enumerate_capacity_sampleStick : ∃ name text sectors,
    (sampleMachine.view sampleStick).path = Path.ofString ("/dev/" ++ name) ∧
    readAttr (sampleMachine.system Unit).toFileSystem (sysBase name) "size" = some text ∧
    IsDecimal (trim text) sectors ∧
    ((sampleMachine.view sampleStick).size.toNat = sectors * 512 ↔ sectors < 2 ^ 55) ∧
    ∀ canonicalize image size force,
      checkWriteAllowed canonicalize (sampleMachine.view sampleStick) image size force = .ok () →
        size.toNat ≤ sectors * 512 :=
  enumerate_capacity (presents_system sampleMachine Unit).enumerate_eq mem_listing_sampleStick

/-! ## Default targets -/

theorem isSafeDefaultTarget_of_buildDevice {mounts : List (String × Path)}
    (h : buildDevice fs name mounts = some device) : device.isSafeDefaultTarget ↔
      readFlag fs (sysBase name) "removable" = true ∧ readFlag fs (sysBase name) "ro" = false ∧
        detectUsbText fs (sysBase name) := by
  have hbuilt := builtFrom_of_buildDevice h
  unfold Device.isSafeDefaultTarget
  rw [hbuilt.isUsb, hbuilt.isRemovable, hbuilt.isSystem, hbuilt.isReadOnly, detectUsbText_eq]
  cases readFlag fs (sysBase name) "removable" <;> cases readFlag fs (sysBase name) "ro" <;> simp

/-- `force` changes nothing where the device is no system disk. -/
theorem checkWriteAllowed_force_eq (h : device.isSystem = false)
    (canonicalize : Path → Option Path) (image : Path) (size : UInt64) (force : Bool) :
    checkWriteAllowed canonicalize device image size force =
      checkWriteAllowed canonicalize device image size false := by
  unfold checkWriteAllowed
  rw [h]
  rfl

/-- A listed device is a default target exactly if the disk says that it is removable and not
write-protected, and is behind a USB root hub; the guard treats it the same with and without
`force`. -/
theorem enumerate_default (hok : enumerate .linux sys = .ok devices) (hdevice : device ∈ devices) :
    ∃ name, device.path = Path.ofString ("/dev/" ++ name) ∧
      (device.isSafeDefaultTarget ↔ readFlag sys.toFileSystem (sysBase name) "removable" = true ∧
        readFlag sys.toFileSystem (sysBase name) "ro" = false ∧ ∃ target digits,
          sys.canonicalize (Path.ofString (sysBase name ++ "/device")) = some target ∧
            .normal (asBytes "usb" ++ digits) ∈ target.components ∧ digits.all isAsciiDigit) ∧
      (device.isSafeDefaultTarget → ∀ canonicalize image size force,
        checkWriteAllowed canonicalize device image size force =
          checkWriteAllowed canonicalize device image size false) := by
  obtain ⟨name, hpath, hbuild⟩ := exists_buildDevice_of_mem hok hdevice
  refine ⟨name, hpath, ?_, fun hsafe => ?_⟩
  · rw [isSafeDefaultTarget_of_buildDevice hbuild, detectUsbText_iff]
  · have hsystem : device.isSystem = false := by
      unfold Device.isSafeDefaultTarget at hsafe
      simp only [Bool.and_eq_true, Bool.not_eq_true'] at hsafe
      exact hsafe.1.2
    exact checkWriteAllowed_force_eq hsystem

theorem enumerate_default_sampleStick : ∃ name,
    (sampleMachine.view sampleStick).path = Path.ofString ("/dev/" ++ name) ∧
    ((sampleMachine.view sampleStick).isSafeDefaultTarget ↔
      readFlag (sampleMachine.system Unit).toFileSystem (sysBase name) "removable" = true ∧
      readFlag (sampleMachine.system Unit).toFileSystem (sysBase name) "ro" = false ∧
      ∃ target digits, (sampleMachine.system Unit).canonicalize
          (Path.ofString (sysBase name ++ "/device")) = some target ∧
        .normal (asBytes "usb" ++ digits) ∈ target.components ∧ digits.all isAsciiDigit) ∧
    ((sampleMachine.view sampleStick).isSafeDefaultTarget → ∀ canonicalize image size force,
      checkWriteAllowed canonicalize (sampleMachine.view sampleStick) image size force =
        checkWriteAllowed canonicalize (sampleMachine.view sampleStick) image size false) :=
  enumerate_default (presents_system sampleMachine Unit).enumerate_eq mem_listing_sampleStick

end Osedax
