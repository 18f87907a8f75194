import Osedax.Device.Mounts

/-!
# Enumeration from sysfs

The part of `core/src/device/enumerate/linux.rs` that builds a `Device` from the attributes of a
disk under `/sys/class/block`.
-/

namespace Osedax

def sysBlock : String := "/sys/class/block"

/-- The contents of a sysfs attribute file. -/
def readAttr (fs : FileSystem) (base attr : String) : Option String :=
  fs.readToString (Path.ofString (base ++ "/" ++ attr))

/-- `Component::as_os_str`. -/
def Component.asOsStr : Component → List UInt8
  | .rootDir => asBytes "/"
  | .curDir => asBytes "."
  | .parentDir => asBytes ".."
  | .normal name => name

/-- A segment `usb` or `usbN`.  The lossy conversion of the source replaces what is not UTF-8 by
a character that is no digit, so the test may be made on the bytes. -/
def isUsbSegment (seg : List UInt8) : Bool :=
  seg == asBytes "usb" || ((asBytes "usb").isPrefixOf seg && (seg.drop 3).all isAsciiDigit)

/-- USB attachment by the bus: a `usbN` segment in the canonical path of the device link. -/
def detectUsb (fs : FileSystem) (base : String) : Bool :=
  match fs.canonicalize (Path.ofString (base ++ "/device")) with
  | none => false
  | some target => target.components.any fun c => isUsbSegment c.asOsStr

/-- A disk without a physical `device` link. -/
def detectVirtual (fs : FileSystem) (base : String) : Bool :=
  !fs.pathExists (Path.ofString (base ++ "/device"))

/-- A `0`/`1` attribute; one that cannot be read counts as `0`. -/
def readFlag (fs : FileSystem) (base attr : String) : Bool :=
  ((readAttr fs base attr).map fun s => trim s == "1").getD false

/-- A numeric attribute of `bits` bits. -/
def readNumber (bits : ℕ) (fs : FileSystem) (base attr : String) : Option ℕ :=
  (readAttr fs base attr).bind fun s => parseUnsigned bits (trim s)

/-- The directory of a disk in sysfs. -/
def sysBase (name : String) : String := sysBlock ++ "/" ++ name

/-- A `Device` from the attributes of a disk, `none` without its size.  The size is in sectors of
512 bytes; the product wraps around, as in a build without overflow checks. -/
def buildDevice (fs : FileSystem) (name : String) (mounts : List (String × Path)) :
    Option Device := do
  let base := sysBase name
  let sectors ← readNumber 64 fs base "size"
  let size := UInt64.ofNat sectors * 512
  let logicalBlockSize :=
    ((readNumber 32 fs base "queue/logical_block_size").map UInt32.ofNat).getD 512
  let physicalBlockSize :=
    ((readNumber 32 fs base "queue/physical_block_size").map UInt32.ofNat).getD logicalBlockSize
  let removable := readFlag fs base "removable"
  let readOnly := readFlag fs base "ro"
  let model := (readAttr fs base "device/model").map trim
  let isUsb := detectUsb fs base
  let isVirtual := detectVirtual fs base
  let isSystem := !removable && !isVirtual
  let devPath := Path.ofString ("/dev/" ++ name)
  let mountpoints := mountsFor name mounts
  some {
    path := devPath
    model := model
    size := size
    logicalBlockSize := logicalBlockSize
    physicalBlockSize := physicalBlockSize
    isUsb := isUsb
    isRemovable := removable
    isSystem := isSystem
    isReadOnly := readOnly
    mountpoints := mountpoints }

/-! ## The device that is built -/

variable {fs : FileSystem} {name : String}

theorem buildDevice_eq_none_iff (mounts : List (String × Path)) :
    buildDevice fs name mounts = none ↔ readNumber 64 fs (sysBase name) "size" = none := by
  cases h : readNumber 64 fs (sysBase name) "size" <;> simp [buildDevice, h]

/-- What the guard reads of a device that was built. -/
structure BuiltFrom (fs : FileSystem) (name : String) (mounts : List (String × Path))
    (device : Device) : Prop where
  isUsb : device.isUsb = detectUsb fs (sysBase name)
  isRemovable : device.isRemovable = readFlag fs (sysBase name) "removable"
  isSystem : device.isSystem =
    (!readFlag fs (sysBase name) "removable" && !detectVirtual fs (sysBase name))
  isReadOnly : device.isReadOnly = readFlag fs (sysBase name) "ro"
  mountpoints : device.mountpoints = mountsFor name mounts

theorem builtFrom_of_buildDevice {mounts : List (String × Path)} {device : Device}
    (h : buildDevice fs name mounts = some device) :
    BuiltFrom fs name mounts device := by
  cases hsize : readNumber 64 fs (sysBase name) "size" with
  | none => simp [buildDevice, hsize] at h
  | some sectors =>
    simp only [buildDevice, hsize, Option.bind_eq_bind, Option.bind_some, Option.some_inj] at h
    subst h
    exact ⟨rfl, rfl, rfl, rfl, rfl⟩

/-- Every field of the device, in terms of what is read. -/
theorem buildDevice_of_size {sectors : ℕ}
    (h : readNumber 64 fs (sysBase name) "size" = some sectors) (mounts : List (String × Path)) :
    buildDevice fs name mounts = some {
      path := Path.ofString ("/dev/" ++ name)
      model := (readAttr fs (sysBase name) "device/model").map trim
      size := UInt64.ofNat sectors * 512
      logicalBlockSize :=
        ((readNumber 32 fs (sysBase name) "queue/logical_block_size").map UInt32.ofNat).getD 512
      physicalBlockSize :=
        ((readNumber 32 fs (sysBase name) "queue/physical_block_size").map UInt32.ofNat).getD
          (((readNumber 32 fs (sysBase name) "queue/logical_block_size").map
            UInt32.ofNat).getD 512)
      isUsb := detectUsb fs (sysBase name)
      isRemovable := readFlag fs (sysBase name) "removable"
      isSystem := !readFlag fs (sysBase name) "removable" && !detectVirtual fs (sysBase name)
      isReadOnly := readFlag fs (sysBase name) "ro"
      mountpoints := mountsFor name mounts } := by
  unfold buildDevice
  simp only [h, Option.bind_eq_bind, Option.bind_some]

theorem exists_size_of_buildDevice {mounts : List (String × Path)} {device : Device}
    (h : buildDevice fs name mounts = some device) :
    ∃ sectors, readNumber 64 fs (sysBase name) "size" = some sectors ∧
      device.path = Path.ofString ("/dev/" ++ name) ∧
      device.size = UInt64.ofNat sectors * 512 := by
  cases hsize : readNumber 64 fs (sysBase name) "size" with
  | none => simp [buildDevice, hsize] at h
  | some sectors =>
    rw [buildDevice_of_size hsize, Option.some_inj] at h
    rw [← h]
    exact ⟨sectors, rfl, rfl, rfl⟩

end Osedax
