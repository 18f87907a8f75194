import Osedax.Device.Listing
import Osedax.Device.TableLines
import Osedax.Device.Usb
import Osedax.Rust.Number

/-!
# A machine and what sysfs shows of it

The disks of a machine, what is mounted, and the files in which the kernel shows them (`Presents`).
A machine is stated in its own terms: a disk has a driver, a number of sectors and a place in the
device tree, and a mount has a mount point.  On every such system `enumerate` gives back the disks
of the machine (`Presents.enumerate_eq`): each attribute is decoded as it was written, each mount
comes with its disk, and pseudo-devices and partitions are left out.
-/

namespace Osedax

/-! ## Disks -/

/-- The drivers of the kernel's pseudo-devices, and every other. -/
inductive Driver where
  | disk
  | loop
  | optical
  | ram
  | deviceMapper
  | raid
  | zram
  deriving DecidableEq

/-- What the driver of a pseudo-device starts the names with. -/
def Driver.stem : Driver → Option String
  | .disk => none
  | .loop => some "loop"
  | .optical => some "sr"
  | .ram => some "ram"
  | .deviceMapper => some "dm-"
  | .raid => some "md"
  | .zram => some "zram"

/-- A node of the device tree; only the root hubs of the USB buses are called `usb` and a number. -/
inductive TreeNode where
  | usbHub (bus : ℕ)
  | other (name : List UInt8) (isFileName : Path.IsFileName name)
      (notHub : ∀ digits : List UInt8, digits.all isAsciiDigit → name ≠ asBytes "usb" ++ digits)

def TreeNode.name : TreeNode → List UInt8
  | .usbHub bus => asBytes ("usb" ++ bus.repr)
  | .other name _ _ => name

def TreeNode.isHub : TreeNode → Bool
  | .usbHub _ => true
  | .other _ _ _ => false

/-- Where the kernel keeps a device that is reached through these nodes. -/
def devicePath (nodes : List TreeNode) : Path :=
  ⟨asBytes "/sys/devices" ++ nodes.flatMap fun node => Path.sep :: node.name⟩

/-- A disk as the kernel knows it, with the numbers of its partitions.  A disk that is backed by a
device has the device's place in the tree. -/
structure Disk where
  name : String
  driver : Driver
  sectors : ℕ
  logicalBlockSize : UInt32
  physicalBlockSize : UInt32
  removable : Bool
  readOnly : Bool
  model : Option String
  device : Option (List TreeNode)
  partitions : List ℕ
  name_isFileName : Path.IsFileName (asBytes name)
  name_driver : ∀ other : Driver, ∀ stem ∈ other.stem, stem.toList <+: name.toList ↔ other = driver
  sectors_lt : sectors < 2 ^ 55
  model_trimmed : ∀ text ∈ model, Trimmed text

/-- What is attached and mounted; distinct disks have names of their own. -/
structure Machine where
  disks : List Disk
  table : List TableLine
  names_nodup : (disks.map Disk.name).Nodup
  diskNames : DiskNames {name | name ∈ disks.map Disk.name}
  clean : CleanTable table

namespace Disk

/-- The nodes of the partitions. -/
def partitionNames (d : Disk) : List String :=
  d.partitions.map fun n => partitionStem d.name ++ n.repr

/-- The disk is behind the root hub of a USB bus. -/
def isUsb (d : Disk) : Bool := d.device.any fun nodes => nodes.any TreeNode.isHub

/-- A fixed disk with a device behind it: a system disk, by the rule of the source. -/
def isFixed (d : Disk) : Bool := !d.removable && d.device.isSome

end Disk

namespace Machine

variable (m : Machine)

/-- The mounts of block devices, in the order of the table. -/
def mounts : List KernelMount := m.table.filterMap TableLine.mount

/-- The names in `/sys/class/block`. -/
def nodes : List String := m.disks.map Disk.name ++ m.disks.flatMap Disk.partitionNames

/-- The mount points of a disk and its partitions. -/
def mountpoints (d : Disk) : List MountPoint :=
  (m.mounts.filter fun mount => OwnsNode d.name mount.name).map
    fun mount => ⟨Path.ofString mount.mountPoint⟩

/-- The platform-neutral view of a disk. -/
def view (d : Disk) : Device where
  path := Path.ofString ("/dev/" ++ d.name)
  model := d.model
  size := UInt64.ofNat (d.sectors * 512)
  logicalBlockSize := d.logicalBlockSize
  physicalBlockSize := d.physicalBlockSize
  isUsb := d.isUsb
  isRemovable := d.removable
  isSystem := d.isFixed
  isReadOnly := d.readOnly
  mountpoints := m.mountpoints d

/-- The disks that can be flashed, by path. -/
def listing : List Device :=
  ((m.disks.filter fun d => d.driver = .disk).map m.view).mergeSort pathLe

end Machine

theorem toNat_view_size (m : Machine) (d : Disk) : (m.view d).size.toNat = d.sectors * 512 := by
  have hlt := d.sectors_lt
  exact UInt64.toNat_ofNat_of_lt' (show d.sectors * 512 < 2 ^ 64 by omega)

/-! ## Names and nodes -/

theorem startsWith_iff_prefix {s pre : String} : startsWith s pre ↔ pre.toList <+: s.toList :=
  List.isPrefixOf_iff_prefix

/-- The pseudo-devices are told by their names. -/
theorem isPseudoDevice_disk (d : Disk) : isPseudoDevice d.name ↔ d.driver ≠ .disk := by
  simp only [isPseudoDevice, Bool.or_eq_true, startsWith_iff_prefix,
    d.name_driver .loop "loop" rfl, d.name_driver .optical "sr" rfl, d.name_driver .ram "ram" rfl,
    d.name_driver .deviceMapper "dm-" rfl, d.name_driver .raid "md" rfl,
    d.name_driver .zram "zram" rfl]
  cases d.driver <;> decide

theorem sep_notMem_repr (n : ℕ) : Path.sep ∉ asBytes n.repr := by
  intro hmem
  have hall : (asBytes n.repr).all isAsciiDigit = true := by
    rw [all_isAsciiDigit, List.all_eq_true]
    exact fun c => isDigit_of_mem_repr
  exact absurd (List.all_eq_true.1 hall _ hmem) (by decide)

theorem TreeNode.isFileName_name (node : TreeNode) : Path.IsFileName node.name := by
  cases node with
  | usbHub bus =>
    have hhead : (asBytes ("usb" ++ bus.repr)).head? = some 0x75 := by
      rw [asBytes_append]
      rfl
    have hne {special : List UInt8} (hspecial : special.head? ≠ some 0x75) :
        asBytes ("usb" ++ bus.repr) ≠ special := by
      rintro rfl
      exact hspecial hhead
    refine ⟨hne (by decide), hne (by decide), hne (by decide), ?_⟩
    show Path.sep ∉ asBytes ("usb" ++ bus.repr)
    rw [asBytes_append, List.mem_append, not_or]
    exact ⟨by decide, sep_notMem_repr bus⟩
  | other name isFileName _ => exact isFileName

theorem isUsbSegment_name (node : TreeNode) : isUsbSegment node.name = node.isHub := by
  rw [Bool.eq_iff_iff, isUsbSegment_iff]
  cases node with
  | usbHub bus =>
    refine iff_of_true ⟨asBytes bus.repr, asBytes_append _ _, ?_⟩ rfl
    rw [all_isAsciiDigit, List.all_eq_true]
    exact fun c => isDigit_of_mem_repr
  | other name _ notHub =>
    refine iff_of_false ?_ Bool.false_ne_true
    rintro ⟨digits, hname, hdigits⟩
    exact notHub digits hdigits hname

theorem components_devicePath (nodes : List TreeNode) : (devicePath nodes).components =
    .rootDir :: .normal (asBytes "sys") :: .normal (asBytes "devices") ::
      nodes.map fun node => .normal node.name := by
  have hbytes : asBytes "/sys/devices" = Path.sep :: asBytes "sys/devices" := by decide
  have hdevices : Path.relativeComponents (asBytes "sys/devices") =
      [.normal (asBytes "sys"), .normal (asBytes "devices")] := by decide
  have hnames : ∀ name ∈ nodes.map TreeNode.name, Path.IsFileName name := by
    rw [List.forall_mem_map]
    exact fun node _ => node.isFileName_name
  have hrest := Path.relativeComponents_flatMap hnames (asBytes "sys/devices")
  rw [List.flatMap_map, hdevices, List.map_map] at hrest
  unfold Path.components devicePath
  rw [hbytes]
  simp only [List.cons_append, ↓reduceIte]
  rw [hrest]
  rfl

/-- The path of a device names a USB bus exactly if it goes through the root hub of one. -/
theorem any_isUsbSegment_devicePath (nodes : List TreeNode) :
    ((devicePath nodes).components.any fun c => isUsbSegment c.asOsStr) =
      nodes.any TreeNode.isHub := by
  have hroot : isUsbSegment (Component.asOsStr .rootDir) = false := by decide
  have hsys : isUsbSegment (Component.asOsStr (.normal (asBytes "sys"))) = false := by decide
  have hdevices : isUsbSegment (Component.asOsStr (.normal (asBytes "devices"))) = false := by
    decide
  have hnode (node : TreeNode) : isUsbSegment (Component.asOsStr (.normal node.name)) =
      node.isHub := isUsbSegment_name node
  rw [components_devicePath]
  simp only [List.any_cons, hroot, hsys, hdevices, Bool.false_or, List.any_map]
  exact congrArg (nodes.any ·) (funext hnode)

/-! ## Sysfs -/

/-- The attribute file of a disk. -/
def attrPath (name attr : String) : Path := Path.ofString (sysBase name ++ "/" ++ attr)

/-- A number or a text as the kernel writes it. -/
def attrText (s : String) : List UInt8 := asBytes (s ++ "\n")

def flagText (flag : Bool) : String := if flag then "1" else "0"

/-- A text in a field that is filled up with spaces. -/
def padded (text : String) (padding : ℕ) : String :=
  text ++ String.ofList (List.replicate padding ' ')

/-- Sysfs and the mount table show the machine, the directory in any order. -/
structure Presents {ε : Type} (sys : System ε) (m : Machine) : Prop where
  nodes : ∃ names : List (List UInt8), names.Perm (m.nodes.map asBytes) ∧
    sys.readDir (Path.ofString sysBlock) = .ok (names.map .ok)
  mounts : HasTable sys.toFileSystem m.table
  disk : ∀ d ∈ m.disks, sys.pathExists (Path.ofString (sysBase d.name ++ "/partition")) = false
  partition : ∀ d ∈ m.disks, ∀ name ∈ d.partitionNames,
    sys.pathExists (Path.ofString (sysBase name ++ "/partition")) = true
  size : ∀ d ∈ m.disks, sys.read (attrPath d.name "size") = some (attrText d.sectors.repr)
  logicalBlockSize : ∀ d ∈ m.disks, sys.read (attrPath d.name "queue/logical_block_size") =
    some (attrText d.logicalBlockSize.toNat.repr)
  physicalBlockSize : ∀ d ∈ m.disks, sys.read (attrPath d.name "queue/physical_block_size") =
    some (attrText d.physicalBlockSize.toNat.repr)
  removable : ∀ d ∈ m.disks, sys.read (attrPath d.name "removable") =
    some (attrText (flagText d.removable))
  readOnly : ∀ d ∈ m.disks, sys.read (attrPath d.name "ro") = some (attrText (flagText d.readOnly))
  model : ∀ d ∈ m.disks, ∃ padding, sys.read (attrPath d.name "device/model") =
    d.model.map fun text => attrText (padded text padding)
  device : ∀ d ∈ m.disks, sys.canonicalize (Path.ofString (sysBase d.name ++ "/device")) =
    d.device.map devicePath
  deviceExists : ∀ d ∈ m.disks,
    sys.pathExists (Path.ofString (sysBase d.name ++ "/device")) = d.device.isSome

section

variable {fs : FileSystem} {name attr : String}

theorem readAttr_eq (fs : FileSystem) (name attr : String) :
    readAttr fs (sysBase name) attr = (fs.read (attrPath name attr)).bind fromUtf8 := rfl

theorem fromUtf8_attrText (s : String) : fromUtf8 (attrText s) = some (s ++ "\n") := by
  rw [attrText, asBytes_eq_encode, fromUtf8, Utf8.decode_encode, String.ofList_toList]

theorem isWhitespace_newline : ∀ c ∈ "\n".toList, isWhitespace c = true :=
  List.all_eq_true.1 (by decide)

/-- Numbers are read back from their attribute files. -/
theorem readNumber_attrText {bits n : ℕ} (hn : n < 2 ^ bits)
    (h : fs.read (attrPath name attr) = some (attrText n.repr)) :
    readNumber bits fs (sysBase name) attr = some n := by
  unfold readNumber
  rw [readAttr_eq, h, Option.bind_some, fromUtf8_attrText, Option.bind_some,
    parseUnsigned_trim_repr hn isWhitespace_newline]

theorem readFlag_attrText {flag : Bool}
    (h : fs.read (attrPath name attr) = some (attrText (flagText flag))) :
    readFlag fs (sysBase name) attr = flag := by
  unfold readFlag
  rw [readAttr_eq, h, Option.bind_some, fromUtf8_attrText]
  cases flag <;> decide

/-- The padding of the model does not survive. -/
theorem readModel_attrText {model : Option String} {padding : ℕ}
    (hmodel : ∀ text ∈ model, Trimmed text)
    (h : fs.read (attrPath name "device/model") =
      model.map fun text => attrText (padded text padding)) :
    (readAttr fs (sysBase name) "device/model").map trim = model := by
  rw [readAttr_eq, h]
  cases model with
  | none => rfl
  | some text =>
    have hspaces : ∀ c ∈ (String.ofList (List.replicate padding ' ')).toList,
        isWhitespace c = true := by
      have hspace : isWhitespace ' ' = true := by decide
      simp [hspace]
    rw [Option.map_some, Option.bind_some, fromUtf8_attrText, Option.map_some,
      trim_append isWhitespace_newline, padded, trim_append hspaces,
      trim_of_trimmed (hmodel text rfl)]

end

variable {ε : Type} {sys : System ε} {m : Machine}

theorem Presents.mountsFor (h : Presents sys m) (d : Disk) :
    Osedax.mountsFor d.name (readMounts sys.toFileSystem) = m.mountpoints d :=
  h.mounts.mountsFor m.clean d.name

/-- The device of a disk is its view. -/
theorem Presents.buildDevice (h : Presents sys m) {d : Disk} (hd : d ∈ m.disks) :
    Osedax.buildDevice sys.toFileSystem d.name (readMounts sys.toFileSystem) =
      some (m.view d) := by
  have husb : detectUsb sys.toFileSystem (sysBase d.name) = d.isUsb := by
    unfold detectUsb Disk.isUsb
    rw [h.device d hd]
    cases d.device with
    | none => rfl
    | some nodes => exact any_isUsbSegment_devicePath nodes
  have hvirtual : detectVirtual sys.toFileSystem (sysBase d.name) = !d.device.isSome := by
    unfold detectVirtual
    rw [h.deviceExists d hd]
  have hsectors : UInt64.ofNat d.sectors * 512 = (m.view d).size := (UInt64.ofNat_mul _ _).symm
  have hsectorsFit : d.sectors < 2 ^ 64 := lt_trans d.sectors_lt (by decide)
  obtain ⟨padding, hmodel⟩ := h.model d hd
  rw [buildDevice_of_size (readNumber_attrText hsectorsFit (h.size d hd)),
    readNumber_attrText d.logicalBlockSize.toNat_lt (h.logicalBlockSize d hd),
    readNumber_attrText d.physicalBlockSize.toNat_lt (h.physicalBlockSize d hd),
    readFlag_attrText (h.removable d hd), readFlag_attrText (h.readOnly d hd),
    readModel_attrText d.model_trimmed hmodel, husb, hvirtual, h.mountsFor, hsectors,
    Option.map_some, Option.map_some, UInt32.ofNat_toNat, UInt32.ofNat_toNat, Bool.not_not]
  rfl

/-! ## The list of a machine -/

namespace Machine

variable (m)

theorem components_view (d : Disk) : (m.view d).path.components =
    [.rootDir, .normal (asBytes "dev"), .normal (asBytes d.name)] := by
  show (Path.ofString ("/dev/" ++ d.name)).components = _
  rw [Path.ofString, asBytes_append, Path.components_dev d.name_isFileName]

/-- The path of a device names its disk. -/
theorem eq_of_view_path {d e : Disk} (hd : d ∈ m.disks) (he : e ∈ m.disks)
    (h : (m.view d).path.components = (m.view e).path.components) : d = e := by
  rw [components_view, components_view] at h
  simp only [List.cons.injEq, Component.normal.injEq, true_and, and_true] at h
  exact List.inj_on_of_nodup_map m.names_nodup hd he (asBytes_injective h)

theorem separates_views (p : Disk → Bool) :
    Collect.Separates pathLe ((m.disks.filter p).map m.view) := by
  intro x y hx hy hxy hyx
  obtain ⟨d, hd, rfl⟩ := List.mem_map.1 hx
  obtain ⟨e, he, rfl⟩ := List.mem_map.1 hy
  rw [m.eq_of_view_path (List.mem_filter.1 hd).1 (List.mem_filter.1 he).1
    (Path.beq_iff.1 (Path.le_and_le_iff.1 ⟨hxy, hyx⟩))]

theorem inPathOrder_listing : InPathOrder m.listing := by
  refine Collect.pairwise_lt_mergeSort pathLe_trans pathLe_total (m.separates_views _) ?_
  refine List.Nodup.map_on ?_ ((List.Nodup.of_map Disk.name m.names_nodup).filter _)
  intro d hd e he h
  exact m.eq_of_view_path (List.mem_filter.1 hd).1 (List.mem_filter.1 he).1 (by rw [h])

theorem mem_listing_iff {device : Device} : device ∈ m.listing ↔
    ∃ d ∈ m.disks, d.driver = .disk ∧ device = m.view d := by
  unfold listing
  rw [List.mem_mergeSort, List.mem_map]
  simp only [List.mem_filter, decide_eq_true_eq, and_assoc, eq_comm (a := device)]

end Machine

theorem Presents.offered_disk (h : Presents sys m) {d : Disk} (hd : d ∈ m.disks) :
    offered sys.toFileSystem (readMounts sys.toFileSystem) (asBytes d.name) =
      if d.driver = .disk then some (m.view d) else none := by
  unfold offered isWholeDisk
  rw [toStringLossy_asBytes, h.disk d hd, h.buildDevice hd]
  simp only [isPseudoDevice_disk, Bool.not_false, true_and, not_not]

theorem Presents.offered_partition (h : Presents sys m) {name : String}
    (hname : name ∈ m.disks.flatMap Disk.partitionNames) :
    offered sys.toFileSystem (readMounts sys.toFileSystem) (asBytes name) = none := by
  obtain ⟨d, hd, hpart⟩ := List.mem_flatMap.1 hname
  simp [offered, isWholeDisk, toStringLossy_asBytes, h.partition d hd name hpart]

theorem Presents.filterMap_nodes (h : Presents sys m) : devicesOf sys.toFileSystem
    (m.nodes.map asBytes) = (m.disks.filter fun d => d.driver = .disk).map m.view := by
  have hparts : (m.disks.flatMap Disk.partitionNames).filterMap
      (offered sys.toFileSystem (readMounts sys.toFileSystem) ∘ asBytes) = [] :=
    List.filterMap_eq_nil_iff.2 fun name hname => h.offered_partition hname
  unfold devicesOf Machine.nodes
  rw [List.filterMap_map, List.filterMap_append, hparts, List.append_nil, List.filterMap_map,
    ← List.filterMap_eq_map, List.filterMap_filter]
  exact List.filterMap_congr fun d hd =>
    (h.offered_disk hd).trans (if_congr decide_eq_true_iff.symm rfl rfl)

theorem Presents.enumerate_eq (h : Presents sys m) : enumerate .linux sys = .ok m.listing := by
  obtain ⟨names, hperm, hread⟩ := h.nodes
  have hdevices : (devicesOf sys.toFileSystem names).Perm
      ((m.disks.filter fun d => d.driver = .disk).map m.view) := by
    rw [← h.filterMap_nodes]
    exact hperm.filterMap _
  rw [enumerate_linux_of_names hread, Machine.listing,
    Collect.mergeSort_eq_of_perm pathLe_trans pathLe_total (m.separates_views _) hdevices]

end Osedax
