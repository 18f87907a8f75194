import Osedax.Device.HotPlug

/-!
# What the mount table decides

The listed devices share out the mount table: each mount of one of their nodes is a mount point of
one device, and nothing else is (`enumerate_mounts_perm`).  The table decides nothing else about
the list, and one that is not UTF-8 leaves every device without mount points
(`enumerate_withTable`).
-/

namespace Osedax

variable {ε : Type} {sys : System ε} {fs : FileSystem} {names : List (List UInt8)}
  {devices : List Device}

/-! ## Shares -/

/-- No two devices of a list in strict order have the same path. -/
theorem InPathOrder.nodup_paths (h : InPathOrder devices) : (devices.map Device.path).Nodup := by
  refine List.pairwise_map.2 (h.imp fun {a b} hlt heq => ?_)
  have hle : pathLe b a = pathLe a b := by
    unfold pathLe
    rw [heq]
  have htotal := pathLe_total a b
  rw [← hle, hlt] at htotal
  contradiction

/-- A listed device has the path of a disk and the mount points of the lines that name its nodes. -/
theorem exists_name_of_mem {table : List TableLine} (htable : HasTable sys.toFileSystem table)
    (hclean : CleanTable table) (hok : enumerate .linux sys = .ok devices) {device : Device}
    (hdevice : device ∈ devices) : ∃ name, device.path = Path.ofString ("/dev/" ++ name) ∧
      device.mountpoints = ((table.filterMap TableLine.mount).filter fun mount =>
        OwnsNode name mount.name).map fun mount => ⟨Path.ofString mount.mountPoint⟩ := by
  obtain ⟨name, hpath, hbuild⟩ := exists_buildDevice_of_mem hok hdevice
  refine ⟨name, hpath, ?_⟩
  rw [(builtFrom_of_buildDevice hbuild).mountpoints, htable.mountsFor hclean]

/-- The mount points of the listed devices are together the mounts of their nodes: none is lost
and none is counted twice. -/
theorem enumerate_mounts_perm {table : List TableLine} (h : ListsNames sys names)
    (htable : HasTable sys.toFileSystem table) (hclean : CleanTable table)
    (hok : enumerate .linux sys = .ok devices)
    (hdisks : DiskNames
      {name | ∃ device ∈ devices, device.path = Path.ofString ("/dev/" ++ name)}) :
    ∃ disks : List String,
      devices.map Device.path = disks.map (fun name => Path.ofString ("/dev/" ++ name)) ∧
      (devices.flatMap Device.mountpoints).Perm
        (((table.filterMap TableLine.mount).filter fun mount =>
          disks.any fun name => OwnsNode name mount.name).map
            fun mount => ⟨Path.ofString mount.mountPoint⟩) := by
  have hbuilt (device : Device) (hdevice : device ∈ devices) :=
    exists_name_of_mem htable hclean hok hdevice
  choose! name hpath hmounts using hbuilt
  have hpaths : devices.map Device.path =
      (devices.map name).map fun name => Path.ofString ("/dev/" ++ name) := by
    rw [List.map_map]
    exact List.map_congr_left hpath
  have hnodup : (devices.map name).Nodup := by
    have horder := ((enumerate_eq_ok_iff h).1 hok).1
    have hnodup := horder.nodup_paths
    rw [hpaths] at hnodup
    exact hnodup.of_map
  have hshares : devices.flatMap Device.mountpoints =
      ((devices.map name).flatMap fun name => (table.filterMap TableLine.mount).filter fun mount =>
        OwnsNode name mount.name).map fun mount => ⟨Path.ofString mount.mountPoint⟩ := by
    rw [List.flatMap_map, List.map_flatMap]
    exact List.flatMap_congr hmounts
  refine ⟨devices.map name, hpaths, ?_⟩
  rw [hshares]
  refine (Collect.flatMap_filter_perm hnodup fun mount _ d hd e he hde hee => ?_).map _
  have hlisted : ∀ text ∈ devices.map name,
      ∃ device ∈ devices, device.path = Path.ofString ("/dev/" ++ text) := by
    rw [List.forall_mem_map]
    exact fun device hdevice => ⟨device, hdevice, hpath device hdevice⟩
  exact hdisks.eq_of_ownsNode (hlisted d hd) (hlisted e he) (of_decide_eq_true hde)
    (of_decide_eq_true hee)

theorem listsNames_sampleMachine :
    ListsNames (sampleMachine.system Unit) (sampleMachine.nodes.map asBytes) where
  readDir := by
    rw [List.map_map]
    rfl
  fileName := by
    have hnodes : sampleMachine.nodes = ["sdb", "sda", "sdb1", "sda1", "sda2"] := by decide
    simp only [hnodes, List.map_cons, List.map_nil, List.forall_mem_cons]
    refine ⟨⟨?_, ?_, ?_, ?_⟩, ⟨?_, ?_, ?_, ?_⟩, ⟨?_, ?_, ?_, ?_⟩, ⟨?_, ?_, ?_, ?_⟩,
      ⟨?_, ?_, ?_, ?_⟩, fun name hname => absurd hname List.not_mem_nil⟩
    all_goals decide
  nodup := by decide
  utf8 name hname := by
    obtain ⟨text, -, rfl⟩ := List.mem_map.1 hname
    exact ⟨text.toList, (asBytes_eq_encode text).symm⟩

/-- The names of the listed devices are names of disks. -/
theorem Machine.names_listing (m : Machine) {name : String}
    (h : ∃ device ∈ m.listing, device.path = Path.ofString ("/dev/" ++ name)) :
    name ∈ m.disks.map Disk.name := by
  obtain ⟨device, hdevice, hpath⟩ := h
  obtain ⟨d, hd, -, rfl⟩ := m.mem_listing_iff.1 hdevice
  have hbytes : asBytes ("/dev/" ++ d.name) = asBytes ("/dev/" ++ name) :=
    congrArg Path.bytes hpath
  rw [← (String.append_right_inj "/dev/").1 (asBytes_injective hbytes)]
  exact List.mem_map_of_mem hd

theorem enumerate_mounts_perm_sampleMachine : ∃ disks : List String,
    sampleMachine.listing.map Device.path =
      disks.map (fun name => Path.ofString ("/dev/" ++ name)) ∧
    (sampleMachine.listing.flatMap Device.mountpoints).Perm
      (([homeMount, stickMount].filter fun mount =>
        disks.any fun name => OwnsNode name mount.name).map
          fun mount => ⟨Path.ofString mount.mountPoint⟩) := by
  have hfiles : Presents (sampleMachine.system Unit) sampleMachine := presents_system _ _
  exact enumerate_mounts_perm listsNames_sampleMachine hfiles.mounts sampleMachine.clean
    hfiles.enumerate_eq (sampleMachine.diskNames.mono fun _ => sampleMachine.names_listing)

/-! ## The table and the list -/

/-- The device without its mount points. -/
def Device.unmounted (device : Device) : Device := { device with mountpoints := [] }

theorem map_unmounted_buildDevice (fs : FileSystem) (name : String)
    (mounts : List (String × Path)) :
    (buildDevice fs name mounts).map Device.unmounted = buildDevice fs name [] := by
  cases hsize : readNumber 64 fs (sysBase name) "size" with
  | none => rw [(buildDevice_eq_none_iff _).2 hsize, (buildDevice_eq_none_iff _).2 hsize]; rfl
  | some sectors => rw [buildDevice_of_size hsize, buildDevice_of_size hsize]; rfl

theorem map_unmounted_offered (fs : FileSystem) (mounts : List (String × Path))
    (name : List UInt8) :
    (offered fs mounts name).map Device.unmounted = offered fs [] name := by
  unfold offered
  by_cases hdisk : isWholeDisk fs (toStringLossy name) ∧ ¬ isPseudoDevice (toStringLossy name)
  · rw [if_pos hdisk, if_pos hdisk, map_unmounted_buildDevice]
  · rw [if_neg hdisk, if_neg hdisk, Option.map_none]

theorem offered_withTable (sys : System ε) (table : List UInt8) (name : List UInt8) :
    offered (sys.withTable table).toFileSystem [] name = offered sys.toFileSystem [] name := by
  have hsame := sameEntry_withTable sys table (toStringLossy name)
  unfold offered
  rw [hsame.isWholeDisk, hsame.buildDevice rfl]

theorem map_unmounted_devicesOf (fs : FileSystem) (names : List (List UInt8)) :
    (devicesOf fs names).map Device.unmounted = names.filterMap (offered fs []) := by
  unfold devicesOf
  rw [List.map_filterMap]
  exact List.filterMap_congr fun name _ => map_unmounted_offered fs _ name

/-- Sorting goes by the paths alone. -/
theorem map_unmounted_mergeSort (l : List Device) :
    (l.mergeSort pathLe).map Device.unmounted = (l.map Device.unmounted).mergeSort pathLe :=
  List.map_mergeSort fun _ _ _ _ => rfl

/-- Without their mount points the devices do not depend on the table. -/
theorem map_unmounted_withTable (sys : System ε) (table : List UInt8) (names : List (List UInt8)) :
    ((devicesOf (sys.withTable table).toFileSystem names).mergeSort pathLe).map Device.unmounted =
      ((devicesOf sys.toFileSystem names).mergeSort pathLe).map Device.unmounted := by
  rw [map_unmounted_mergeSort, map_unmounted_mergeSort, map_unmounted_devicesOf,
    map_unmounted_devicesOf, funext (offered_withTable sys table)]

/-- A table that is not UTF-8 is as good as none. -/
theorem devicesOf_withTable_of_not_valid (sys : System ε) {table : List UInt8}
    (hinvalid : ¬ Utf8.Valid table) (names : List (List UInt8)) :
    (devicesOf (sys.withTable table).toFileSystem names).mergeSort pathLe =
      ((devicesOf sys.toFileSystem names).mergeSort pathLe).map Device.unmounted := by
  have hmounts : readMounts (sys.withTable table).toFileSystem = [] :=
    mountsIn_of_not_valid hinvalid
  rw [map_unmounted_mergeSort, map_unmounted_devicesOf, ← funext (offered_withTable sys table)]
  unfold devicesOf
  rw [hmounts]

theorem isSourceDrive_of_mem_unmounted {devices : List Device} {device : Device}
    (h : device ∈ devices.map Device.unmounted) (canonicalize : Path → Option Path) (image : Path) :
    isSourceDrive canonicalize device image = false := by
  obtain ⟨_, -, rfl⟩ := List.mem_map.1 h
  rfl

/-- The mount table decides the mount points of the list and nothing else about it; a table that is
not UTF-8 leaves every device without mount points, and so no device is refused as the source. -/
theorem enumerate_withTable (sys : System ε) (table : List UInt8) :
    (enumerate .linux (sys.withTable table)).map (List.map Device.unmounted) =
        (enumerate .linux sys).map (List.map Device.unmounted) ∧
      (¬ Utf8.Valid table → enumerate .linux (sys.withTable table) =
          (enumerate .linux sys).map (List.map Device.unmounted) ∧
        ∀ devices, enumerate .linux (sys.withTable table) = .ok devices →
          ∀ device ∈ devices, ∀ canonicalize image,
            isSourceDrive canonicalize device image = false) := by
  have hnames : listedNames (sys.withTable table) = listedNames sys := rfl
  show (Linux.enumerate (sys.withTable table)).map _ = (Linux.enumerate sys).map _ ∧
    (_ → Linux.enumerate (sys.withTable table) = (Linux.enumerate sys).map _ ∧
      ∀ devices, Linux.enumerate (sys.withTable table) = .ok devices → _)
  rw [linux_enumerate_eq, linux_enumerate_eq, hnames]
  cases listedNames sys with
  | error e => exact ⟨rfl, fun _ => ⟨rfl, nofun⟩⟩
  | ok names =>
    refine ⟨congrArg Except.ok (map_unmounted_withTable sys table names), fun hinvalid => ?_⟩
    have hdevices := devicesOf_withTable_of_not_valid sys hinvalid names
    refine ⟨congrArg Except.ok hdevices, ?_⟩
    intro devices hok device hdevice canonicalize image
    obtain rfl : devices = ((devicesOf sys.toFileSystem names).mergeSort pathLe).map
        Device.unmounted := (Except.ok.inj hok).symm.trans hdevices
    exact isSourceDrive_of_mem_unmounted hdevice canonicalize image

end Osedax
