import Osedax.Device.Sysfs

/-!
# Disks that come and go

A device is built from the directory of its disk and from the disk's share of the mounts
(`SameEntry.buildDevice`).  So what is listed of the other disks stays while disks come, go and
change in any order (`enumerate_session`), and a disk that is plugged in comes into the list at its
place, whatever it shows of itself (`enumerate_plugged`).
-/

namespace Osedax

variable {ε : Type} {sys sys' : System ε} {fs : FileSystem} {names : List (List UInt8)}

/-! ## What a device depends on -/

/-- The directory of an entry in sysfs is the same in both systems. -/
structure SameEntry (fs fs' : FileSystem) (name : String) : Prop where
  read : ∀ p, p.startsWith (Path.ofString (sysBase name)) → fs'.read p = fs.read p
  canonicalize : ∀ p, p.startsWith (Path.ofString (sysBase name)) →
    fs'.canonicalize p = fs.canonicalize p
  pathExists : ∀ p, p.startsWith (Path.ofString (sysBase name)) →
    fs'.pathExists p = fs.pathExists p

section

variable {fs' : FileSystem} {name : String}

/-- Every attribute of a disk is below its directory. -/
theorem startsWith_sysBase (name attr : String) :
    (Path.ofString (sysBase name ++ "/" ++ attr)).startsWith (Path.ofString (sysBase name)) := by
  have hsep : asBytes "/" = [Path.sep] := by decide
  have hbytes : Path.ofString (sysBase name ++ "/" ++ attr) =
      ⟨asBytes (sysBase name) ++ Path.sep :: asBytes attr⟩ := by
    rw [Path.ofString, asBytes_append, asBytes_append, hsep, List.append_assoc,
      List.singleton_append]
  rw [hbytes]
  apply Path.startsWith_append
  rw [sysBase, asBytes_append, asBytes_append]
  rfl

theorem SameEntry.symm (h : SameEntry fs fs' name) : SameEntry fs' fs name where
  read p hp := (h.read p hp).symm
  canonicalize p hp := (h.canonicalize p hp).symm
  pathExists p hp := (h.pathExists p hp).symm

theorem SameEntry.readAttr (h : SameEntry fs fs' name) (attr : String) :
    Osedax.readAttr fs' (sysBase name) attr = Osedax.readAttr fs (sysBase name) attr := by
  unfold Osedax.readAttr FileSystem.readToString
  rw [h.read _ (startsWith_sysBase name attr)]

theorem SameEntry.device (h : SameEntry fs fs' name) :
    fs'.canonicalize (Path.ofString (sysBase name ++ "/device")) =
        fs.canonicalize (Path.ofString (sysBase name ++ "/device")) ∧
      fs'.pathExists (Path.ofString (sysBase name ++ "/device")) =
        fs.pathExists (Path.ofString (sysBase name ++ "/device")) := by
  rw [deviceLink_eq]
  exact ⟨h.canonicalize _ (startsWith_sysBase name _), h.pathExists _ (startsWith_sysBase name _)⟩

theorem SameEntry.isWholeDisk (h : SameEntry fs fs' name) :
    Osedax.isWholeDisk fs' name = Osedax.isWholeDisk fs name := by
  unfold Osedax.isWholeDisk
  rw [partitionFile_eq, attrPath, h.pathExists _ (startsWith_sysBase name _)]

/-- A device depends on the directory of its disk and on the disk's share of the mounts. -/
theorem SameEntry.buildDevice (h : SameEntry fs fs' name) {mounts mounts' : List (String × Path)}
    (hmounts : mountsFor name mounts' = mountsFor name mounts) :
    Osedax.buildDevice fs' name mounts' = Osedax.buildDevice fs name mounts := by
  have husb : detectUsb fs' (sysBase name) = detectUsb fs (sysBase name) := by
    unfold detectUsb
    rw [h.device.1]
  have hvirtual : detectVirtual fs' (sysBase name) = detectVirtual fs (sysBase name) := by
    unfold detectVirtual
    rw [h.device.2]
  unfold Osedax.buildDevice readNumber readFlag
  simp only [h.readAttr, husb, hvirtual, hmounts]

end

/-- The system with another mount table. -/
def System.withTable (sys : System ε) (table : List UInt8) : System ε :=
  { sys with toFileSystem := sys.toFileSystem.withFile procMounts table }

theorem hasTable_withTable (sys : System ε) (table : List TableLine) :
    HasTable (sys.withTable (mountTable table)).toFileSystem table := by
  show (if procMounts = procMounts then some (mountTable table) else sys.read procMounts) = _
  exact if_pos rfl

theorem not_startsWith_sysBase (name : String) :
    ¬ procMounts.startsWith (Path.ofString (sysBase name)) := by
  have hsep : asBytes "/" = [Path.sep] := by decide
  have hbase : Path.ofString (sysBase name) =
      ⟨(Path.ofString sysBlock).bytes ++ Path.sep :: asBytes name⟩ := by
    rw [sysBase, Path.ofString, asBytes_append, asBytes_append, hsep, List.append_assoc,
      List.singleton_append, Path.ofString]
  have hblock : (Path.ofString (sysBase name)).startsWith (Path.ofString sysBlock) := by
    rw [hbase]
    exact Path.startsWith_append (by decide) _
  have hother : ¬ (Path.ofString sysBlock).components <+: procMounts.components := by decide
  rw [Path.startsWith_iff] at hblock ⊢
  exact fun h => hother (hblock.trans h)

theorem sameEntry_withTable (sys : System ε) (table : List UInt8) (name : String) :
    SameEntry sys.toFileSystem (sys.withTable table).toFileSystem name where
  read p hp := by
    refine if_neg ?_
    rintro rfl
    exact not_startsWith_sysBase name hp
  canonicalize _ _ := rfl
  pathExists _ _ := rfl

/-! ## One disk changes -/

theorem DiskNames.mono {s t : Set String} (h : DiskNames t) (hst : s ⊆ t) : DiskNames s where
  not_partition d hd e he := h.not_partition d (hst hd) e (hst he)
  not_concat_p d hd e he := h.not_concat_p d (hst hd) e (hst he)

/-- The directory lists these entries beside those of the disk and of partitions. -/
def ListsBeside (sys : System ε) (disk : String) (others : List (List UInt8)) : Prop :=
  ∃ own names : List (List UInt8),
    (∀ name ∈ own, toStringLossy name = disk ∨
      isWholeDisk sys.toFileSystem (toStringLossy name) = false) ∧
    names.Perm (own ++ others) ∧ sys.readDir (Path.ofString sysBlock) = .ok (names.map .ok)

/-- Between the two systems one disk changed: it was plugged in or out, partitioned anew, written
to, or mounted elsewhere.  The other disks are as before, and so are the lines of the mount table
that are not of the disk. -/
structure DiskChanges (sys sys' : System ε) (disk : String) (others : List (List UInt8)) :
    Prop where
  before : ListsBeside sys disk others
  after : ListsBeside sys' disk others
  fileName : ∀ name ∈ others, Path.IsFileName name
  same : ∀ name ∈ others, SameEntry sys.toFileSystem sys'.toFileSystem (toStringLossy name)
  mounts : ∃ table table', HasTable sys.toFileSystem table ∧ HasTable sys'.toFileSystem table' ∧
    (table'.filter fun line => !line.isOf disk) = table.filter fun line => !line.isOf disk
  diskNames : DiskNames {text | text = disk ∨
    ∃ name ∈ others, isWholeDisk sys.toFileSystem (toStringLossy name) ∧ toStringLossy name = text}
  fresh : ∀ name ∈ others, toStringLossy name ≠ disk

/-- The device is of none of the disks. -/
def Device.isApart (disks : List String) (device : Device) : Bool :=
  disks.all fun disk => device.path ≠ Path.ofString ("/dev/" ++ disk)

section

variable {disk : String} {others : List (List UInt8)}

/-- What came in can go out again. -/
theorem DiskChanges.symm (h : DiskChanges sys sys' disk others) :
    DiskChanges sys' sys disk others where
  before := h.after
  after := h.before
  fileName := h.fileName
  same name hname := (h.same name hname).symm
  mounts := by
    obtain ⟨table, table', htable, htable', hlines⟩ := h.mounts
    exact ⟨table', table, htable', htable, hlines.symm⟩
  diskNames := by
    have hwhole : ∀ name ∈ others, isWholeDisk sys'.toFileSystem (toStringLossy name) =
        isWholeDisk sys.toFileSystem (toStringLossy name) :=
      fun name hname => (h.same name hname).isWholeDisk
    refine h.diskNames.mono ?_
    rintro text (rfl | ⟨name, hname, hdisk, rfl⟩)
    · exact Or.inl rfl
    · exact Or.inr ⟨name, hname, hwhole name hname ▸ hdisk, rfl⟩
  fresh := h.fresh

/-- What is read of the table is as before, but for the mounts of the disk. -/
theorem DiskChanges.filter_readMounts (h : DiskChanges sys sys' disk others) :
    (readMounts sys'.toFileSystem).filter (fun entry => ¬ OwnsNode disk entry.1) =
      (readMounts sys.toFileSystem).filter fun entry => ¬ OwnsNode disk entry.1 := by
  obtain ⟨table, table', htable, htable', hlines⟩ := h.mounts
  rw [htable.filter_readMounts, htable'.filter_readMounts, hlines]

/-- The share of another disk in the mounts is as before. -/
theorem DiskChanges.mountsFor (h : DiskChanges sys sys' disk others) {name : List UInt8}
    (hname : name ∈ others) (hdisk : isWholeDisk sys.toFileSystem (toStringLossy name)) :
    Osedax.mountsFor (toStringLossy name) (readMounts sys'.toFileSystem) =
      Osedax.mountsFor (toStringLossy name) (readMounts sys.toFileSystem) := by
  have hshare (mounts : List (String × Path)) : mounts.filter
      (fun entry => OwnsNode (toStringLossy name) entry.1) =
        (mounts.filter fun entry => ¬ OwnsNode disk entry.1).filter
          fun entry => OwnsNode (toStringLossy name) entry.1 := by
    rw [List.filter_filter]
    refine List.filter_congr fun entry _ => ?_
    by_cases hown : OwnsNode (toStringLossy name) entry.1
    · have hother : ¬ OwnsNode disk entry.1 := fun hother => h.fresh name hname
        (h.diskNames.eq_of_ownsNode (Or.inr ⟨name, hname, hdisk, rfl⟩) (Or.inl rfl) hown hother)
      simp [hown, hother]
    · simp [hown]
  rw [mountsFor_eq, mountsFor_eq, hshare, h.filter_readMounts, ← hshare]

theorem DiskChanges.offered_eq (h : DiskChanges sys sys' disk others) {name : List UInt8}
    (hname : name ∈ others) :
    offered sys'.toFileSystem (readMounts sys'.toFileSystem) name =
      offered sys.toFileSystem (readMounts sys.toFileSystem) name := by
  have hsame := h.same name hname
  unfold offered
  rw [hsame.isWholeDisk]
  by_cases hdisk : isWholeDisk sys.toFileSystem (toStringLossy name)
  · rw [hsame.buildDevice (h.mountsFor hname hdisk)]
  · simp [hdisk]

theorem DiskChanges.devicesOf_eq (h : DiskChanges sys sys' disk others) :
    devicesOf sys'.toFileSystem others = devicesOf sys.toFileSystem others :=
  List.filterMap_congr fun _ hname => h.offered_eq hname

/-- What is listed apart from the disk comes from the other entries. -/
theorem ListsBeside.filter_enumerate (h : ListsBeside sys disk others)
    (hfile : ∀ name ∈ others, Path.IsFileName name) {p : Device → Bool}
    (hp : ∀ device, device.path = Path.ofString ("/dev/" ++ disk) → p device = false) :
    ∃ devices, enumerate .linux sys = .ok devices ∧
      devices.filter p = ((devicesOf sys.toFileSystem others).filter p).mergeSort pathLe := by
  obtain ⟨own, names, hown, hperm, hread⟩ := h
  have hnone : (devicesOf sys.toFileSystem own).filter p = [] := by
    rw [List.filter_eq_nil_iff]
    intro device hdevice
    obtain ⟨name, hname, hoffered⟩ := List.mem_filterMap.1 hdevice
    rw [Bool.not_eq_true]
    rcases hown name hname with rfl | hpart
    · exact hp device (path_of_offered hoffered)
    · have hwhole := (offered_eq_some_iff.1 hoffered).1
      rw [hpart] at hwhole
      contradiction
  have hdevices : ((devicesOf sys.toFileSystem names).filter p).Perm
      ((devicesOf sys.toFileSystem others).filter p) := by
    have hall : (devicesOf sys.toFileSystem names).Perm
        (devicesOf sys.toFileSystem own ++ devicesOf sys.toFileSystem others) := by
      rw [devicesOf, devicesOf, devicesOf, ← List.filterMap_append]
      exact hperm.filterMap _
    have hfilter := hall.filter p
    rwa [List.filter_append, hnone, List.nil_append] at hfilter
  have hsep : Collect.Separates pathLe ((devicesOf sys.toFileSystem others).filter p) :=
    fun a b ha hb => separates_devicesOf hfile a b (List.mem_filter.1 ha).1 (List.mem_filter.1 hb).1
  exact ⟨_, enumerate_linux_of_names hread,
    Collect.filter_mergeSort_eq pathLe_trans pathLe_total hsep hdevices⟩

/-- A change of one disk leaves the rest of the list as it is. -/
theorem DiskChanges.filter_enumerate (h : DiskChanges sys sys' disk others) {p : Device → Bool}
    (hp : ∀ device, device.path = Path.ofString ("/dev/" ++ disk) → p device = false) :
    ∃ devices devices', enumerate .linux sys = .ok devices ∧ enumerate .linux sys' = .ok devices' ∧
      devices'.filter p = devices.filter p := by
  obtain ⟨devices, hok, hfilter⟩ := h.before.filter_enumerate h.fileName hp
  obtain ⟨devices', hok', hfilter'⟩ := h.after.filter_enumerate h.fileName hp
  exact ⟨devices, devices', hok, hok', by rw [hfilter, hfilter', h.devicesOf_eq]⟩

end

/-! ## Sessions -/

/-- One disk after the other changes. -/
inductive Session : System ε → List String → System ε → Prop
  | done (sys : System ε) : Session sys [] sys
  | change {sys sys' sys'' : System ε} {disk : String} {others : List (List UInt8)}
      {disks : List String} (h : DiskChanges sys sys' disk others)
      (rest : Session sys' disks sys'') : Session sys (disk :: disks) sys''

theorem Session.filter_enumerate {disks : List String} (h : Session sys disks sys')
    {p : Device → Bool} (hp : ∀ disk ∈ disks, ∀ device : Device,
      device.path = Path.ofString ("/dev/" ++ disk) → p device = false) {devices : List Device}
    (hok : enumerate .linux sys = .ok devices) :
    ∃ devices', enumerate .linux sys' = .ok devices' ∧ devices'.filter p = devices.filter p := by
  induction h generalizing devices with
  | done sys => exact ⟨devices, hok, rfl⟩
  | @change sys sys' sys'' disk others disks hchange rest ih =>
    obtain ⟨hdisk, hdisks⟩ := List.forall_mem_cons.1 hp
    obtain ⟨devices₀, devices₁, hok₀, hok₁, hfilter⟩ := hchange.filter_enumerate hdisk
    obtain rfl : devices₀ = devices := Except.ok.inj (hok₀.symm.trans hok)
    obtain ⟨devices', hok', hfilter'⟩ := ih hdisks hok₁
    exact ⟨devices', hok', hfilter'.trans hfilter⟩

/-- Whatever disks come, go and change, and in whatever order, what is listed of the others stays:
the same devices, in the same order. -/
theorem enumerate_session {disks : List String} {devices : List Device}
    (h : Session sys disks sys') (hok : enumerate .linux sys = .ok devices) :
    ∃ devices', enumerate .linux sys' = .ok devices' ∧
      devices'.filter (Device.isApart disks) = devices.filter (Device.isApart disks) := by
  refine h.filter_enumerate (fun disk hdisk device hpath => ?_) hok
  rw [Device.isApart, List.all_eq_false]
  exact ⟨disk, hdisk, by simp [hpath]⟩

/-! ## Plugging in -/

/-- Between the two systems the disk of the entry `new` was plugged in, with the entries `parts` of
its partitions: the other entries are as before, and so is the mount table, but for the lines of the
new disk. -/
structure Plugged (sys sys' : System ε) (new : List UInt8) (parts names : List (List UInt8)) :
    Prop where
  before : sys.readDir (Path.ofString sysBlock) = .ok (names.map .ok)
  after : ∃ names' : List (List UInt8), names'.Perm (new :: parts ++ names) ∧
    sys'.readDir (Path.ofString sysBlock) = .ok (names'.map .ok)
  fileName : ∀ name ∈ new :: names, Path.IsFileName name
  parts : ∀ part ∈ parts, isWholeDisk sys'.toFileSystem (toStringLossy part) = false
  same : ∀ name ∈ names, SameEntry sys.toFileSystem sys'.toFileSystem (toStringLossy name)
  mounts : ∃ table table', HasTable sys.toFileSystem table ∧ HasTable sys'.toFileSystem table' ∧
    (table'.filter fun line => !line.isOf (toStringLossy new)) = table
  diskNames : DiskNames {text | text = toStringLossy new ∨
    ∃ name ∈ names, isWholeDisk sys.toFileSystem (toStringLossy name) ∧ toStringLossy name = text}
  fresh : ∀ name ∈ names, toStringLossy name ≠ toStringLossy new

section

variable {new : List UInt8} {parts : List (List UInt8)}

/-- Plugging in is a change of one disk. -/
theorem Plugged.diskChanges (h : Plugged sys sys' new parts names) :
    DiskChanges sys sys' (toStringLossy new) names where
  before := ⟨[], names, fun name hname => absurd hname List.not_mem_nil, List.Perm.refl _, h.before⟩
  after := by
    obtain ⟨names', hperm, hread⟩ := h.after
    refine ⟨new :: parts, names', ?_, hperm, hread⟩
    exact List.forall_mem_cons.2 ⟨Or.inl rfl, fun part hpart => Or.inr (h.parts part hpart)⟩
  fileName name hname := h.fileName name (List.mem_cons_of_mem new hname)
  same := h.same
  mounts := by
    obtain ⟨table, table', htable, htable', rfl⟩ := h.mounts
    refine ⟨_, table', htable, htable', ?_⟩
    simp only [List.filter_filter, Bool.and_self]
  diskNames := h.diskNames
  fresh := h.fresh

end

/-- The entries of the sample machine without its stick. -/
def diskEntries : List (List UInt8) := ["sda", "sda1", "sda2"].map asBytes

/-- The sample machine before its stick is plugged in and mounted. -/
def withoutStick : System Unit :=
  { (sampleMachine.system Unit).withTable (mountTable [procLine, .block homeMount]) with
    readDir := fun _ => .ok (diskEntries.map .ok) }

theorem isWholeDisk_sampleMachine {name : List UInt8} (hname : name ∈ diskEntries)
    (hdisk : isWholeDisk (sampleMachine.system Unit).toFileSystem (toStringLossy name)) :
    toStringLossy name = "sda" := by
  have hfiles : Presents (sampleMachine.system Unit) sampleMachine := presents_system _ _
  have hmem : sampleDisk ∈ sampleMachine.disks := List.mem_cons_of_mem _ List.mem_cons_self
  have hpart {part : String} (hpart : part ∈ sampleDisk.partitionNames) :
      isWholeDisk (sampleMachine.system Unit).toFileSystem part = false :=
    congrArg not (hfiles.partition sampleDisk hmem part hpart)
  obtain ⟨text, htext, rfl⟩ := List.mem_map.1 hname
  rw [toStringLossy_asBytes] at hdisk ⊢
  simp only [List.mem_cons, List.not_mem_nil, or_false] at htext
  rcases htext with rfl | rfl | rfl
  · rfl
  · rw [hpart (by decide)] at hdisk
    contradiction
  · rw [hpart (by decide)] at hdisk
    contradiction

theorem plugged_withoutStick :
    Plugged withoutStick (sampleMachine.system Unit) (asBytes "sdb") [asBytes "sdb1"]
      diskEntries := by
  have hfiles : Presents (sampleMachine.system Unit) sampleMachine := presents_system _ _
  constructor
  · rfl
  · refine ⟨sampleMachine.nodes.map asBytes, by decide, ?_⟩
    rw [List.map_map]
    rfl
  · simp only [diskEntries, List.map_cons, List.map_nil, List.forall_mem_cons]
    refine ⟨⟨?_, ?_, ?_, ?_⟩, ⟨?_, ?_, ?_, ?_⟩, ⟨?_, ?_, ?_, ?_⟩, ⟨?_, ?_, ?_, ?_⟩,
      fun name hname => absurd hname List.not_mem_nil⟩
    all_goals decide
  · rw [List.forall_mem_singleton, toStringLossy_asBytes]
    exact congrArg not (hfiles.partition sampleStick List.mem_cons_self "sdb1" (by decide))
  · intro name _
    exact (sameEntry_withTable (sampleMachine.system Unit)
      (mountTable [procLine, .block homeMount]) (toStringLossy name)).symm
  · refine ⟨_, sampleTable, hasTable_withTable _ _, hfiles.mounts, ?_⟩
    rw [toStringLossy_asBytes]
    rfl
  · refine sampleMachine.diskNames.mono ?_
    rintro text (rfl | ⟨name, hname, hdisk, rfl⟩)
    · rw [toStringLossy_asBytes]
      exact List.mem_cons_self
    · rw [isWholeDisk_sampleMachine hname hdisk]
      exact List.mem_cons_of_mem _ List.mem_cons_self
  · intro name hname
    obtain ⟨text, htext, rfl⟩ := List.mem_map.1 hname
    simp only [toStringLossy_asBytes]
    rintro rfl
    exact absurd htext (by decide)

/-- Pulling the stick out again. -/
theorem enumerate_session_withoutStick : ∃ devices, enumerate .linux withoutStick = .ok devices ∧
    devices.filter (Device.isApart ["sdb"]) =
      sampleMachine.listing.filter (Device.isApart ["sdb"]) := by
  have hpulled : DiskChanges (sampleMachine.system Unit) withoutStick "sdb" diskEntries := by
    rw [← toStringLossy_asBytes "sdb"]
    exact plugged_withoutStick.diskChanges.symm
  exact enumerate_session (.change hpulled (.done withoutStick))
    (presents_system sampleMachine Unit).enumerate_eq

end Osedax
