import Osedax.Device.Machine

/-!
# The files of a machine

The files that the kernel keeps for a machine (`Machine.system`) show it (`presents_system`), so
enumeration inverts the encoding of every machine: `enumerate_of_presents`.
-/

namespace Osedax

/-! ## Names of files -/

theorem bytes_attrPath (name attr : String) : (attrPath name attr).bytes =
    asBytes (sysBlock ++ "/") ++ (asBytes name ++ Path.sep :: asBytes attr) := by
  have hsep : asBytes "/" = [Path.sep] := by decide
  rw [attrPath, Path.ofString, sysBase, asBytes_append, asBytes_append, asBytes_append, hsep,
    List.append_assoc, List.append_assoc, List.singleton_append]

/-- The attribute path names the disk and the attribute. -/
theorem attrPath_inj {name name' attr attr' : String} (hname : Path.sep ∉ asBytes name)
    (hname' : Path.sep ∉ asBytes name') :
    attrPath name attr = attrPath name' attr' ↔ name = name' ∧ attr = attr' := by
  apply Iff.intro
  · intro h
    have hbytes := congrArg Path.bytes h
    rw [bytes_attrPath, bytes_attrPath, List.append_cancel_left_eq] at hbytes
    obtain ⟨rest, hrest, htail⟩ := Utf8.eq_append_of_notMem hname hbytes
    cases rest with
    | nil =>
      rw [List.append_nil] at hrest
      rw [List.nil_append, List.cons.injEq] at htail
      exact ⟨(asBytes_injective hrest).symm, asBytes_injective htail.2⟩
    | cons b rest =>
      -- the rest would start with a separator inside the other name
      obtain ⟨rfl, -⟩ := List.cons.inj htail
      rw [hrest] at hname'
      exact absurd (List.mem_append_right _ List.mem_cons_self) hname'
  · rintro ⟨rfl, rfl⟩
    rfl

theorem procMounts_ne_attrPath (name attr : String) : procMounts ≠ attrPath name attr := by
  intro h
  have hbytes : procMounts.bytes.take 2 = (attrPath name attr).bytes.take 2 := by rw [← h]
  rw [bytes_attrPath] at hbytes
  have hstart : [(0x2F : UInt8), 0x70] = [0x2F, 0x73] := hbytes
  exact absurd hstart (by decide)

namespace Disk

variable {d : Disk} {name : String}

theorem isKernelPartition (h : name ∈ d.partitionNames) : IsKernelPartition d.name name := by
  obtain ⟨n, -, rfl⟩ := List.mem_map.1 h
  refine ⟨n.repr, ?_, fun c => isDigit_of_mem_repr, rfl⟩
  intro hempty
  exact toList_repr_ne_nil n (congrArg String.toList hempty)

theorem sep_notMem_name (d : Disk) : Path.sep ∉ asBytes d.name := d.name_isFileName.sep_notMem

theorem sep_notMem_partitionName (h : name ∈ d.partitionNames) : Path.sep ∉ asBytes name := by
  obtain ⟨n, -, rfl⟩ := List.mem_map.1 h
  have hstem : Path.sep ∉ asBytes (partitionStem d.name) := by
    unfold partitionStem
    split_ifs
    · rw [asBytes_append, List.mem_append, not_or]
      exact ⟨d.sep_notMem_name, by decide⟩
    · exact d.sep_notMem_name
  rw [asBytes_append, List.mem_append, not_or]
  exact ⟨hstem, sep_notMem_repr n⟩

end Disk

theorem IsKernelPartition.ne {disk part : String} (h : IsKernelPartition disk part) :
    part ≠ disk := by
  obtain ⟨digits, hne, -, rfl⟩ := h
  intro heq
  have hlength := congrArg (fun s : String => s.toList.length) heq
  have hdigits : 0 < digits.toList.length := by
    rw [List.length_pos_iff]
    exact fun hnil => hne (String.toList_injective hnil)
  have hstem : disk.toList.length ≤ (partitionStem disk).toList.length := by
    unfold partitionStem
    split_ifs
    · rw [String.toList_append, List.length_append]
      exact Nat.le_add_right _ _
    · exact le_rfl
  simp only [String.toList_append, List.length_append] at hlength
  omega

/-- A partition has the name of no disk. -/
theorem Machine.partitionName_ne {m : Machine} {d e : Disk} {name : String} (hd : d ∈ m.disks)
    (he : e ∈ m.disks) (h : name ∈ d.partitionNames) : name ≠ e.name := by
  rintro rfl
  have hpart := Disk.isKernelPartition h
  by_cases hde : d.name = e.name
  · exact hpart.ne hde.symm
  · exact m.diskNames.not_partition d.name (List.mem_map_of_mem hd) e.name
      (List.mem_map_of_mem he) hde hpart

/-! ## The files -/

/-- The attribute files of a disk; the model is in a field of 16 bytes. -/
def Disk.attrs (d : Disk) : List (String × List UInt8) :=
  [("size", attrText d.sectors.repr),
    ("queue/logical_block_size", attrText d.logicalBlockSize.toNat.repr),
    ("queue/physical_block_size", attrText d.physicalBlockSize.toNat.repr),
    ("removable", attrText (flagText d.removable)),
    ("ro", attrText (flagText d.readOnly))] ++
  d.model.toList.map fun text => ("device/model", attrText (padded text (16 - text.length)))

namespace Machine

variable (m : Machine)

/-- Every file with its contents. -/
def files : List (Path × List UInt8) :=
  (procMounts, mountTable m.table) ::
    m.disks.flatMap fun d => d.attrs.map fun attr => (attrPath d.name attr.1, attr.2)

/-- The system with these files, a `device` link for each disk that has one and a `partition`
attribute for each partition; any other path is canonical. -/
def system (ε : Type) : System ε where
  read p := m.files.lookup p
  canonicalize p :=
    match m.disks.find? fun d => p = attrPath d.name "device" with
    | some d => d.device.map devicePath
    | none => some p
  pathExists p :=
    (m.disks.any fun d => p = attrPath d.name "device" && d.device.isSome) ||
      (m.disks.flatMap Disk.partitionNames).any fun name => p = attrPath name "partition"
  readDir _ := .ok (m.nodes.map fun name => .ok (asBytes name))

end Machine

/-! ## Reading them -/

theorem Disk.attrs_unique {d : Disk} {attr : String} {a b : List UInt8} (ha : (attr, a) ∈ d.attrs)
    (hb : (attr, b) ∈ d.attrs) : a = b := by
  have hnodup : (d.attrs.map Prod.fst).Nodup := by
    unfold Disk.attrs
    cases d.model <;> simp
  exact (Prod.mk.inj (List.inj_on_of_nodup_map hnodup ha hb rfl)).2

namespace Machine

variable {m : Machine} {ε : Type} {d : Disk} {name : String}

theorem eq_of_name_eq {d e : Disk} (hd : d ∈ m.disks) (he : e ∈ m.disks) (h : d.name = e.name) :
    d = e := List.inj_on_of_nodup_map m.names_nodup hd he h

theorem mem_files_attr_iff (hd : d ∈ m.disks) {attr : String} {contents : List UInt8} :
    (attrPath d.name attr, contents) ∈ m.files ↔ (attr, contents) ∈ d.attrs := by
  unfold files
  rw [List.mem_cons, Prod.mk.injEq, or_iff_right fun h => procMounts_ne_attrPath _ _ h.1.symm,
    List.mem_flatMap]
  apply Iff.intro
  · intro ⟨e, he, hmem⟩
    obtain ⟨⟨attr', contents'⟩, hattr, heq⟩ := List.mem_map.1 hmem
    obtain ⟨hpath, rfl⟩ := Prod.mk.inj heq
    obtain ⟨hname, rfl⟩ := (attrPath_inj e.sep_notMem_name d.sep_notMem_name).1 hpath
    rw [eq_of_name_eq hd he hname.symm]
    exact hattr
  · intro h
    exact ⟨d, hd, List.mem_map.2 ⟨(attr, contents), h, rfl⟩⟩

/-- Each attribute is read from the disk's own file. -/
theorem read_attr (hd : d ∈ m.disks) {attr : String} {contents : List UInt8}
    (h : (attr, contents) ∈ d.attrs) :
    (m.system ε).read (attrPath d.name attr) = some contents :=
  Collect.lookup_eq_some_of_mem ((mem_files_attr_iff hd).2 h) fun _ hb =>
    Disk.attrs_unique ((mem_files_attr_iff hd).1 hb) h

theorem read_model (hd : d ∈ m.disks) :
    ∃ padding, (m.system ε).read (attrPath d.name "device/model") =
      d.model.map fun text => attrText (padded text padding) := by
  cases hmodel : d.model with
  | some text =>
    refine ⟨16 - text.length, read_attr hd ?_⟩
    simp [Disk.attrs, hmodel]
  | none =>
    refine ⟨0, ?_⟩
    apply Collect.lookup_eq_none_of_notMem
    intro contents hmem
    have hattr := (mem_files_attr_iff hd).1 hmem
    simp [Disk.attrs, hmodel] at hattr

/-- What exists: the links of the disks that have one, and the files that mark partitions. -/
theorem pathExists_iff {p : Path} : (m.system ε).pathExists p ↔
    (∃ d ∈ m.disks, p = attrPath d.name "device" ∧ d.device.isSome) ∨
      ∃ name ∈ m.disks.flatMap Disk.partitionNames, p = attrPath name "partition" := by
  show ((m.disks.any fun d => p = attrPath d.name "device" && d.device.isSome) ||
    (m.disks.flatMap Disk.partitionNames).any fun name => p = attrPath name "partition") = true ↔ _
  simp only [Bool.or_eq_true, List.any_eq_true, Bool.and_eq_true, decide_eq_true_eq]

theorem sep_notMem_of_mem_partitionNames (h : name ∈ m.disks.flatMap Disk.partitionNames) :
    Path.sep ∉ asBytes name := by
  obtain ⟨d, -, hname⟩ := List.mem_flatMap.1 h
  exact Disk.sep_notMem_partitionName hname

theorem pathExists_device (hd : d ∈ m.disks) :
    (m.system ε).pathExists (attrPath d.name "device") = d.device.isSome := by
  rw [Bool.eq_iff_iff, pathExists_iff]
  apply Iff.intro
  · rintro (⟨e, he, hpath, hlink⟩ | ⟨name, hname, hpath⟩)
    · rwa [eq_of_name_eq hd he ((attrPath_inj d.sep_notMem_name e.sep_notMem_name).1 hpath).1]
    · have hattr := ((attrPath_inj d.sep_notMem_name
        (sep_notMem_of_mem_partitionNames hname)).1 hpath).2
      exact absurd hattr (by decide)
  · exact fun hlink => Or.inl ⟨d, hd, rfl, hlink⟩

theorem pathExists_partition (hname : Path.sep ∉ asBytes name) :
    (m.system ε).pathExists (attrPath name "partition") ↔
      name ∈ m.disks.flatMap Disk.partitionNames := by
  rw [pathExists_iff]
  apply Iff.intro
  · rintro (⟨e, -, hpath, -⟩ | ⟨part, hpart, hpath⟩)
    · exact absurd ((attrPath_inj hname e.sep_notMem_name).1 hpath).2 (by decide)
    · rwa [((attrPath_inj hname (sep_notMem_of_mem_partitionNames hpart)).1 hpath).1]
  · exact fun h => Or.inr ⟨name, h, rfl⟩

theorem canonicalize_device (hd : d ∈ m.disks) :
    (m.system ε).canonicalize (attrPath d.name "device") = d.device.map devicePath := by
  have hfind : m.disks.find? (fun e => attrPath d.name "device" = attrPath e.name "device") =
      some d := by
    cases h : m.disks.find? (fun e => attrPath d.name "device" = attrPath e.name "device") with
    | none =>
      have hnone := List.find?_eq_none.1 h d hd
      exact absurd (decide_eq_true rfl) hnone
    | some e =>
      have hpath := List.find?_some h
      have hname := ((attrPath_inj d.sep_notMem_name e.sep_notMem_name).1
        (of_decide_eq_true hpath)).1
      rw [eq_of_name_eq hd (List.mem_of_find?_eq_some h) hname]
  show (match m.disks.find? (fun e => attrPath d.name "device" = attrPath e.name "device") with
    | some d => d.device.map devicePath
    | none => some (attrPath d.name "device")) = d.device.map devicePath
  rw [hfind]

theorem hasTable_system (m : Machine) (ε : Type) : HasTable (m.system ε).toFileSystem m.table := by
  have htable : (procMounts, mountTable m.table) ∈ m.files := List.mem_cons_self
  apply Collect.lookup_eq_some_of_mem htable
  intro contents hmem
  rcases List.mem_cons.1 hmem with heq | hmem
  · exact (Prod.mk.inj heq).2
  · obtain ⟨d, -, hattr⟩ := List.mem_flatMap.1 hmem
    obtain ⟨attr, -, heq⟩ := List.mem_map.1 hattr
    exact absurd (Prod.mk.inj heq).1.symm (procMounts_ne_attrPath _ _)

end Machine

theorem deviceLink_eq (name : String) :
    Path.ofString (sysBase name ++ "/device") = attrPath name "device" := by
  rw [attrPath, String.append_assoc]
  rfl

theorem partitionFile_eq (name : String) :
    Path.ofString (sysBase name ++ "/partition") = attrPath name "partition" := by
  rw [attrPath, String.append_assoc]
  rfl

/-- The files show the machine. -/
theorem presents_system (m : Machine) (ε : Type) : Presents (m.system ε) m where
  nodes := ⟨_, List.Perm.refl _, by rw [List.map_map]; rfl⟩
  mounts := m.hasTable_system ε
  disk d hd := by
    rw [partitionFile_eq, ← Bool.not_eq_true, Machine.pathExists_partition d.sep_notMem_name]
    intro hmem
    obtain ⟨e, he, hname⟩ := List.mem_flatMap.1 hmem
    exact Machine.partitionName_ne he hd hname rfl
  partition d hd name hname := by
    rw [partitionFile_eq, Machine.pathExists_partition (Disk.sep_notMem_partitionName hname)]
    exact List.mem_flatMap.2 ⟨d, hd, hname⟩
  size d hd := Machine.read_attr hd (by simp [Disk.attrs])
  logicalBlockSize d hd := Machine.read_attr hd (by simp [Disk.attrs])
  physicalBlockSize d hd := Machine.read_attr hd (by simp [Disk.attrs])
  removable d hd := Machine.read_attr hd (by simp [Disk.attrs])
  readOnly d hd := Machine.read_attr hd (by simp [Disk.attrs])
  model d hd := Machine.read_model hd
  device d hd := by rw [deviceLink_eq, Machine.canonicalize_device hd]
  deviceExists d hd := by rw [deviceLink_eq, Machine.pathExists_device hd]

/-- What the kernel shows of a machine is read back: `enumerate` returns the disks of the machine
that can be flashed, each as it is, in strict order of their paths. -/
theorem enumerate_of_presents {ε : Type} {sys : System ε} {m : Machine} (h : Presents sys m) :
    enumerate .linux sys = .ok m.listing ∧ InPathOrder m.listing ∧
      (∀ device, device ∈ m.listing ↔
        ∃ d ∈ m.disks, d.driver = .disk ∧ device = m.view d) ∧
      ∀ d ∈ m.disks, (m.view d).size.toNat = d.sectors * 512 :=
  ⟨h.enumerate_eq, m.inPathOrder_listing, fun _ => m.mem_listing_iff,
    fun d _ => toNat_view_size m d⟩

/-! ## A sample -/

/-- A fixed disk with a home directory. -/
def sampleDisk : Disk where
  name := "sda"
  driver := .disk
  sectors := 1000215216
  logicalBlockSize := 512
  physicalBlockSize := 4096
  removable := false
  readOnly := false
  model := some "Samsung SSD 860"
  device := some [.other (asBytes "ata1") ⟨by decide, by decide, by decide, by decide⟩ nofun]
  partitions := [1, 2]
  name_isFileName := ⟨by decide, by decide, by decide, by decide⟩
  name_driver other := by cases other <;> decide
  sectors_lt := by decide
  model_trimmed text htext := by
    obtain rfl := Option.some.inj htext
    decide

/-- A stick on a USB port. -/
def sampleStick : Disk where
  name := "sdb"
  driver := .disk
  sectors := 31266816
  logicalBlockSize := 512
  physicalBlockSize := 512
  removable := true
  readOnly := false
  model := some "Cruzer Blade"
  device := some [.usbHub 1]
  partitions := [1]
  name_isFileName := ⟨by decide, by decide, by decide, by decide⟩
  name_driver other := by cases other <;> decide
  sectors_lt := by decide
  model_trimmed text htext := by
    obtain rfl := Option.some.inj htext
    decide

/-- The home directories. -/
def homeMount : KernelMount where
  name := "sda2"
  mountPoint := "/home"
  fsType := "ext4"
  options := "rw,relatime"
  name_ne_empty := by decide
  name_plain := by
    have hall : ("sda2".toList.all fun c =>
      c.toNat < 0x80 ∧ isWhitespace c = false ∧ c ≠ '\\') = true := by decide
    intro c hc
    exact of_decide_eq_true (List.all_eq_true.1 hall c hc)
  mountPoint_absolute := by decide
  mountPoint_noNul := by decide
  fsType_oneLine := by decide
  options_oneLine := by decide

/-- The stick, mounted where its label has a space. -/
def stickMount : KernelMount where
  name := "sdb1"
  mountPoint := "/mnt/My Disk"
  fsType := "exfat"
  options := "rw,uid=1000"
  name_ne_empty := nbspMount.name_ne_empty
  name_plain := nbspMount.name_plain
  mountPoint_absolute := by decide
  mountPoint_noNul := by decide
  fsType_oneLine := by decide
  options_oneLine := by decide

/-- A line for no block device. -/
def procLine : TableLine :=
  .other "proc /proc proc rw,nosuid 0 0" (by decide) (mountOfLine_eq_none_iff.1 (by decide))

def sampleTable : List TableLine := [procLine, .block homeMount, .block stickMount]

theorem clean_sampleTable : CleanTable sampleTable := by
  have hhome : homeMount.mountPoint.toList.all isKept = true := by decide
  have hstick : stickMount.mountPoint.toList.all isKept = true := by decide
  intro line hline mount hmount
  have hmem : mount ∈ sampleTable.filterMap TableLine.mount :=
    List.mem_filterMap.2 ⟨line, hline, hmount⟩
  have hmounts : sampleTable.filterMap TableLine.mount = [homeMount, stickMount] := rfl
  rw [hmounts, List.mem_cons, List.mem_singleton] at hmem
  rcases hmem with rfl | rfl
  · exact List.all_eq_true.1 hhome
  · exact List.all_eq_true.1 hstick

def sampleMachine : Machine where
  disks := [sampleStick, sampleDisk]
  table := sampleTable
  names_nodup := by decide
  diskNames := by
    have hnot : ∀ d ∈ ["sdb", "sda"], ∀ e ∈ ["sdb", "sda"], d ≠ e → ¬ isPartitionOf d e := by decide
    have hconcat : ∀ d ∈ ["sdb", "sda"], ∀ e ∈ ["sdb", "sda"], endsWithDigit d → e ≠ d ++ "p" := by
      decide
    exact ⟨fun d hd e he hne hpart => hnot d hd e he hne (isPartitionOf_iff.2 hpart), hconcat⟩
  clean := clean_sampleTable

theorem enumerate_sampleMachine :
    enumerate .linux (sampleMachine.system Unit) = .ok sampleMachine.listing ∧
    sampleMachine.view sampleStick ∈ sampleMachine.listing := by
  obtain ⟨hok, -, hmem, -⟩ := enumerate_of_presents (presents_system sampleMachine Unit)
  exact ⟨hok, (hmem _).2 ⟨sampleStick, List.mem_cons_self, rfl, rfl⟩⟩

end Osedax
