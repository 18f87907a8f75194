import Osedax.Device.Enumerate
import Osedax.Device.RootDisk

/-!
# The list of disks

What `enumerate` returns for any contents of sysfs and of the mount table: the devices of the whole
disks in strict order of their paths (`enumerate_eq_ok_iff`), whatever the order of the directory
(`enumerate_perm`), or the first error (`enumerate_eq_error_iff`).
-/

namespace Osedax

variable {ε : Type} {sys : System ε} {fs : FileSystem} {mounts : List (String × Path)}
  {names : List (List UInt8)} {devices : List Device}

/-! ## Paths of the devices -/

/-- The text of a file name is a file name. -/
theorem isFileName_toStringLossy {name : List UInt8} (h : Path.IsFileName name) :
    Path.IsFileName (asBytes (toStringLossy name)) where
  ne_nil := by
    obtain ⟨first, rest, rfl⟩ := List.exists_cons_of_ne_nil h.ne_nil
    rw [toStringLossy, asBytes_ofList, lossyChars, Utf8.encode_cons]
    exact List.append_ne_nil_of_left_ne_nil String.utf8EncodeChar_ne_nil _
  ne_dot heq := h.ne_dot (eq_asBytes_of_toStringLossy (by decide) (asBytes_injective heq))
  ne_dotDot heq := h.ne_dotDot (eq_asBytes_of_toStringLossy (by decide) (asBytes_injective heq))
  sep_notMem hmem := h.sep_notMem (mem_of_mem_asBytes_toStringLossy (by decide) hmem)

theorem offered_eq_some_iff {name : List UInt8} {device : Device} :
    offered fs mounts name = some device ↔ isWholeDisk fs (toStringLossy name) ∧
      ¬ isPseudoDevice (toStringLossy name) ∧
        buildDevice fs (toStringLossy name) mounts = some device := by
  simp only [offered, Option.ite_none_right_eq_some, and_assoc]

theorem path_of_offered {name : List UInt8} {device : Device}
    (h : offered fs mounts name = some device) :
    device.path = Path.ofString ("/dev/" ++ toStringLossy name) := by
  obtain ⟨-, -, hbuild⟩ := offered_eq_some_iff.1 h
  obtain ⟨-, -, hpath, -⟩ := exists_size_of_buildDevice hbuild
  exact hpath

/-- A device of the list was built for the name in its path. -/
theorem exists_buildDevice_of_mem (hok : enumerate .linux sys = .ok devices)
    {device : Device}
    (hdevice : device ∈ devices) : ∃ name, device.path = Path.ofString ("/dev/" ++ name) ∧
      buildDevice sys.toFileSystem name (readMounts sys.toFileSystem) = some device := by
  obtain ⟨entry, hoffered⟩ := exists_offered_of_mem hok hdevice
  exact ⟨toStringLossy entry, path_of_offered hoffered, (offered_eq_some_iff.1 hoffered).2.2⟩

/-- The path shows the text of the entry that a device is offered for. -/
theorem components_of_offered {name : List UInt8} {device : Device} (hname : Path.IsFileName name)
    (h : offered fs mounts name = some device) : device.path.components =
      [.rootDir, .normal (asBytes "dev"), .normal (asBytes (toStringLossy name))] := by
  rw [path_of_offered h, Path.ofString, asBytes_append,
    Path.components_dev (isFileName_toStringLossy hname)]

theorem offered_eq_of_text {a b : List UInt8} (h : toStringLossy a = toStringLossy b) :
    offered fs mounts a = offered fs mounts b := by
  unfold offered
  rw [h]

theorem text_eq_of_components {a b : List UInt8} {x y : Device} (ha : Path.IsFileName a)
    (hb : Path.IsFileName b) (hx : offered fs mounts a = some x) (hy : offered fs mounts b = some y)
    (h : x.path.components = y.path.components) : toStringLossy a = toStringLossy b := by
  rw [components_of_offered ha hx, components_of_offered hb hy] at h
  simp only [List.cons.injEq, Component.normal.injEq, true_and, and_true] at h
  exact asBytes_injective h

theorem pathLe_trans (a b c : Device) (h : pathLe a b = true) (k : pathLe b c = true) :
    pathLe a c = true := Path.le_trans' h k

theorem pathLe_total (a b : Device) : (pathLe a b || pathLe b a) = true :=
  Path.le_total' a.path b.path

/-- Devices with the same place in the order are the same. -/
theorem separates_devicesOf (hnames : ∀ name ∈ names, Path.IsFileName name) :
    Collect.Separates pathLe (devicesOf fs names) := by
  intro x y hx hy hxy hyx
  obtain ⟨a, ha, hx⟩ := List.mem_filterMap.1 hx
  obtain ⟨b, hb, hy⟩ := List.mem_filterMap.1 hy
  have hpath : x.path.components = y.path.components :=
    Path.beq_iff.1 (Path.le_and_le_iff.1 ⟨hxy, hyx⟩)
  have htext := text_eq_of_components (hnames a ha) (hnames b hb) hx hy hpath
  rw [offered_eq_of_text htext, hy] at hx
  exact (Option.some.inj hx).symm

/-! ## The list -/

/-- The order of the directory does not show in the list. -/
theorem enumerate_perm {sys' : System ε} {names' : List (List UInt8)}
    (hsys : sys'.toFileSystem = sys.toFileSystem) (hnames : ∀ name ∈ names, Path.IsFileName name)
    (h : sys.readDir (Path.ofString sysBlock) = .ok (names.map .ok))
    (h' : sys'.readDir (Path.ofString sysBlock) = .ok (names'.map .ok))
    (hperm : names.Perm names') : enumerate .linux sys = enumerate .linux sys' := by
  have hdevices : (devicesOf sys.toFileSystem names').Perm (devicesOf sys.toFileSystem names) :=
    hperm.symm.filterMap _
  rw [enumerate_linux_of_names h, enumerate_linux_of_names h', hsys,
    Collect.mergeSort_eq_of_perm pathLe_trans pathLe_total (separates_devicesOf hnames) hdevices]

/-- The live system, with these entries for disks. -/
def liveSystem (names : List (List UInt8)) : System Unit :=
  { liveUsb with readDir := fun _ => .ok (names.map .ok) }

theorem enumerate_perm_liveSystem : enumerate .linux (liveSystem [asBytes "sda", asBytes "sdb"]) =
    enumerate .linux (liveSystem [asBytes "sdb", asBytes "sda"]) := by
  refine enumerate_perm rfl ?_ rfl rfl (List.Perm.swap _ _ _)
  rw [List.forall_mem_cons, List.forall_mem_singleton]
  exact ⟨⟨by decide, by decide, by decide, by decide⟩, ⟨by decide, by decide, by decide, by decide⟩⟩

/-- The directory lists these names, in some order, as a file system can. -/
structure ListsNames (sys : System ε) (names : List (List UInt8)) : Prop where
  readDir : sys.readDir (Path.ofString sysBlock) = .ok (names.map .ok)
  fileName : ∀ name ∈ names, Path.IsFileName name
  nodup : names.Nodup
  utf8 : ∀ name ∈ names, Utf8.Valid name

theorem ListsNames.text_injective (h : ListsNames sys names) {a b : List UInt8} (ha : a ∈ names)
    (hb : b ∈ names) (htext : toStringLossy a = toStringLossy b) : a = b := by
  rw [← asBytes_toStringLossy_eq_iff.2 (h.utf8 a ha), htext,
    asBytes_toStringLossy_eq_iff.2 (h.utf8 b hb)]

theorem ListsNames.nodup_devicesOf (h : ListsNames sys names) : (devicesOf fs names).Nodup := by
  unfold devicesOf
  refine (List.pairwise_filterMap.2 ?_ : List.Pairwise (· ≠ ·) _)
  refine h.nodup.imp_of_mem ?_
  rintro a b ha hb hne x hx y hy rfl
  exact hne (h.text_injective ha hb
    (text_eq_of_components (h.fileName a ha) (h.fileName b hb) hx hy rfl))

/-- The order of the list is strict. -/
def InPathOrder (devices : List Device) : Prop := devices.Pairwise fun a b => pathLe b a = false

/-- Lists in strict order with the same devices are the same. -/
theorem InPathOrder.eq_of_mem_iff {devices' : List Device} (h : InPathOrder devices)
    (h' : InPathOrder devices') (hmem : ∀ device, device ∈ devices ↔ device ∈ devices') :
    devices = devices' := by
  have hne {a b : Device} (hlt : pathLe b a = false) : a ≠ b := by
    rintro rfl
    have hrefl := pathLe_total a a
    rw [Bool.or_self, hlt] at hrefl
    contradiction
  have hperm : devices.Perm devices' :=
    (List.perm_ext_iff_of_nodup (h.imp hne) (h'.imp hne)).2 hmem
  have hasymm : ∀ a b, a ∈ devices → b ∈ devices' → pathLe b a = false → pathLe a b = false →
      a = b := by
    intro a b _ _ hba hab
    have htotal := pathLe_total a b
    rw [hab, hba] at htotal
    contradiction
  exact hperm.eq_of_pairwise hasymm h h'

/-- The list is the devices of the whole disks that are no pseudo-devices and have a readable size,
in strict order of their paths. -/
theorem enumerate_eq_ok_iff (h : ListsNames sys names) : enumerate .linux sys = .ok devices ↔
    InPathOrder devices ∧ ∀ device, device ∈ devices ↔ ∃ name ∈ names,
      isWholeDisk sys.toFileSystem (toStringLossy name) ∧ ¬ isPseudoDevice (toStringLossy name) ∧
        buildDevice sys.toFileSystem (toStringLossy name) (readMounts sys.toFileSystem) =
          some device := by
  have hsorted : InPathOrder ((devicesOf sys.toFileSystem names).mergeSort pathLe) :=
    Collect.pairwise_lt_mergeSort pathLe_trans pathLe_total (separates_devicesOf h.fileName)
      h.nodup_devicesOf
  have hmem (device : Device) : device ∈ (devicesOf sys.toFileSystem names).mergeSort pathLe ↔
      ∃ name ∈ names, isWholeDisk sys.toFileSystem (toStringLossy name) ∧
        ¬ isPseudoDevice (toStringLossy name) ∧
          buildDevice sys.toFileSystem (toStringLossy name) (readMounts sys.toFileSystem) =
            some device := by
    simp only [List.mem_mergeSort, devicesOf, List.mem_filterMap, offered_eq_some_iff]
  rw [enumerate_linux_of_names h.readDir, Except.ok.injEq]
  apply Iff.intro
  · rintro rfl
    exact ⟨hsorted, hmem⟩
  · intro ⟨horder, hdevices⟩
    exact hsorted.eq_of_mem_iff horder fun device => (hmem device).trans (hdevices device).symm

theorem listsNames_liveSystem : ListsNames (liveSystem [asBytes "sdb"]) [asBytes "sdb"] where
  readDir := rfl
  fileName := List.forall_mem_singleton.2 ⟨by decide, by decide, by decide, by decide⟩
  nodup := List.nodup_singleton _
  utf8 := List.forall_mem_singleton.2 ⟨"sdb".toList, (asBytes_eq_encode "sdb").symm⟩

/-- The live stick is listed, without mount points where there is no table. -/
theorem enumerate_eq_ok_iff_liveSystem : ∃ devices,
    enumerate .linux (liveSystem [asBytes "sdb"]) = .ok devices ∧ InPathOrder devices ∧
      { liveStick with mountpoints := [] } ∈ devices := by
  have hok : enumerate .linux (liveSystem [asBytes "sdb"]) = .ok _ := enumerate_linux_of_names rfl
  obtain ⟨horder, hmem⟩ := (enumerate_eq_ok_iff listsNames_liveSystem).1 hok
  refine ⟨_, hok, horder, (hmem _).2 ⟨asBytes "sdb", List.mem_cons_self, ?_⟩⟩
  rw [toStringLossy_asBytes]
  decide +kernel

/-! ## Errors -/

theorem message_unsupported_ne_io (display : ε → String) (platform : String) (error : ε) :
    EnumerateError.message display (.unsupported platform) ≠
      EnumerateError.message display (.io error) := by
  have hnotYet : "device enumeration is not yet implemented on this platform (".toList =
      "device enumeration ".toList ++ 'i' :: "s not yet implemented on this platform (".toList := by
    decide +kernel
  have hfailed : "device enumeration failed: ".toList =
      "device enumeration ".toList ++ 'f' :: "ailed: ".toList := by decide +kernel
  intro h
  have htext := congrArg String.toList h
  unfold EnumerateError.message at htext
  rw [String.toList_append, String.toList_append, String.toList_append, hnotYet, hfailed,
    List.append_assoc, List.append_assoc, List.append_assoc, List.append_cancel_left_eq,
    List.cons_append, List.cons_append, List.cons.injEq] at htext
  exact absurd htext.1 (by decide)

/-- The text says which error it was, as far as the texts of the system do. -/
theorem EnumerateError.message_injective {display : ε → String}
    (hdisplay : Function.Injective display) : Function.Injective (message display) := by
  intro a b h
  cases a with
  | unsupported platform =>
    cases b with
    | unsupported other =>
      have hmiddle := (String.append_left_inj ")").1 h
      rw [(String.append_right_inj _).1 hmiddle]
    | io error => exact absurd h (message_unsupported_ne_io display platform error)
  | io error =>
    cases b with
    | unsupported other => exact absurd h.symm (message_unsupported_ne_io display other error)
    | io other => rw [hdisplay ((String.append_right_inj _).1 h)]

/-- Enumeration fails on the other platforms, and with the first error in the directory; it never
returns the disks before the error, or none. -/
theorem enumerate_eq_error_iff {os : TargetOs} {error : EnumerateError ε} :
    enumerate os sys = .error error ↔
      (os = .windows ∧ error = .unsupported "windows") ∨
      (os = .other ∧ error = .unsupported "unknown") ∨
      (os ∈ [.freebsd, .openbsd, .netbsd, .dragonfly] ∧ error = .unsupported "bsd") ∨
      (os = .linux ∧ ∃ e, error = .io e ∧ (sys.readDir (Path.ofString sysBlock) = .error e ∨
        ∃ (before : List (List UInt8)) (after : List (Except ε (List UInt8))),
          sys.readDir (Path.ofString sysBlock) = .ok (before.map .ok ++ .error e :: after))) := by
  cases os with
  | linux =>
    simp only [← listedNames_eq_error_iff]
    show Linux.enumerate sys = _ ↔ _
    rw [linux_enumerate_eq]
    cases listedNames sys with
    | ok names => simp [fromIo, Except.map, Except.mapError]
    | error e => simp [fromIo, Except.map, Except.mapError, eq_comm]
  | _ => simp [enumerate, eq_comm]

end Osedax
