import Osedax.Device.Linux
import Osedax.Device.Partitions
import Osedax.Rust.Lossy
import Osedax.Rust.PathOrder
import Osedax.Support.Collect

/-!
# Device enumeration

`core/src/device/enumerate/mod.rs` and the walk over `/sys/class/block` of `linux.rs`.  The walk
stops at the first entry that cannot be read; of the others it offers the whole disks that are no
pseudo-devices and have a readable size (`offered`), sorted by path.  For names that a directory
can list the path tells the devices apart, so the order of the directory does not show.
-/

namespace Osedax

/-- The operating system: its files, and what `fs::read_dir` yields, an error or a result for
each entry. -/
structure System (ε : Type) extends FileSystem where
  readDir : Path → Except ε (List (Except ε (List UInt8)))

/-- Why enumeration failed; `ε` is `std::io::Error`. -/
inductive EnumerateError (ε : Type) where
  | unsupported (platform : String)
  | io (error : ε)
  deriving DecidableEq

/-- The `target_os` that the crate is compiled for. -/
inductive TargetOs where
  | linux
  | windows
  | freebsd
  | openbsd
  | netbsd
  | dragonfly
  | other
  deriving DecidableEq

variable {ε : Type}

/-- The texts of `thiserror`. -/
def EnumerateError.message (display : ε → String) : EnumerateError ε → String
  | .unsupported platform =>
    "device enumeration is not yet implemented on this platform (" ++ platform ++ ")"
  | .io error => "device enumeration failed: " ++ display error

/-- `str::starts_with`. -/
def startsWith (s pre : String) : Bool := pre.toList.isPrefixOf s.toList

/-- An entry without a `partition` attribute. -/
def isWholeDisk (fs : FileSystem) (name : String) : Bool :=
  !fs.pathExists (Path.ofString (sysBase name ++ "/partition"))

/-- Block devices of the kernel that are never flash targets. -/
def isPseudoDevice (name : String) : Bool :=
  startsWith name "loop" || startsWith name "sr" || startsWith name "ram" ||
    startsWith name "dm-" || startsWith name "md" || startsWith name "zram"

/-- The loop of `Linux.enumerate` over the entries of the directory. -/
def enumerateLoop (fs : FileSystem) (mounts : List (String × Path)) :
    List (Except ε (List UInt8)) → List Device → Except ε (List Device)
  | [], devices => .ok devices
  | entry :: entries, devices => do
    let fileName ← entry
    let name := toStringLossy fileName
    if !isWholeDisk fs name then enumerateLoop fs mounts entries devices
    else if isPseudoDevice name then enumerateLoop fs mounts entries devices
    else
      match buildDevice fs name mounts with
      | some dev => enumerateLoop fs mounts entries (devices ++ [dev])
      | none => enumerateLoop fs mounts entries devices

/-- The order of the list that is returned. -/
def pathLe (a b : Device) : Bool := a.path.le b.path

/-- The conversion that `?` makes of an I/O error. -/
def fromIo {α : Type} (result : Except ε α) : Except (EnumerateError ε) α :=
  result.mapError EnumerateError.io

/-- `linux::enumerate`. -/
def Linux.enumerate (sys : System ε) : Except (EnumerateError ε) (List Device) := do
  let mounts := readMounts sys.toFileSystem
  let entries ← fromIo (sys.readDir (Path.ofString sysBlock))
  let devices ← fromIo (enumerateLoop sys.toFileSystem mounts entries [])
  .ok (devices.mergeSort pathLe)

/-- The whole disks of the system, where the platform is supported. -/
def enumerate (os : TargetOs) (sys : System ε) : Except (EnumerateError ε) (List Device) :=
  match os with
  | .linux => Linux.enumerate sys
  | .windows => .error (.unsupported "windows")
  | .freebsd | .openbsd | .netbsd | .dragonfly => .error (.unsupported "bsd")
  | .other => .error (.unsupported "unknown")

/-! ## The walk -/

/-- The device that is offered for an entry of `/sys/class/block`. -/
def offered (fs : FileSystem) (mounts : List (String × Path)) (entry : List UInt8) :
    Option Device :=
  if isWholeDisk fs (toStringLossy entry) ∧ ¬ isPseudoDevice (toStringLossy entry) then
    buildDevice fs (toStringLossy entry) mounts
  else none

section

variable {fs : FileSystem} {mounts : List (String × Path)}

/-- One entry: the loop goes on with what the entry offers. -/
theorem enumerateLoop_cons (name : List UInt8) (entries : List (Except ε (List UInt8)))
    (devices : List Device) : enumerateLoop fs mounts (.ok name :: entries) devices =
      enumerateLoop fs mounts entries (devices ++ (offered fs mounts name).toList) := by
  have hunfold : enumerateLoop fs mounts (.ok name :: entries) devices =
      if !isWholeDisk fs (toStringLossy name) then enumerateLoop fs mounts entries devices
      else if isPseudoDevice (toStringLossy name) then enumerateLoop fs mounts entries devices
      else
        match buildDevice fs (toStringLossy name) mounts with
        | some dev => enumerateLoop fs mounts entries (devices ++ [dev])
        | none => enumerateLoop fs mounts entries devices := rfl
  rw [hunfold, offered]
  by_cases hwhole : isWholeDisk fs (toStringLossy name)
  · by_cases hpseudo : isPseudoDevice (toStringLossy name)
    · simp [hpseudo]
    · cases buildDevice fs (toStringLossy name) mounts <;> simp [hwhole, hpseudo]
  · simp [hwhole]

theorem enumerateLoop_eq (entries : List (Except ε (List UInt8))) (devices : List Device) :
    enumerateLoop fs mounts entries devices =
      (entries.mapM id).map fun names => devices ++ names.filterMap (offered fs mounts) := by
  induction entries generalizing devices with
  | nil =>
    show Except.ok devices = Except.ok (devices ++ [])
    rw [List.append_nil]
  | cons entry entries ih =>
    rw [List.mapM_cons]
    cases entry with
    | error e => rfl
    | ok name =>
      rw [enumerateLoop_cons, ih]
      cases entries.mapM id with
      | error e => rfl
      | ok names =>
        show Except.ok ((devices ++ (offered fs mounts name).toList) ++
          names.filterMap (offered fs mounts)) =
            Except.ok (devices ++ (name :: names).filterMap (offered fs mounts))
        rw [List.append_assoc, List.filterMap_cons]
        cases offered fs mounts name <;> rfl

end

/-- The entries of `/sys/class/block`, or the first error. -/
def listedNames (sys : System ε) : Except ε (List (List UInt8)) := do
  let entries ← sys.readDir (Path.ofString sysBlock)
  entries.mapM id

/-- The devices of a directory, before they are sorted. -/
def devicesOf (fs : FileSystem) (names : List (List UInt8)) : List Device :=
  names.filterMap (offered fs (readMounts fs))

variable {sys : System ε} {names : List (List UInt8)} {devices : List Device}

theorem linux_enumerate_eq (sys : System ε) : Linux.enumerate sys =
    fromIo ((listedNames sys).map fun names =>
      (devicesOf sys.toFileSystem names).mergeSort pathLe) := by
  unfold Linux.enumerate listedNames
  cases sys.readDir (Path.ofString sysBlock) with
  | error e => rfl
  | ok entries =>
    show (do
      let devices ← fromIo (enumerateLoop sys.toFileSystem (readMounts sys.toFileSystem) entries [])
      .ok (devices.mergeSort pathLe)) =
        fromIo ((entries.mapM id).map fun names =>
          (devicesOf sys.toFileSystem names).mergeSort pathLe)
    rw [enumerateLoop_eq]
    cases entries.mapM id <;> rfl

theorem listedNames_eq_ok_iff : listedNames sys = .ok names ↔
    sys.readDir (Path.ofString sysBlock) = .ok (names.map .ok) := by
  unfold listedNames
  cases sys.readDir (Path.ofString sysBlock) with
  | error e => exact iff_of_false nofun nofun
  | ok entries =>
    show entries.mapM id = .ok names ↔ Except.ok entries = Except.ok (names.map .ok)
    rw [Collect.mapM_id_eq_ok_iff, Except.ok.injEq]

theorem listedNames_eq_error_iff {e : ε} : listedNames sys = .error e ↔
    sys.readDir (Path.ofString sysBlock) = .error e ∨
      ∃ (before : List (List UInt8)) (after : List (Except ε (List UInt8))),
        sys.readDir (Path.ofString sysBlock) = .ok (before.map .ok ++ .error e :: after) := by
  unfold listedNames
  cases sys.readDir (Path.ofString sysBlock) with
  | error e' =>
    show Except.error e' = Except.error e ↔ _
    rw [or_iff_left fun ⟨_, _, h⟩ => nomatch h]
    exact Iff.intro (fun h => by rw [Except.error.inj h]) fun h => by rw [Except.error.inj h]
  | ok entries =>
    show entries.mapM id = .error e ↔ _
    rw [Collect.mapM_id_eq_error_iff, or_iff_right nofun]
    simp only [Except.ok.injEq]

theorem enumerate_linux_of_names (h : sys.readDir (Path.ofString sysBlock) = .ok (names.map .ok)) :
    enumerate .linux sys = .ok ((devicesOf sys.toFileSystem names).mergeSort pathLe) := by
  show Linux.enumerate sys = _
  rw [linux_enumerate_eq, listedNames_eq_ok_iff.2 h]
  rfl

/-- A device of the list was offered for an entry. -/
theorem exists_offered_of_mem (h : enumerate .linux sys = .ok devices) {device : Device}
    (hdevice : device ∈ devices) :
    ∃ name, offered sys.toFileSystem (readMounts sys.toFileSystem) name = some device := by
  have hlinux : Linux.enumerate sys = .ok devices := h
  rw [linux_enumerate_eq] at hlinux
  cases hnames : listedNames sys with
  | error e =>
    rw [hnames] at hlinux
    exact nomatch hlinux
  | ok names =>
    rw [hnames] at hlinux
    obtain rfl := Except.ok.inj hlinux
    rw [List.mem_mergeSort] at hdevice
    obtain ⟨name, -, hoffered⟩ := List.mem_filterMap.1 hdevice
    exact ⟨name, hoffered⟩

end Osedax
