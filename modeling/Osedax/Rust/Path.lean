import Mathlib.Data.List.Infix
import Osedax.Rust.Text

/-!
# Paths of the source

A `Path` is a byte string, as on Linux.  Equality of Lean terms is equality of the bytes; the `==`
and the `starts_with` of the source go by the components of a path, so that `//a/./b` and `/a/b`
are the same to them.  `FileSystem` is what the program can ask of the operating system.
-/

namespace Osedax

structure Path where
  bytes : List UInt8
  deriving DecidableEq

/-- `std::path::Component`, without the prefixes of Windows. -/
inductive Component where
  | rootDir
  | curDir
  | parentDir
  | normal (name : List UInt8)
  deriving DecidableEq

namespace Path

/-- The separator `/`. -/
def sep : UInt8 := 0x2F

def ofString (s : String) : Path := ⟨asBytes s⟩

/-- A piece between separators; an empty piece and `.` give no component. -/
def parseComponent (piece : List UInt8) : Option Component :=
  if piece = [] then none
  else if piece = asBytes "." then none
  else if piece = asBytes ".." then some .parentDir
  else some (.normal piece)

/-- The components of a path that does not start with a separator. -/
def relativeComponents (bytes : List UInt8) : List Component :=
  (bytes.splitOn sep).filterMap parseComponent

/-- `Path::components`: a `.` counts only at the start of a relative path. -/
def components (p : Path) : List Component :=
  match p.bytes with
  | [] => []
  | b :: rest =>
    if b = sep then .rootDir :: relativeComponents rest
    else if (b :: rest).takeWhile (· ≠ sep) = asBytes "." then
      .curDir :: relativeComponents (b :: rest)
    else relativeComponents (b :: rest)

/-- `Path == Path`. -/
def beq (p q : Path) : Bool := p.components == q.components

/-- `Path::starts_with`. -/
def startsWith (p base : Path) : Bool := base.components.isPrefixOf p.components

/-- `Path::is_absolute`. -/
def isAbsolute (p : Path) : Bool := p.bytes.head? == some sep

/-- `Path::new("/")`. -/
def root : Path := ofString "/"

theorem startsWith_iff {p base : Path} :
    p.startsWith base ↔ base.components <+: p.components := by
  unfold startsWith
  rw [List.isPrefixOf_iff_prefix]

theorem beq_iff {p q : Path} : p.beq q ↔ p.components = q.components := by
  unfold beq
  rw [beq_iff_eq]

@[simp] theorem components_root : root.components = [.rootDir] := by decide

theorem beq_root_iff {p : Path} : p.beq root ↔ p.components = [.rootDir] := by
  rw [beq_iff, components_root]

example : (Path.ofString "//a/./b/..").components =
    [.rootDir, .normal (asBytes "a"), .normal (asBytes "b"), .parentDir] := by decide

/-- The components of an absolute path start with the root. -/
theorem rootDir_prefix_components {p : Path} (hp : p.isAbsolute) :
    [.rootDir] <+: p.components := by
  obtain ⟨bytes⟩ := p
  cases bytes with
  | nil => exact absurd hp (by decide)
  | cons b rest =>
    have hb : b = sep := by simpa [isAbsolute] using hp
    unfold components
    simp only [if_pos hb]
    exact List.prefix_append [_] _

end Path

/-- What the program asks of the file system: the contents of a file, `fs::canonicalize` and
`Path::exists`.  Each may fail on any path. -/
structure FileSystem where
  read : Path → Option (List UInt8)
  canonicalize : Path → Option Path
  pathExists : Path → Bool

/-- `fs::read_to_string`, which fails on a file that is not UTF-8. -/
def FileSystem.readToString (fs : FileSystem) (p : Path) : Option String :=
  (fs.read p).bind fromUtf8

/-- The file system with other contents in one file. -/
def FileSystem.withFile (fs : FileSystem) (p : Path) (contents : List UInt8) : FileSystem where
  read q := if q = p then some contents else fs.read q
  canonicalize := fs.canonicalize
  pathExists := fs.pathExists

theorem FileSystem.readToString_withFile (fs : FileSystem) (p : Path) (contents : List UInt8) :
    (fs.withFile p contents).readToString p = fromUtf8 contents := by
  unfold FileSystem.readToString
  rw [FileSystem.withFile]
  simp only [if_pos, Option.bind_some]

end Osedax
