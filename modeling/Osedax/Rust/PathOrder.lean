import Mathlib.Data.List.Lex
import Mathlib.Data.Prod.Lex
import Osedax.Rust.Path

/-!
# The order of paths

`Path::cmp` compares the components, as `==` does, so paths that the order does not tell apart are
equal to the source.  The node of a file name in `/dev` has the name as its last component.
-/

namespace Osedax

/-- The order of `Component` in the source: by the variant, two names by their bytes. -/
def Component.key : Component → ℕ ×ₗ List ℕ
  | .rootDir => toLex (0, [])
  | .curDir => toLex (1, [])
  | .parentDir => toLex (2, [])
  | .normal name => toLex (3, name.map UInt8.toNat)

theorem Component.key_injective : Function.Injective Component.key := by
  have hbytes : Function.Injective (List.map UInt8.toNat) :=
    List.map_injective_iff.2 fun _ _ => UInt8.toNat_inj.1
  intro c d h
  cases c <;> cases d <;> simp [Component.key, hbytes.eq_iff] at h ⊢
  exact h

instance : LinearOrder Component := LinearOrder.lift' Component.key Component.key_injective

namespace Path

/-- `Path::cmp` is not `Greater`. -/
def le (p q : Path) : Bool := p.components ≤ q.components

theorem le_iff {p q : Path} : p.le q ↔ p.components ≤ q.components := decide_eq_true_iff

theorem le_trans' {p q r : Path} (h : p.le q) (k : q.le r) : p.le r :=
  le_iff.2 ((le_iff.1 h).trans (le_iff.1 k))

theorem le_total' (p q : Path) : p.le q || q.le p := by
  rw [Bool.or_eq_true, le_iff, le_iff]
  exact le_total _ _

/-- Paths that the order does not tell apart are `==`. -/
theorem le_and_le_iff {p q : Path} : p.le q ∧ q.le p ↔ p.beq q := by
  rw [le_iff, le_iff, beq_iff, le_antisymm_iff]

theorem relativeComponents_append (a b : List UInt8) : relativeComponents (a ++ sep :: b) =
    relativeComponents a ++ relativeComponents b := by
  unfold relativeComponents List.splitOn
  rw [List.splitOnP_append_cons _ _ (by decide), List.filterMap_append]

/-- What is below a directory starts with it. -/
theorem startsWith_append {a : List UInt8} (ha : (Path.mk a).isAbsolute) (b : List UInt8) :
    (Path.mk (a ++ sep :: b)).startsWith ⟨a⟩ := by
  rw [startsWith_iff]
  cases a with
  | nil => exact absurd ha (by decide)
  | cons x a =>
    obtain rfl : x = sep := by simpa [isAbsolute] using ha
    unfold components
    simp only [List.cons_append, ↓reduceIte]
    rw [relativeComponents_append]
    exact List.prefix_append (.rootDir :: relativeComponents a) _

/-! ## Device nodes -/

/-- A name that a directory can list. -/
structure IsFileName (name : List UInt8) : Prop where
  ne_nil : name ≠ []
  ne_dot : name ≠ asBytes "."
  ne_dotDot : name ≠ asBytes ".."
  sep_notMem : sep ∉ name

theorem parseComponent_of_isFileName {name : List UInt8} (h : IsFileName name) :
    parseComponent name = some (.normal name) := by
  unfold parseComponent
  rw [if_neg h.ne_nil, if_neg h.ne_dot, if_neg h.ne_dotDot]

theorem relativeComponents_of_isFileName {name : List UInt8} (h : IsFileName name) :
    relativeComponents name = [.normal name] := by
  have hname : Fields.Free (· == sep) name := Fields.free_beq_iff.2 h.sep_notMem
  unfold relativeComponents List.splitOn
  rw [List.splitOnP_eq_singleton hname, List.filterMap_cons_some (parseComponent_of_isFileName h),
    List.filterMap_nil]

/-- Going down through directories appends their names. -/
theorem relativeComponents_flatMap {names : List (List UInt8)}
    (h : ∀ name ∈ names, IsFileName name) (a : List UInt8) :
    relativeComponents (a ++ names.flatMap fun name => sep :: name) =
      relativeComponents a ++ names.map .normal := by
  induction names generalizing a with
  | nil => simp
  | cons name names ih =>
    obtain ⟨hname, hnames⟩ := List.forall_mem_cons.1 h
    rw [List.flatMap_cons, List.cons_append, relativeComponents_append, ih hnames,
      relativeComponents_of_isFileName hname, List.map_cons, List.singleton_append]

theorem components_dev {name : List UInt8} (h : IsFileName name) :
    (Path.mk (asBytes "/dev/" ++ name)).components =
      [.rootDir, .normal (asBytes "dev"), .normal name] := by
  have hbytes : asBytes "/dev/" ++ name = sep :: (asBytes "dev" ++ sep :: name) := rfl
  have hdev : relativeComponents (asBytes "dev") = [.normal (asBytes "dev")] := by decide
  unfold components
  rw [hbytes]
  simp only [↓reduceIte]
  rw [relativeComponents_append, hdev, relativeComponents_of_isFileName h, List.singleton_append]

end Path

end Osedax
