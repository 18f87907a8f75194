import Mathlib.Data.List.Basic

/-!
# Escape codes of fixed width

An escape code replaces some symbols by the escape symbol followed by a code word of a fixed
width, and keeps the others.  The escape symbol is itself replaced, so a decoder that reads from
the left and takes every well-formed escape for one undoes the encoding (`decode_encode`).
-/

/-- An escape code over `α`: `code a` is the code word of a symbol that is escaped. -/
structure Escape (α : Type*) where
  esc : α
  width : ℕ
  code : α → Option (List α)
  parse : List α → Option α
  length_code : ∀ {a w}, code a = some w → w.length = width
  parse_code : ∀ {a w}, code a = some w → parse w = some a
  code_esc : code esc ≠ none

namespace Escape

variable {α : Type*} (E : Escape α)

/-- What is written for one symbol. -/
def symbol (a : α) : List α :=
  match E.code a with
  | some w => E.esc :: w
  | none => [a]

def encode (l : List α) : List α := l.flatMap E.symbol

@[simp] theorem encode_nil : E.encode [] = [] := rfl

theorem encode_cons (a : α) (l : List α) : E.encode (a :: l) = E.symbol a ++ E.encode l := rfl

theorem encode_append (l m : List α) : E.encode (l ++ m) = E.encode l ++ E.encode m :=
  List.flatMap_append

variable [DecidableEq α]

/-- The symbol that an escape at the head of `l` stands for. -/
def escapeAt (a : α) (l : List α) : Option α :=
  if a = E.esc ∧ E.width ≤ l.length then E.parse (l.take E.width) else none

def decode : List α → List α
  | [] => []
  | a :: l =>
    match E.escapeAt a l with
    | some b => b :: decode (l.drop E.width)
    | none => a :: decode l
termination_by l => l.length
decreasing_by all_goals simp only [List.length_drop, List.length_cons]; omega

/-! ## One step of the decoder -/

@[simp] theorem decode_nil : E.decode [] = [] := by rw [decode]

theorem decode_cons_of_escape {a b : α} {l : List α} (h : E.escapeAt a l = some b) :
    E.decode (a :: l) = b :: E.decode (l.drop E.width) := by
  rw [decode, h]

theorem decode_cons_of_plain {a : α} {l : List α} (h : E.escapeAt a l = none) :
    E.decode (a :: l) = a :: E.decode l := by
  rw [decode, h]

theorem escapeAt_of_ne {a : α} (ha : a ≠ E.esc) (l : List α) : E.escapeAt a l = none :=
  if_neg fun h => ha h.1

theorem escapeAt_code {a : α} {w : List α} (hw : E.code a = some w) (l : List α) :
    E.escapeAt E.esc (w ++ l) = some a := by
  have hlen : E.width ≤ (w ++ l).length := by
    rw [List.length_append, E.length_code hw]
    exact Nat.le_add_right _ _
  unfold escapeAt
  rw [if_pos ⟨rfl, hlen⟩, List.take_left' (E.length_code hw), E.parse_code hw]

/-! ## The round trip -/

theorem decode_symbol_append (a : α) (l : List α) :
    E.decode (E.symbol a ++ l) = a :: E.decode l := by
  unfold symbol
  cases hcode : E.code a with
  | some w =>
    show E.decode (E.esc :: (w ++ l)) = _
    rw [E.decode_cons_of_escape (E.escapeAt_code hcode l), List.drop_left' (E.length_code hcode)]
  | none =>
    have hne : a ≠ E.esc := by
      rintro rfl
      exact E.code_esc hcode
    exact E.decode_cons_of_plain (E.escapeAt_of_ne hne l)

theorem decode_encode (l : List α) : E.decode (E.encode l) = l := by
  induction l with
  | nil => rw [encode_nil, decode_nil]
  | cons a l ih => rw [encode_cons, decode_symbol_append, ih]

/-- Encoding what was decoded gives the text back exactly when it is an encoding. -/
theorem encode_decode_iff {l : List α} :
    E.encode (E.decode l) = l ↔ ∃ m, E.encode m = l := by
  apply Iff.intro
  · exact fun h => ⟨E.decode l, h⟩
  · rintro ⟨m, rfl⟩
    rw [decode_encode]

/-! ## Texts without escapes -/

/-- Where no position holds an escape there is nothing to decode. -/
theorem decode_of_no_escape {l : List α}
    (h : ∀ pre a post, l = pre ++ a :: post → E.escapeAt a post = none) : E.decode l = l := by
  induction l with
  | nil => exact E.decode_nil
  | cons a l ih =>
    rw [E.decode_cons_of_plain (h [] a l rfl),
      ih fun pre b post hl => h (a :: pre) b post (by rw [hl, List.cons_append])]

theorem decode_of_esc_notMem {l : List α} (h : E.esc ∉ l) : E.decode l = l := by
  apply decode_of_no_escape
  rintro pre a post rfl
  apply escapeAt_of_ne
  rintro rfl
  exact h (List.mem_append_right pre List.mem_cons_self)

end Escape
