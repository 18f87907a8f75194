import Mathlib.Algebra.Group.Nat.Defs
import Mathlib.Data.Nat.Basic
import Mathlib.Data.Nat.Size
import Mathlib.Tactic.SplitIfs

/-!
# Rounding to nearest, ties to even

Quotients rounded to an integer (`halfEven`), and numbers rounded to so many significant bits
(`toBits`), as binary floating point and decimal output do.  Both are monotone, exact where they
can be, and off by half a unit at most.
-/

namespace Rounding

/-- `a / b` to the nearest integer; a tie goes to the even one. -/
def halfEven (a b : ℕ) : ℕ :=
  if 2 * (a % b) < b then a / b
  else if b < 2 * (a % b) then a / b + 1
  else a / b + a / b % 2

/-- `n` to `p` significant bits. -/
def toBits (p n : ℕ) : ℕ := halfEven n (2 ^ (n.size - p)) * 2 ^ (n.size - p)

/-! ## Quotients -/

section

variable {a a' b k : ℕ}

theorem div_le_halfEven (a b : ℕ) : a / b ≤ halfEven a b := by
  unfold halfEven
  split_ifs <;> omega

theorem halfEven_le_div_add_one (a b : ℕ) : halfEven a b ≤ a / b + 1 := by
  unfold halfEven
  split_ifs <;> omega

theorem halfEven_mul (hb : 0 < b) : halfEven (k * b) b = k := by
  unfold halfEven
  rw [Nat.mul_mod_left, Nat.mul_div_cancel _ hb, if_pos (by omega)]

theorem halfEven_mono (h : a ≤ a') : halfEven a b ≤ halfEven a' b := by
  by_cases hquot : a / b = a' / b
  · -- in one interval the remainders decide
    have hrem : a % b ≤ a' % b := by
      have ha := Nat.div_add_mod a b
      have ha' := Nat.div_add_mod a' b
      rw [hquot] at ha
      omega
    unfold halfEven
    rw [hquot]
    split_ifs <;> omega
  · have hlt : a / b < a' / b := lt_of_le_of_ne (Nat.div_le_div_right h) hquot
    calc halfEven a b ≤ a / b + 1 := halfEven_le_div_add_one a b
      _ ≤ a' / b := hlt
      _ ≤ halfEven a' b := div_le_halfEven a' b

theorem le_halfEven (hb : 0 < b) (h : k * b ≤ a) : k ≤ halfEven a b := by
  rw [← halfEven_mul (k := k) hb]
  exact halfEven_mono h

theorem halfEven_le (hb : 0 < b) (h : a ≤ k * b) : halfEven a b ≤ k := by
  rw [← halfEven_mul (k := k) hb]
  exact halfEven_mono h

/-- The error is half a unit at most. -/
theorem halfEven_error (a : ℕ) (hb : 0 < b) :
    2 * (halfEven a b * b) ≤ 2 * a + b ∧ 2 * a ≤ 2 * (halfEven a b * b) + b := by
  have hdiv : a / b * b + a % b = a := Nat.div_add_mod' a b
  have hrem : a % b < b := Nat.mod_lt a hb
  unfold halfEven
  split_ifs with hlow hhigh
  · omega
  · rw [Nat.add_mul]
    omega
  · -- a tie is half a unit away from both
    rcases Nat.mod_two_eq_zero_or_one (a / b) with heven | hodd
    · rw [heven, Nat.add_zero]
      omega
    · rw [hodd, Nat.add_mul]
      omega

end

/-! ## Significant bits -/

section

variable {p m n : ℕ}

theorem toBits_of_size_le (h : n.size ≤ p) : toBits p n = n := by
  have hexact : halfEven n 1 = n := by
    have hmul := halfEven_mul (k := n) Nat.one_pos
    rwa [Nat.mul_one] at hmul
  rw [toBits, Nat.sub_eq_zero_of_le h, pow_zero, hexact, Nat.mul_one]

/-- A number is rounded down to its leading bit at most. -/
theorem le_toBits (hp : 0 < p) (h : p < n.size) : 2 ^ (n.size - 1) ≤ toBits p n := by
  have hsplit : 2 ^ (p - 1) * 2 ^ (n.size - p) = 2 ^ (n.size - 1) := by
    rw [← Nat.pow_add]
    congr 1
    omega
  rw [← hsplit]
  refine Nat.mul_le_mul_right _ (le_halfEven (Nat.two_pow_pos _) ?_)
  rw [hsplit]
  exact Nat.lt_size.1 (by omega)

/-- A number is rounded up to the next power of two at most. -/
theorem toBits_le (p n : ℕ) : toBits p n ≤ 2 ^ n.size := by
  have hsplit : 2 ^ (n.size - (n.size - p)) * 2 ^ (n.size - p) = 2 ^ n.size := by
    rw [← Nat.pow_add]
    congr 1
    omega
  rw [← hsplit]
  refine Nat.mul_le_mul_right _ (halfEven_le (Nat.two_pow_pos _) ?_)
  rw [hsplit]
  exact le_of_lt (Nat.lt_size_self n)

theorem toBits_mono (hp : 0 < p) (h : m ≤ n) : toBits p m ≤ toBits p n := by
  have hsize : m.size ≤ n.size := Nat.size_le_size h
  by_cases hsame : m.size - p = n.size - p
  · unfold toBits
    rw [hsame]
    exact Nat.mul_le_mul_right _ (halfEven_mono h)
  · -- a power of two stands between the two
    calc toBits p m ≤ 2 ^ m.size := toBits_le p m
      _ ≤ 2 ^ (n.size - 1) := Nat.pow_le_pow_right Nat.two_pos (by omega)
      _ ≤ toBits p n := le_toBits hp (by omega)

/-- The error relative to the number is one in `2 ^ p` at most. -/
theorem toBits_error (p n : ℕ) :
    2 ^ p * toBits p n ≤ 2 ^ p * n + n ∧ 2 ^ p * n ≤ 2 ^ p * toBits p n + n := by
  by_cases hsize : n.size ≤ p
  · rw [toBits_of_size_le hsize]
    exact ⟨Nat.le_add_right _ _, Nat.le_add_right _ _⟩
  · have hunit : 2 ^ p * 2 ^ (n.size - p) ≤ 2 * n := by
      have hlead : 2 ^ (n.size - 1) ≤ n := Nat.lt_size.1 (by omega)
      calc 2 ^ p * 2 ^ (n.size - p) = 2 * 2 ^ (n.size - 1) := by
            rw [← Nat.pow_add, ← Nat.pow_succ']
            congr 1
            omega
        _ ≤ 2 * n := Nat.mul_le_mul_left 2 hlead
    obtain ⟨hup, hdown⟩ := halfEven_error n (Nat.two_pow_pos (n.size - p))
    have hup' := Nat.mul_le_mul_left (2 ^ p) hup
    have hdown' := Nat.mul_le_mul_left (2 ^ p) hdown
    rw [← toBits] at hup' hdown'
    simp only [Nat.mul_add, Nat.mul_left_comm (2 ^ p) 2] at hup' hdown'
    omega

end

end Rounding
