import Mathlib.Data.List.Perm.Basic
import Osedax.Support.Window

/-!
# Writing several windows

A list of writes is applied from the left.  Where no two of them overlap, each word stands in its
window afterwards, whatever the order; outside the windows nothing has changed.
-/

namespace Window

variable {α : Type*}

/-- The writes of `ws`, each a word with its offset, in their order. -/
def writeAll (buf : List α) (ws : List (ℕ × List α)) : List α :=
  ws.foldl (fun b w => overwrite b w.1 w.2) buf

/-- The windows of the two writes do not meet. -/
def Apart (v w : ℕ × List α) : Prop := v.1 + v.2.length ≤ w.1 ∨ w.1 + w.2.length ≤ v.1

theorem Apart.symm {v w : ℕ × List α} (h : Apart v w) : Apart w v := Or.symm h

theorem writeAll_cons (buf : List α) (w : ℕ × List α) (ws : List (ℕ × List α)) :
    writeAll buf (w :: ws) = writeAll (overwrite buf w.1 w.2) ws := rfl

variable {buf : List α} {ws : List (ℕ × List α)}

/-- The writes behind the first one fit as they did before it. -/
theorem fits_of_cons {w : ℕ × List α} (hfit : ∀ v ∈ w :: ws, v.1 + v.2.length ≤ buf.length) :
    ∀ v ∈ ws, v.1 + v.2.length ≤ (overwrite buf w.1 w.2).length := by
  intro v hv
  rw [length_overwrite (hfit w List.mem_cons_self)]
  exact hfit v (List.mem_cons_of_mem w hv)

theorem length_writeAll (hfit : ∀ w ∈ ws, w.1 + w.2.length ≤ buf.length) :
    (writeAll buf ws).length = buf.length := by
  induction ws generalizing buf with
  | nil => rfl
  | cons w ws ih =>
    rw [writeAll_cons, ih (fits_of_cons hfit), length_overwrite (hfit w List.mem_cons_self)]

/-- The writes are seen only inside their windows. -/
theorem agreeOn_writeAll (hfit : ∀ w ∈ ws, w.1 + w.2.length ≤ buf.length) {S : Set ℕ}
    (hS : ∀ w ∈ ws, ∀ i ∈ S, i < w.1 ∨ w.1 + w.2.length ≤ i) : AgreeOn S (writeAll buf ws) buf := by
  induction ws generalizing buf with
  | nil => exact fun _ _ => rfl
  | cons w ws ih =>
    intro i hi
    rw [writeAll_cons, ih (fits_of_cons hfit) (fun v hv => hS v (List.mem_cons_of_mem w hv)) i hi]
    exact agreeOn_overwrite (hfit w List.mem_cons_self) (hS w List.mem_cons_self) i hi

/-- Writes that keep apart are all there in the end. -/
theorem occursAt_writeAll (hfit : ∀ w ∈ ws, w.1 + w.2.length ≤ buf.length)
    (hapart : ws.Pairwise Apart) {w : ℕ × List α} (hw : w ∈ ws) (hne : w.2 ≠ []) :
    OccursAt w.2 w.1 (writeAll buf ws) := by
  induction ws generalizing buf with
  | nil => exact absurd hw List.not_mem_nil
  | cons v ws ih =>
    have hrest := fits_of_cons hfit
    rw [List.pairwise_cons] at hapart
    rw [writeAll_cons]
    rcases List.mem_cons.1 hw with rfl | hw
    · -- the writes that follow stay outside the window of the first
      have hframe : AgreeOn (Set.Ico w.1 (w.1 + w.2.length))
          (writeAll (overwrite buf w.1 w.2) ws) (overwrite buf w.1 w.2) := by
        refine agreeOn_writeAll hrest fun u hu i hi => ?_
        have hi' := Set.mem_Ico.1 hi
        rcases hapart.1 u hu with hlo | hhi
        · exact Or.inl (by omega)
        · exact Or.inr (by omega)
      exact (hframe.occursAt_iff hne (Set.Subset.refl _)).2
        (occursAt_overwrite (hfit w List.mem_cons_self))
    · exact ih hrest hapart.2 hw

end Window
