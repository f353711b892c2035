import Mathlib.Algebra.Order.Floor.Ring
import Mathlib.Tactic.Ring

/-!
# A line cut into equal steps

Over an ordered field with a floor, the line is cut into the half-open intervals
`[i * e, (i + 1) * e)`, one for each integer `i`. Every point lies in exactly one of them, and
`step e v` is its number (`step_eq_iff`). Steps `n` times as long are made of `n` of them each, and
which one a point lies in is a division of integers (`step_mul`); a tree of cells that are cut in
two, or in eight, is a sequence of such grids.
-/

set_option autoImplicit false

namespace Grid

/-- An interval that holds a point of the inside of another one meets it in the larger of their
lower ends, which is in both without the upper ends. -/
theorem max_mem_of_touching {α : Type*} [LinearOrder α] {lo hi lo' hi' p : α}
    (hp : p ∈ Set.Ioo lo hi) (hp' : p ∈ Set.Icc lo' hi') (hne : lo' < hi') :
    max lo lo' ∈ Set.Ico lo hi ∧ max lo lo' ∈ Set.Ico lo' hi' :=
  ⟨⟨le_max_left .., max_lt (hp.1.trans hp.2) (hp'.1.trans_lt hp.2)⟩,
    le_max_right .., max_lt (hp.1.trans_le hp'.2) hne⟩

variable {K : Type*} [Field K] [LinearOrder K] [FloorRing K]

/-- The cell of width `e` that a number falls into. -/
def step (e v : K) : Int := ⌊v / e⌋

variable [IsStrictOrderedRing K] {e v : K} {i : Int}

/-- Its two ends; the lower one belongs to it. -/
theorem step_eq_iff (he : 0 < e) : step e v = i ↔ i * e ≤ v ∧ v < (i + 1) * e := by
  rw [step, Int.floor_eq_iff, le_div_iff₀ he, div_lt_iff₀ he]

/-- The cell of a grid that is coarser by a whole factor is found from the cell of the finer one,
without going back to the number. -/
theorem step_mul (e v : K) (n : Nat) : step (e * n) v = step e v / n := by
  rw [step, step, ← Int.floor_div_natCast, div_div]

end Grid
