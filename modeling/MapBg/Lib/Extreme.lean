import Mathlib.Algebra.Order.Ring.Defs
import Mathlib.Order.Interval.Set.Basic
import Mathlib.Tactic.Common

/-!
# Extremes: of a product over an interval, and of a list

A linear function of a coordinate in `[lo, hi]` is largest at one end and smallest at the other, and
the sign of its coefficient says at which. `high n lo hi` and `low n lo hi` are those ends. A linear
function of several coordinates is largest over a box where it is largest in each of them, so the
bounds below are all that is needed in any dimension.

For a list there is `foldl_select`: a fold that keeps one of two each time keeps one of all, and
where what is kept is related to both, it is related to all.
-/

set_option autoImplicit false

namespace Extreme

section Product

variable {K : Type*} [Ring K] [LinearOrder K]

/-- The end of the interval at which a multiple by `n` is greatest. -/
def high (n lo hi : K) : K := if 0 ≤ n then hi else lo

/-- And the end at which it is least. -/
def low (n lo hi : K) : K := if 0 ≤ n then lo else hi

variable {n lo hi v : K}

theorem high_mem (n : K) (h : lo ≤ hi) : high n lo hi ∈ Set.Icc lo hi := by
  unfold high
  split
  · exact ⟨h, le_refl hi⟩
  · exact ⟨le_refl lo, h⟩

theorem low_mem (n : K) (h : lo ≤ hi) : low n lo hi ∈ Set.Icc lo hi := by
  unfold low
  split
  · exact ⟨le_refl lo, h⟩
  · exact ⟨h, le_refl hi⟩

variable [IsOrderedRing K]

/-- A linear function on an interval is greatest at an end. -/
theorem mul_le_high (h : v ∈ Set.Icc lo hi) : n * v ≤ n * high n lo hi := by
  unfold high
  split
  · exact mul_le_mul_of_nonneg_left h.2 ‹_›
  · exact mul_le_mul_of_nonpos_left h.1 (le_of_not_ge ‹_›)

theorem low_le_mul (h : v ∈ Set.Icc lo hi) : n * low n lo hi ≤ n * v := by
  unfold low
  split
  · exact mul_le_mul_of_nonneg_left h.1 ‹_›
  · exact mul_le_mul_of_nonpos_left h.2 (le_of_not_ge ‹_›)

end Product

/-- Selecting one of two again and again selects one of all. -/
theorem foldl_select {α : Type*} {op : α → α → α} {R : α → α → Prop} [Std.Refl R] [IsTrans α R]
    (hop : ∀ a b, (op a b = a ∨ op a b = b) ∧ R (op a b) a ∧ R (op a b) b) (l : List α) (m : α) :
    R (l.foldl op m) m ∧ (∀ a ∈ l, R (l.foldl op m) a) ∧
      (l.foldl op m = m ∨ l.foldl op m ∈ l) := by
  induction l generalizing m with
  | nil => exact ⟨Std.Refl.refl m, by simp, .inl rfl⟩
  | cons b l ih =>
    obtain ⟨hm, hl, hmem⟩ := ih (op m b)
    obtain ⟨hsel, hfirst, hsecond⟩ := hop m b
    refine ⟨IsTrans.trans _ _ _ hm hfirst, fun a ha => ?_, ?_⟩
    · rcases List.mem_cons.mp ha with rfl | ha
      · exact IsTrans.trans _ _ _ hm hsecond
      · exact hl a ha
    · rw [List.foldl_cons, List.mem_cons]
      -- what is selected is the start, the first element or a later one
      rcases hmem with heq | hmem
      · rcases hsel with hsel | hsel
        · exact .inl (heq.trans hsel)
        · exact .inr (.inl (heq.trans hsel))
      · exact .inr (.inr hmem)

/-! The two that programs keep. -/

section Order

variable {K : Type*} [LinearOrder K] (l : List K) (m : K)

/-- The least of a list and a start value: a lower bound, and one of them. -/
theorem foldl_min : l.foldl min m ≤ m ∧ (∀ a ∈ l, l.foldl min m ≤ a) ∧
    (l.foldl min m = m ∨ l.foldl min m ∈ l) :=
  foldl_select (fun a b => ⟨min_choice a b, min_le_left a b, min_le_right a b⟩) l m

theorem foldl_max : m ≤ l.foldl max m ∧ (∀ a ∈ l, a ≤ l.foldl max m) ∧
    (l.foldl max m = m ∨ l.foldl max m ∈ l) :=
  foldl_select (R := (· ≥ ·)) (fun a b => ⟨max_choice a b, le_max_left a b, le_max_right a b⟩) l m

end Order

end Extreme
