import Mathlib.Algebra.BigOperators.Field
import Mathlib.Algebra.Order.BigOperators.Ring.Finset
import Mathlib.Data.Matrix.Mul

/-!
# Elimination with pivots anywhere

A matrix `A` is inverted by row operations that are carried out on the identity as well. A `sweep`
takes an entry of the left matrix as the pivot, divides its row by it and clears the rest of its
column. What holds after any number of sweeps, in rows that were not used before, is `Reduced`: the
right matrix times `A` is the left one; the columns of the pivots are those of the identity, up to
the order; and a row that was not used yet has in the right matrix still its own 1.

The last is what makes the search for a pivot succeed. If `A` has an inverse whose entries are at
most `M`, some entry of the left matrix in an unused row is at least `1 / (n * M)` (`one_le`),
however the pivots before were chosen. When every column has its pivot, the rows of the right
matrix, brought into the order of the pivots, are the inverse (`inverse`).
-/

set_option autoImplicit false

namespace Elimination

variable {n K : Type*} [DecidableEq n] [Field K]

/-- Row `r` divided by `p`, and `fac i` times that subtracted from every other row. -/
def sweep {o : Type*} (fac : n → K) (p : K) (r : n) (m : Matrix n o K) : Matrix n o K := fun i j =>
  if i = r then m r j / p else m i j - fac i * (m r j / p)

variable [Fintype n]

theorem sweep_mul {o : Type*} (fac : n → K) (p : K) (r : n) (m : Matrix n n K) (A : Matrix n o K) :
    sweep fac p r m * A = sweep fac p r (m * A) := by
  ext i j
  have hrow : ∑ k, m r k / p * A k j = (m * A) r j / p := by
    rw [Matrix.mul_apply, Finset.sum_div]
    exact Finset.sum_congr rfl fun k _ => div_mul_eq_mul_div _ _ _
  rw [Matrix.mul_apply]
  unfold sweep
  split
  · exact hrow
  · rw [← hrow, Matrix.mul_apply, Finset.mul_sum, ← Finset.sum_sub_distrib]
    exact Finset.sum_congr rfl fun k _ => by rw [sub_mul, mul_assoc]

structure Reduced (A left right : Matrix n n K) (pivots : List (n × n)) : Prop where
  rows : right * A = left
  unit : ∀ q ∈ pivots, ∀ i, left i q.2 = if i = q.1 then 1 else 0
  unused : ∀ i, (∀ q ∈ pivots, q.1 ≠ i) → ∀ r, right r i = if r = i then 1 else 0

theorem reduced_start (A : Matrix n n K) : Reduced A A 1 [] where
  rows := Matrix.one_mul A
  unit q hq := absurd hq (by simp)
  unused i _ r := Matrix.one_apply

variable {A B left right : Matrix n n K} {pivots : List (n × n)}

theorem Reduced.step (h : Reduced A left right pivots) {r c : n} (hr : ∀ q ∈ pivots, q.1 ≠ r)
    (hp : left r c ≠ 0) : Reduced A (sweep (left · c) (left r c) r left)
      (sweep (left · c) (left r c) r right) (pivots ++ [(r, c)]) where
  rows := by rw [sweep_mul, h.rows]
  unit q hq i := by
    unfold sweep
    rcases List.mem_append.mp hq with hq | hq
    · -- the pivot row has a 0 in the column, and leaves it as it is
      have hzero : left r q.2 = 0 := (h.unit q hq r).trans (if_neg (hr q hq).symm)
      rw [hzero, zero_div, mul_zero, sub_zero, h.unit q hq i]
      split
      · next hi => rw [hi, if_neg (hr q hq).symm]
      · rfl
    -- the new column is a unit column, since the pivot is not 0
    · obtain rfl := List.mem_singleton.mp hq
      rw [div_self hp, mul_one, sub_self]
  unused i hi k := by
    have hzero : right r i = 0 :=
      (h.unused i (fun q hq => hi q (List.mem_append_left _ hq)) r).trans
        (if_neg (hi (r, c) (List.mem_append_right _ (List.mem_singleton_self _))))
    unfold sweep
    rw [hzero, zero_div, mul_zero, sub_zero,
      h.unused i (fun q hq => hi q (List.mem_append_left _ hq)) k]
    split
    · next hk =>
      rw [hk, if_neg (hi (r, c) (List.mem_append_right _ (List.mem_singleton_self _)))]
    · rfl

/-- The left matrix has a 0 where an unused row meets the column of a pivot. -/
theorem Reduced.eq_zero (h : Reduced A left right pivots) {i : n} (hi : ∀ q ∈ pivots, q.1 ≠ i)
    {q : n × n} (hq : q ∈ pivots) : left i q.2 = 0 :=
  (h.unit q hq i).trans (if_neg (hi q hq).symm)

theorem Reduced.one_le [LinearOrder K] [IsStrictOrderedRing K] (h : Reduced A left right pivots)
    (hB : A * B = 1) {i : n} (hi : ∀ q ∈ pivots, q.1 ≠ i) {p M : K} (hp : ∀ j, |left i j| ≤ p)
    (hM : ∀ j, |B j i| ≤ M) : 1 ≤ Fintype.card n * (p * M) := by
  have hone : right i i = 1 := (h.unused i hi i).trans (if_pos rfl)
  have hright : right = left * B := by rw [← h.rows, Matrix.mul_assoc, hB, Matrix.mul_one]
  calc (1 : K) = |∑ j, left i j * B j i| := by
        rw [← Matrix.mul_apply, ← hright, hone, abs_one]
    _ ≤ ∑ j, |left i j * B j i| := Finset.abs_sum_le_sum_abs _ _
    _ ≤ ∑ _j : n, p * M := Finset.sum_le_sum fun j _ => by
        rw [abs_mul]
        exact mul_le_mul (hp j) (hM j) (abs_nonneg _) ((abs_nonneg _).trans (hp j))
    _ = Fintype.card n * (p * M) := by
        rw [Finset.sum_const, Finset.card_univ, nsmul_eq_mul]

theorem Reduced.inverse (h : Reduced A left right pivots) (hrows : (pivots.map Prod.fst).Nodup)
    (hall : ∀ j, ∃ q ∈ pivots, q.2 = j) {order : n → n}
    (horder : ∀ q ∈ pivots, order q.2 = q.1) : right.submatrix order id * A = 1 := by
  ext i j
  obtain ⟨q, hq, rfl⟩ := hall j
  obtain ⟨q', hq', rfl⟩ := hall i
  have hleft : (right.submatrix order id * A) q'.2 q.2 = left q'.1 q.2 := by
    rw [← h.rows, ← horder q' hq']
    rfl
  rw [hleft, h.unit q hq, Matrix.one_apply]
  refine if_congr ⟨fun hrow => ?_, fun hcol => ?_⟩ rfl rfl
  · rw [List.inj_on_of_nodup_map hrows hq' hq hrow]
  · rw [← horder q' hq', ← horder q hq, hcol]

end Elimination
