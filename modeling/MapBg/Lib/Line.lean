import Mathlib.Algebra.Group.Int.Defs
import Mathlib.Algebra.Group.Nat.Defs
import Mathlib.Tactic.Common

/-!
# Rounded lines on a grid

A line of `D` steps from `a` to `b`, along one axis: after `k` steps it has come `d * k / D` of the
way, where `d` is the distance, and the cell it is in is that, rounded to the nearest with halves
away from the start. `along` is this closed form; an axis with `d = D` moves at every step, and no
axis moves by more than one cell at a time.

A program does not divide. It keeps the number `err d D k`, which tells whether the next step
crosses the middle between two cells, and updates it by additions: `pass_eq` is one pass of such a
loop, for one axis. The other facts are those about the whole line: it starts at `a`, ends at `b`
and stays between them.
-/

set_option autoImplicit false

namespace Line

/-! ## How far along -/

/-- How far the slower axis has got when the faster one has made `k` of its `D` steps, if it has to
make `d`: the fraction, rounded to the nearest whole number, half upwards. -/
def rounded (d D k : Nat) : Nat := (2 * d * k + D) / (2 * D)

section

variable {d D k : Nat}

/-- Being within one half of the exact place, multiplied out. -/
theorem rounded_bounds (hD : 0 < D) :
    2 * D * rounded d D k ≤ 2 * d * k + D ∧ 2 * d * k + D < 2 * D * rounded d D k + 2 * D := by
  refine ⟨Nat.mul_div_le .., ?_⟩
  have hlt := Nat.lt_mul_div_succ (2 * d * k + D) (show 0 < 2 * D by omega)
  rw [Nat.mul_add, Nat.mul_one] at hlt
  exact hlt

/-- There is no other whole number so close. -/
theorem rounded_eq {n : Nat} (hle : 2 * D * n ≤ 2 * d * k + D)
    (hlt : 2 * d * k + D < 2 * D * n + 2 * D) : rounded d D k = n := by
  refine Nat.div_eq_of_lt_le ?_ ?_
  · rw [Nat.mul_comm]
    exact hle
  · rw [Nat.succ_mul n, Nat.mul_comm n]
    exact hlt

/-- The start, and an axis that does not move at all. -/
theorem rounded_zero : rounded d D 0 = 0 := by
  rw [rounded, Nat.mul_zero, Nat.zero_add]
  exact Nat.div_eq_zero_iff.mpr (by omega)

theorem rounded_still : rounded 0 D k = 0 := by
  rw [rounded, Nat.mul_zero, Nat.zero_mul, Nat.zero_add]
  exact Nat.div_eq_zero_iff.mpr (by omega)

theorem rounded_last (h : d ≤ D) : rounded d D D = d := by
  rcases Nat.eq_zero_or_pos D with rfl | hD
  · rw [Nat.le_zero.mp h, rounded_zero]
  · have hcomm : 2 * D * d = 2 * d * D := by rw [Nat.mul_right_comm]
    exact rounded_eq (by omega) (by omega)

theorem rounded_drive (hD : 0 < D) : rounded D D k = k := rounded_eq (by omega) (by omega)

theorem rounded_mono {j : Nat} (h : j ≤ k) : rounded d D j ≤ rounded d D k :=
  Nat.div_le_div_right (Nat.add_le_add_right (Nat.mul_le_mul_left _ h) _)

theorem rounded_le (h : d ≤ D) (hk : k ≤ D) : rounded d D k ≤ d := by
  have hmono := rounded_mono (d := d) (D := D) hk
  rw [rounded_last h] at hmono
  exact hmono

end

/-! ## The accumulator -/

/-- The value of `p` that the loop of the source decides by, in closed form: the distance of the
exact place from the halfway mark, times `2 D`. -/
def err (d D k : Nat) : Int := 2 * d * (k + 1) - D - 2 * D * rounded d D k

section

variable {d D k : Nat}

theorem err_zero : err d D 0 = 2 * d - D := by
  rw [err, rounded_zero]
  omega

/-- The loop's decision: the axis steps exactly if `p` is not negative. -/
theorem rounded_succ (hD : 0 < D) (h : d ≤ D) :
    rounded d D (k + 1) = if 0 ≤ err d D k then rounded d D k + 1 else rounded d D k := by
  obtain ⟨hle, hlt⟩ := rounded_bounds (d := d) (k := k) hD
  have hnext : 2 * d * (k + 1) = 2 * d * k + 2 * d := Nat.mul_succ ..
  have hcell : 2 * D * (rounded d D k + 1) = 2 * D * rounded d D k + 2 * D := Nat.mul_succ ..
  have herr : err d D k
      = ((2 * d * (k + 1) : Nat) : Int) - D - (2 * D * rounded d D k : Nat) := by
    rw [err]
    push_cast
    rfl
  split
  · exact rounded_eq (by omega) (by omega)
  · exact rounded_eq (by omega) (by omega)

/-- One pass keeps the number up to date. -/
theorem err_succ (hD : 0 < D) (h : d ≤ D) :
    err d D (k + 1) = (if 0 ≤ err d D k then err d D k - 2 * D else err d D k) + 2 * d := by
  have hnext : (2 * d * ((k + 1 : Nat) + 1) : Int) = 2 * d * (k + 1) + 2 * d := by
    rw [Int.mul_add, Int.mul_one]
    rfl
  have hcell : (2 * D * (rounded d D k + 1 : Nat) : Int) = 2 * D * rounded d D k + 2 * D := by
    push_cast
    rw [Int.mul_add, Int.mul_one]
  rw [err, rounded_succ hD h, hnext]
  split
  · rw [hcell, err]
    omega
  · rw [err]
    omega

end

/-! ## One axis -/

/-- The direction, forward or backward. It does not matter which one a still axis has. -/
def dir (a b : Int) : Int := if b > a then 1 else -1

/-- The coordinate on an axis that goes from `a` to `b`, after `k` steps of the fastest axis. -/
def along (a b : Int) (D k : Nat) : Int := a + (b - a).sign * rounded (b - a).natAbs D k

section

variable {a b : Int} {D k : Nat}

theorem along_eq_dir : along a b D k = a + dir a b * rounded (b - a).natAbs D k := by
  rw [along, dir]
  rcases Int.lt_trichotomy a b with hlt | heq | hgt
  · rw [if_pos hlt, Int.sign_eq_one_of_pos (by omega)]
  · rw [heq, Int.sub_self, Int.natAbs_zero, rounded_still]
    simp
  · rw [if_neg (by omega), Int.sign_eq_neg_one_of_neg (by omega)]

theorem along_zero : along a b D 0 = a := by
  rw [along, rounded_zero]
  simp

theorem along_last (h : (b - a).natAbs ≤ D) : along a b D D = b := by
  rw [along, rounded_last h, Int.sign_mul_natAbs]
  omega

theorem along_succ (hD : 0 < D) (h : (b - a).natAbs ≤ D) :
    along a b D (k + 1) = if 0 ≤ err (b - a).natAbs D k then along a b D k + dir a b
      else along a b D k := by
  rw [along_eq_dir, along_eq_dir, rounded_succ hD h]
  split
  · push_cast
    rw [Int.mul_add, Int.mul_one, Int.add_assoc]
  · rfl

/-- One pass over the pair a program keeps for an axis: where it is, and the number. -/
theorem pass_eq (hD : 0 < D) (h : (b - a).natAbs ≤ D) :
    (if err (b - a).natAbs D k ≥ 0 then (along a b D k + dir a b, err (b - a).natAbs D k - 2 * D)
      else (along a b D k, err (b - a).natAbs D k))
      = (along a b D (k + 1), err (b - a).natAbs D (k + 1) - 2 * (b - a).natAbs) := by
  rw [along_succ hD h, err_succ hD h]
  split <;> simp

/-- The longest axis moves at every step. -/
theorem along_drive (hD : 0 < D) (h : (b - a).natAbs = D) : along a b D k = a + dir a b * k := by
  rw [along_eq_dir, h, rounded_drive hD]

/-- The fastest axis steps every time. -/
theorem along_drive_succ (hD : 0 < D) (h : (b - a).natAbs = D) :
    along a b D (k + 1) = along a b D k + dir a b := by
  rw [along_drive hD h, along_drive hD h]
  push_cast
  rw [Int.mul_add, Int.mul_one, Int.add_assoc]

/-- So it reaches the end with the last step and not before. -/
theorem along_drive_eq_iff (h : (b - a).natAbs = D) (hk : k ≤ D) : along a b D k = b ↔ k = D := by
  constructor
  · intro heq
    by_contra hne
    have hD : 0 < D := by omega
    rw [along_drive hD h, dir] at heq
    split at heq <;> omega
  · rintro rfl
    exact along_last (Nat.le_of_eq h)

/-- The line stays between its ends, and so in every cube that has both of them. -/
theorem along_between {lo hi : Int} (hk : k ≤ D) (h : (b - a).natAbs ≤ D) (ha : lo ≤ a ∧ a ≤ hi)
    (hb : lo ≤ b ∧ b ≤ hi) : lo ≤ along a b D k ∧ along a b D k ≤ hi := by
  have hle := rounded_le h hk
  rw [along_eq_dir, dir]
  split <;> omega

end

end Line
