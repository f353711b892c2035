import Mathlib.Analysis.SpecialFunctions.Log.Base
import Mathlib.Analysis.SpecialFunctions.Trigonometric.Basic
import MapBg.Gmtl.Matrix

/-!
# The camera: its directions and its view matrix

A camera in flight has a position and two angles, `dir[0]` to turn and `dir[1]` to tilt. `GetDirs`
makes the three directions of it: forward by two rotations, given as quaternions, and right and up
by cross products. The view matrix is not written down from these. Its inverse is, which takes the
coordinates of the camera to those of the world, and is then inverted in general.

Both come out as they should (`orthonormal_getDirs`, `viewMatrix_exact`), unless the camera looks
straight up or down. Then right is the cross product of two parallel vectors, which is 0 and cannot
be normalized.

The functions of the math library are a class over the operations, without laws as these; in exact
arithmetic they are those of the real numbers.
-/

set_option autoImplicit false

namespace MapBg

/-- The functions of `<math.h>` that the camera needs, with nothing said of them: the code is
written over any such numbers, and proved about over the real ones. -/
class FloatMath (F : Type) extends FloatLike F where
  sqrt : F → F
  sin : F → F
  cos : F → F
  tan : F → F
  log2 : F → F
  pi : F

/-! ## The code -/

section Code

variable {F : Type} [FloatMath F]

/-- `gmtl::Quat`, with the real part last. -/
structure Quat (F : Type) where
  x : F
  y : F
  z : F
  w : F

/-- `gmtl::set` of a quaternion to an angle about an axis. -/
def Quat.ofAxisAngle (angle : F) (axis : Point3 F) : Quat F :=
  let half_angle := angle * FloatLike.powf2 (-1)
  let sin_half_angle := FloatMath.sin half_angle
  ⟨sin_half_angle * axis.x, sin_half_angle * axis.y, sin_half_angle * axis.z,
    FloatMath.cos half_angle⟩

/-- `gmtl::xform` of a vector, expanded by hand. -/
def Quat.xform (rot : Quat F) (vector : Point3 F) : Point3 F :=
  let rot_conj : Quat F := ⟨-rot.x, -rot.y, -rot.z, rot.w⟩
  let pure : Quat F := ⟨vector.x, vector.y, vector.z, FloatLike.ofInt 0⟩
  let temp : Quat F :=
    ⟨pure.w * rot_conj.x + pure.x * rot_conj.w + pure.y * rot_conj.z - pure.z * rot_conj.y,
      pure.w * rot_conj.y + pure.y * rot_conj.w + pure.z * rot_conj.x - pure.x * rot_conj.z,
      pure.w * rot_conj.z + pure.z * rot_conj.w + pure.x * rot_conj.y - pure.y * rot_conj.x,
      pure.w * rot_conj.w - pure.x * rot_conj.x - pure.y * rot_conj.y - pure.z * rot_conj.z⟩
  ⟨rot.w * temp.x + rot.x * temp.w + rot.y * temp.z - rot.z * temp.y,
    rot.w * temp.y + rot.y * temp.w + rot.z * temp.x - rot.x * temp.z,
    rot.w * temp.z + rot.z * temp.w + rot.x * temp.y - rot.y * temp.x⟩

def cross (v1 v2 : Point3 F) : Point3 F :=
  ⟨v1.y * v2.z - v1.z * v2.y, v1.z * v2.x - v1.x * v2.z, v1.x * v2.y - v1.y * v2.x⟩

variable [BEq F]

/-- `gmtl::length`. A square root of 0 is not taken. -/
def length (v : Point3 F) : F :=
  let ret_val := dot v v
  if ret_val == FloatLike.ofInt 0 then FloatLike.ofInt 0 else FloatMath.sqrt ret_val

/-- `gmtl::normalize`. A vector of length 0 stays as it is. -/
def normalize (v : Point3 F) : Point3 F :=
  let len := length v
  if len != FloatLike.ofInt 0 then ⟨v.x / len, v.y / len, v.z / len⟩ else v

/-- What `GetDirs` returns in its three arguments. -/
structure Dirs (F : Type) where
  right : Point3 F
  up : Point3 F
  forward : Point3 F

/-- `Camera::Fly`, with `dir[0]` and `dir[1]`. -/
structure Fly (F : Type) where
  pos : Point3 F
  dir : F × F

/-- `Camera::Fly::GetDirs`: the direction ahead is tilted, then turned, and the other two are made
from it. Straight up or down, the cross product with the vertical is 0 and stays so. -/
def Fly.getDirs (fly : Fly F) : Dirs F :=
  let zero : F := FloatLike.ofInt 0
  let one : F := FloatLike.ofInt 1
  let forward := (Quat.ofAxisAngle fly.dir.2 ⟨one, zero, zero⟩).xform ⟨zero, zero, one⟩
  let forward := (Quat.ofAxisAngle fly.dir.1 ⟨zero, one, zero⟩).xform forward
  let forward := normalize forward
  let right := normalize (cross forward ⟨zero, -one, zero⟩)
  let up := normalize (cross forward right)
  ⟨right, up, forward⟩

/-- `rot`, after `transpose`. -/
def Dirs.rot (d : Dirs F) : Matrix (Fin 4) (Fin 4) F :=
  let zero : F := FloatLike.ofInt 0
  let one : F := FloatLike.ofInt 1
  (!![d.right.x, d.right.y, d.right.z, zero;
    d.up.x, d.up.y, d.up.z, zero;
    d.forward.x, d.forward.y, d.forward.z, zero;
    zero, zero, zero, one]).transpose

/-- `setTrans`. -/
def setTrans (pos : Point3 F) : Matrix (Fin 4) (Fin 4) F :=
  let zero : F := FloatLike.ofInt 0
  let one : F := FloatLike.ofInt 1
  !![one, zero, zero, pos.x;
    zero, one, zero, pos.y;
    zero, zero, one, pos.z;
    zero, zero, zero, one]

/-- `Camera::ViewMatrix`, where it is computed. -/
def Fly.viewMatrix [LE F] [DecidableLE F] (fly : Fly F) : Matrix (Fin 4) (Fin 4) F :=
  Gmtl.invert (Gmtl.mult (setTrans fly.pos) fly.getDirs.rot)

end Code

/-! ## Over the real numbers -/

section Exact

noncomputable instance : FloatMath ℝ where
  sqrt := Real.sqrt
  sin := Real.sin
  cos := Real.cos
  tan := Real.tan
  log2 := Real.logb (FloatLike.powf2 1)
  pi := Real.pi

variable {v w : Point3 ℝ}

theorem sin_exact (x : ℝ) : FloatMath.sin x = Real.sin x := rfl

theorem cos_exact (x : ℝ) : FloatMath.cos x = Real.cos x := rfl

theorem cross_exact (v w : Point3 ℝ) : cross v w
    = ⟨v.y * w.z - v.z * w.y, v.z * w.x - v.x * w.z, v.x * w.y - v.y * w.x⟩ := rfl

theorem length_exact (v : Point3 ℝ) : length v = √(dot v v) := by
  have hsqrt : FloatMath.sqrt (dot v v) = √(dot v v) := rfl
  simp only [length, ofInt_exact, Int.cast_zero, hsqrt]
  split
  · next h => rw [eq_of_beq h, Real.sqrt_zero]
  · rfl

theorem dot_self_nonneg (v : Point3 ℝ) : 0 ≤ dot v v := by
  rw [dot_exact]
  linarith [mul_self_nonneg v.x, mul_self_nonneg v.y, mul_self_nonneg v.z]

theorem sqrt_dot_ne_zero (h : dot v v ≠ 0) : √(dot v v) ≠ 0 := fun h0 =>
  h ((Real.sqrt_eq_zero (dot_self_nonneg v)).mp h0)

theorem normalize_exact (h : dot v v ≠ 0) :
    normalize v = ⟨v.x / √(dot v v), v.y / √(dot v v), v.z / √(dot v v)⟩ := by
  simp only [normalize, length_exact, ofInt_exact, Int.cast_zero]
  exact if_pos (bne_iff_ne.mpr (sqrt_dot_ne_zero h))

theorem normalize_of_unit (h : dot v v = 1) : normalize v = v := by
  rw [normalize_exact (by rw [h]; exact one_ne_zero), h, Real.sqrt_one, div_one, div_one, div_one]

theorem normalize_mul (hv : dot v v = 1) {c : ℝ} (hc : 0 < c) :
    normalize ⟨c * v.x, c * v.y, c * v.z⟩ = v := by
  have hsq : dot (⟨c * v.x, c * v.y, c * v.z⟩ : Point3 ℝ) ⟨c * v.x, c * v.y, c * v.z⟩ = c ^ 2 := by
    rw [dot_exact] at hv ⊢
    linear_combination c ^ 2 * hv
  have hne : c ^ 2 ≠ 0 := pow_ne_zero 2 hc.ne'
  rw [normalize_exact (by rwa [hsq]), hsq, Real.sqrt_sq hc.le]
  simp only [mul_div_cancel_left₀ _ hc.ne']

theorem dot_normalize (h : dot v v ≠ 0) : dot (normalize v) (normalize v) = 1 := by
  have hlen := sqrt_dot_ne_zero h
  rw [normalize_exact h, dot_exact]
  field_simp
  rw [Real.sq_sqrt (dot_self_nonneg v), dot_exact]
  ring

/-! ### The directions -/

/-- Three directions that are perpendicular to each other, each of length 1. -/
structure Dirs.Orthonormal (d : Dirs ℝ) : Prop where
  right : dot d.right d.right = 1
  up : dot d.up d.up = 1
  forward : dot d.forward d.forward = 1
  right_up : dot d.right d.up = 0
  right_forward : dot d.right d.forward = 0
  up_forward : dot d.up d.forward = 0

/-- The half angle is doubled again. -/
theorem half_angle (angle : ℝ) :
    let half := angle * FloatLike.powf2 (-1)
    Real.sin angle = 2 * Real.sin half * Real.cos half ∧
      Real.cos angle = Real.cos half ^ 2 - Real.sin half ^ 2 := by
  have hhalf : angle * (FloatLike.powf2 (-1) : ℝ) = angle / 2 := by
    show angle * 2 ^ (-1 : ℤ) = angle / 2
    rw [zpow_neg_one, div_eq_mul_inv]
  have hdouble : angle = 2 * (angle / 2) := by ring
  dsimp only
  rw [hhalf]
  refine ⟨?_, ?_⟩
  · rw [← Real.sin_two_mul, ← hdouble]
  · rw [← Real.cos_two_mul', ← hdouble]

theorem xform_exact (q : Quat ℝ) (v : Point3 ℝ) : q.xform v =
    ⟨(q.w ^ 2 + q.x ^ 2 - q.y ^ 2 - q.z ^ 2) * v.x + 2 * (q.x * q.y - q.w * q.z) * v.y
        + 2 * (q.x * q.z + q.w * q.y) * v.z,
      2 * (q.x * q.y + q.w * q.z) * v.x + (q.w ^ 2 - q.x ^ 2 + q.y ^ 2 - q.z ^ 2) * v.y
        + 2 * (q.y * q.z - q.w * q.x) * v.z,
      2 * (q.x * q.z - q.w * q.y) * v.x + 2 * (q.y * q.z + q.w * q.x) * v.y
        + (q.w ^ 2 - q.x ^ 2 - q.y ^ 2 + q.z ^ 2) * v.z⟩ := by
  simp only [Quat.xform, ofInt_exact, Int.cast_zero, Point3.mk.injEq]
  refine ⟨by ring, by ring, by ring⟩

theorem tilt (angle : ℝ) :
    (Quat.ofAxisAngle angle ⟨FloatLike.ofInt 1, FloatLike.ofInt 0, FloatLike.ofInt 0⟩).xform
      ⟨FloatLike.ofInt 0, FloatLike.ofInt 0, FloatLike.ofInt 1⟩
    = ⟨0, -Real.sin angle, Real.cos angle⟩ := by
  obtain ⟨hsin, hcos⟩ := half_angle angle
  rw [xform_exact, hsin, hcos]
  simp only [Quat.ofAxisAngle, ofInt_exact, Int.cast_zero, Int.cast_one, Point3.mk.injEq]
  refine ⟨by ring, ?_, ?_⟩
  · rw [sin_exact, cos_exact]
    ring
  · rw [sin_exact, cos_exact]
    ring

theorem turn (angle : ℝ) (v : Point3 ℝ) :
    (Quat.ofAxisAngle angle ⟨FloatLike.ofInt 0, FloatLike.ofInt 1, FloatLike.ofInt 0⟩).xform v
    = ⟨Real.cos angle * v.x + Real.sin angle * v.z, v.y,
        Real.cos angle * v.z - Real.sin angle * v.x⟩ := by
  obtain ⟨hsin, hcos⟩ := half_angle angle
  have hone := Real.cos_sq_add_sin_sq (angle * FloatLike.powf2 (-1))
  rw [xform_exact, hsin, hcos]
  simp only [Quat.ofAxisAngle, ofInt_exact, Int.cast_zero, Int.cast_one, Point3.mk.injEq,
    sin_exact, cos_exact]
  refine ⟨by ring, ?_, by ring⟩
  linear_combination v.y * hone

/-- The z axis, tilted and then turned. -/
noncomputable def Fly.ahead (fly : Fly ℝ) : Point3 ℝ :=
  ⟨Real.cos fly.dir.2 * Real.sin fly.dir.1, -Real.sin fly.dir.2,
    Real.cos fly.dir.2 * Real.cos fly.dir.1⟩

/-- A camera that is not tilted is not vertical. -/
theorem Fly.cos_ne_zero {fly : Fly ℝ} (h : fly.dir.2 = 0) : Real.cos fly.dir.2 ≠ 0 := by
  rw [h, Real.cos_zero]
  exact one_ne_zero

theorem dot_ahead (fly : Fly ℝ) : dot fly.ahead fly.ahead = 1 := by
  rw [dot_exact, Fly.ahead]
  linear_combination Real.cos fly.dir.2 ^ 2 * Real.cos_sq_add_sin_sq fly.dir.1
    + Real.cos_sq_add_sin_sq fly.dir.2

theorem forward_getDirs (fly : Fly ℝ) : fly.getDirs.forward = fly.ahead := by
  rw [← normalize_of_unit (dot_ahead fly)]
  simp only [Fly.getDirs, tilt, turn]
  rw [mul_zero, mul_zero, zero_add, sub_zero, mul_comm (Real.sin fly.dir.1),
    mul_comm (Real.cos fly.dir.1)]
  rfl

theorem dot_cross (v w : Point3 ℝ) :
    dot (cross v w) (cross v w) = dot v v * dot w w - dot v w ^ 2 := by
  simp only [dot_exact, cross_exact]
  ring

/-- Two cross products make three directions from one, unless it is vertical. -/
theorem orthonormal_of_forward (h : dot v v = 1) (hlevel : v.x ^ 2 + v.z ^ 2 ≠ 0) :
    let right := normalize (cross v ⟨FloatLike.ofInt 0, -FloatLike.ofInt 1, FloatLike.ofInt 0⟩)
    Dirs.Orthonormal ⟨right, normalize (cross v right), v⟩ := by
  have hcross : cross v ⟨FloatLike.ofInt 0, -FloatLike.ofInt 1, FloatLike.ofInt 0⟩
      = ⟨v.z, 0, -v.x⟩ := by
    simp only [cross_exact, ofInt_exact, Int.cast_zero, Int.cast_one, Point3.mk.injEq]
    refine ⟨by ring, by ring, by ring⟩
  -- the cross product with the vertical vanishes only straight up or down
  have hlen : dot (⟨v.z, 0, -v.x⟩ : Point3 ℝ) ⟨v.z, 0, -v.x⟩ ≠ 0 := by
    rw [dot_exact]
    intro h0
    exact hlevel (by linear_combination h0)
  rw [hcross]
  intro right
  have hright : dot right right = 1 := dot_normalize hlen
  have hforward : dot right v = 0 := by
    rw [show right = _ from normalize_exact hlen, dot_exact]
    ring
  have hforward' : dot v right = 0 := by
    rw [dot_exact] at hforward ⊢
    linear_combination hforward
  -- `up` has length 1 already
  have hunit : dot (cross v right) (cross v right) = 1 := by
    rw [dot_cross, h, hright, hforward']
    ring
  rw [normalize_of_unit hunit]
  refine ⟨hright, hunit, h, ?_, hforward, ?_⟩
  · simp only [dot_exact, cross_exact]
    ring
  · simp only [dot_exact, cross_exact]
    ring

/-- Unless the camera looks straight up or down. -/
theorem orthonormal_getDirs {fly : Fly ℝ} (h : Real.cos fly.dir.2 ≠ 0) :
    fly.getDirs.Orthonormal := by
  have hsq : fly.ahead.x ^ 2 + fly.ahead.z ^ 2 = Real.cos fly.dir.2 ^ 2 := by
    rw [Fly.ahead]
    linear_combination Real.cos fly.dir.2 ^ 2 * Real.cos_sq_add_sin_sq fly.dir.1
  have hunit : dot fly.getDirs.forward fly.getDirs.forward = 1 := by
    rw [forward_getDirs]
    exact dot_ahead fly
  have hlevel : fly.getDirs.forward.x ^ 2 + fly.getDirs.forward.z ^ 2 ≠ 0 := by
    rw [forward_getDirs, hsq]
    exact pow_ne_zero 2 h
  exact orthonormal_of_forward hunit hlevel

/-! ### The view matrix -/

/-- The coordinates of the world seen from the camera: along right, up and forward. -/
noncomputable def Fly.viewed (fly : Fly ℝ) : Matrix (Fin 4) (Fin 4) ℝ :=
  let d := fly.getDirs
  !![d.right.x, d.right.y, d.right.z, -dot d.right fly.pos;
    d.up.x, d.up.y, d.up.z, -dot d.up fly.pos;
    d.forward.x, d.forward.y, d.forward.z, -dot d.forward fly.pos;
    0, 0, 0, 1]

theorem mult_rot (d : Dirs ℝ) (pos : Point3 ℝ) : Gmtl.mult (setTrans pos) d.rot
    = !![d.right.x, d.up.x, d.forward.x, pos.x;
        d.right.y, d.up.y, d.forward.y, pos.y;
        d.right.z, d.up.z, d.forward.z, pos.z;
        0, 0, 0, 1] := by
  rw [Gmtl.mult_exact]
  ext i j
  fin_cases i <;> fin_cases j <;>
    simp [setTrans, Dirs.rot, Matrix.mul_apply, Fin.sum_univ_four, ofInt_exact]

theorem viewed_mul {fly : Fly ℝ} (h : fly.getDirs.Orthonormal) :
    fly.viewed * Gmtl.mult (setTrans fly.pos) fly.getDirs.rot = 1 := by
  obtain ⟨hr, hu, hf, hru, hrf, huf⟩ := h
  rw [mult_rot]
  simp only [dot_exact] at hr hu hf hru hrf huf
  ext i j
  fin_cases i <;> fin_cases j <;>
    simp [Fly.viewed, Matrix.mul_apply, Fin.sum_univ_four, dot_exact] <;> linarith

theorem abs_le_one_of_unit (h : dot v v = 1) : v.Within 1 := by
  rw [dot_exact] at h
  refine ⟨?_, ?_, ?_⟩ <;> rw [abs_le_one_iff_mul_self_le_one] <;>
    nlinarith [mul_self_nonneg v.x, mul_self_nonneg v.y, mul_self_nonneg v.z]

theorem abs_dot_le {b : ℝ} (hv : v.Within 1) (hw : w.Within b) : |dot v w| ≤ 3 * b := by
  have hmul : ∀ {a c : ℝ}, |a| ≤ 1 → |c| ≤ b → |a * c| ≤ b := by
    intro a c ha hc
    rw [abs_mul]
    exact (mul_le_of_le_one_left (abs_nonneg c) ha).trans hc
  rw [dot_exact]
  have hx := hmul hv.1 hw.1
  have hy := hmul hv.2.1 hw.2.1
  have hz := hmul hv.2.2 hw.2.2
  linarith [abs_add_le (v.z * w.z) (v.y * w.y + v.x * w.x), abs_add_le (v.y * w.y) (v.x * w.x)]

/-- The entries of the inverse are not large, so that the pivots are not taken for 0. -/
theorem abs_viewed_le {fly : Fly ℝ} (h : fly.getDirs.Orthonormal) {b : ℝ} (hb : 1 ≤ b)
    (hpos : fly.pos.Within b) (i j : Fin 4) : |fly.viewed i j| ≤ 3 * b := by
  have hr := abs_le_one_of_unit h.right
  have hu := abs_le_one_of_unit h.up
  have hf := abs_le_one_of_unit h.forward
  have hone : ∀ {a : ℝ}, |a| ≤ 1 → |a| ≤ 3 * b := fun ha => ha.trans (by linarith)
  -- the rows are right, up and ahead, each with the position seen from there
  fin_cases i <;> fin_cases j
  · exact hone hr.1
  · exact hone hr.2.1
  · exact hone hr.2.2
  · exact (abs_neg _).trans_le (abs_dot_le hr hpos)
  · exact hone hu.1
  · exact hone hu.2.1
  · exact hone hu.2.2
  · exact (abs_neg _).trans_le (abs_dot_le hu hpos)
  · exact hone hf.1
  · exact hone hf.2.1
  · exact hone hf.2.2
  · exact (abs_neg _).trans_le (abs_dot_le hf hpos)
  · exact hone (by simp [Fly.viewed])
  · exact hone (by simp [Fly.viewed])
  · exact hone (by simp [Fly.viewed])
  · exact hone (by simp [Fly.viewed])

/-- So the view matrix is the inverse that it is meant to be, for a camera within 10¹⁸ of the origin
that does not look straight up or down. -/
theorem viewMatrix_exact {fly : Fly ℝ} (h : Real.cos fly.dir.2 ≠ 0)
    (hpos : fly.pos.Within (10 ^ 18)) : fly.viewMatrix = fly.viewed := by
  have horth := orthonormal_getDirs h
  have hinvert := Gmtl.invertFull_eq (mul_eq_one_comm.mp (viewed_mul horth))
    (abs_viewed_le horth (by norm_num) hpos) (by norm_num)
  rw [Fly.viewMatrix, Gmtl.invert, hinvert]
  rfl

end Exact

end MapBg
