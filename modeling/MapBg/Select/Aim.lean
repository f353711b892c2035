import MapBg.Select.Clip
import MapBg.Select.Pick

/-!
# The ray under the cursor

The cursor is in the middle of the screen. To find where it points, `World::Update` takes the
matrices the two passes are drawn with, inverts them, and takes the middle of the screen back to the
world: at the near distance of the near pass, and at the far distance of the far pass. The ray goes
from the one to the other.

Both are points straight ahead of the camera, so the ray is what one would have written down without
any matrices (`aimRay_eq`).
-/

set_option autoImplicit false

namespace MapBg

open Gmtl

/-! ## The code -/

section Code

variable {F : Type} [FloatMath F] [LE F] [DecidableLE F]

/-- `invert`, `xform` and the division by the fourth coordinate. -/
def unproject (m : Matrix (Fin 4) (Fin 4) F) (screen : Fin 4 → F) : Point3 F :=
  let ws := Gmtl.xform (invert m) screen
  ⟨ws Xelt / ws Welt, ws Yelt / ws Welt, ws Zelt / ws Welt⟩

/-- What `World::Update` hands to `Intersects`. -/
def Fly.aimRay [BEq F] (fly : Fly F) (aspect near mid far : F) : Ray F :=
  let zero : F := FloatLike.ofInt 0
  let one : F := FloatLike.ofInt 1
  let nearWsPt := unproject (fly.viewProj aspect near mid) ![zero, zero, zero, one]
  let farWsPt := unproject (fly.viewProj aspect mid far) ![zero, zero, one, one]
  ⟨nearWsPt, normalize ⟨farWsPt.x - nearWsPt.x, farWsPt.y - nearWsPt.y, farWsPt.z - nearWsPt.z⟩⟩

end Code

/-! ## Over the real numbers -/

section Exact

variable {fly : Fly ℝ} {aspect nr fr : ℝ}

/-- The inverse of the projection. -/
noncomputable def unproj (aspect nr fr : ℝ) : Matrix (Fin 4) (Fin 4) ℝ :=
  !![slope * aspect, 0, 0, 0;
    0, slope, 0, 0;
    0, 0, 0, 1;
    0, 0, -(fr - nr) / (fr * nr), 1 / nr]

theorem perspective_mul_unproj (h : fly.Sees aspect nr fr) :
    setPerspective (FloatLike.ofInt 60) aspect nr fr * unproj aspect nr fr = 1 := by
  have hs := slope_pos
  have ha := h.aspect
  have hn := h.near
  have hf : 0 < fr := hn.trans h.far
  have hd : fr - nr ≠ 0 := (sub_pos.mpr h.far).ne'
  rw [setPerspective_exact ha hn]
  ext i j
  fin_cases i <;> fin_cases j <;> simp [unproj, Matrix.mul_apply, Fin.sum_univ_four] <;>
    field_simp <;> ring

/-- From the screen back to the camera, and from the camera to the world. -/
noncomputable def Fly.fromScreen (fly : Fly ℝ) (aspect nr fr : ℝ) : Matrix (Fin 4) (Fin 4) ℝ :=
  mult (setTrans fly.pos) fly.getDirs.rot * unproj aspect nr fr

theorem viewProj_mul (h : fly.Sees aspect nr fr) :
    fly.viewProj aspect nr fr * fly.fromScreen aspect nr fr = 1 := by
  rw [Fly.viewProj, mult_exact, viewMatrix_exact h.level h.pos, Fly.fromScreen, Matrix.mul_assoc,
    ← Matrix.mul_assoc fly.viewed, viewed_mul (orthonormal_getDirs h.level), Matrix.one_mul,
    perspective_mul_unproj h]

/-! ### Nothing is too large to be inverted -/

theorem abs_mul_le {A B : Matrix (Fin 4) (Fin 4) ℝ} {a b : ℝ} (hA : ∀ i j, |A i j| ≤ a)
    (hB : ∀ i j, |B i j| ≤ b) (i j : Fin 4) : |(A * B) i j| ≤ 4 * (a * b) := by
  have hterm (k : Fin 4) : |A i k * B k j| ≤ a * b := by
    rw [abs_mul]
    exact mul_le_mul (hA i k) (hB k j) (abs_nonneg _) ((abs_nonneg _).trans (hA i k))
  calc |(A * B) i j| = |∑ k, A i k * B k j| := by rw [Matrix.mul_apply]
    _ ≤ ∑ k, |A i k * B k j| := Finset.abs_sum_le_sum_abs _ _
    _ ≤ ∑ _k : Fin 4, a * b := Finset.sum_le_sum fun k _ => hterm k
    _ = 4 * (a * b) := by
      rw [Finset.sum_const, Finset.card_univ, Fintype.card_fin, nsmul_eq_mul, Nat.cast_ofNat]

theorem abs_camera_le (h : fly.getDirs.Orthonormal) {b : ℝ} (hb : 1 ≤ b) (hpos : fly.pos.Within b)
    (i j : Fin 4) : |mult (setTrans fly.pos) fly.getDirs.rot i j| ≤ b := by
  have hr := abs_le_one_of_unit h.right
  have hu := abs_le_one_of_unit h.up
  have hf := abs_le_one_of_unit h.forward
  rw [mult_rot]
  -- the columns are right, up, ahead and the position
  fin_cases i <;> fin_cases j
  · exact hr.1.trans hb
  · exact hu.1.trans hb
  · exact hf.1.trans hb
  · exact hpos.1
  · exact hr.2.1.trans hb
  · exact hu.2.1.trans hb
  · exact hf.2.1.trans hb
  · exact hpos.2.1
  · exact hr.2.2.trans hb
  · exact hu.2.2.trans hb
  · exact hf.2.2.trans hb
  · exact hpos.2.2
  · simpa using zero_le_one.trans hb
  · simpa using zero_le_one.trans hb
  · simpa using zero_le_one.trans hb
  · simpa using hb

theorem slope_le_one : slope ≤ 1 := by
  rw [slope, Real.tan_pi_div_six]
  exact div_le_one_of_le₀ (Real.one_le_sqrt.mpr (by norm_num)) (Real.sqrt_nonneg _)

theorem abs_unproj_le (h : fly.Sees aspect nr fr) {b : ℝ} (hb : 1 ≤ b) (haspect : aspect ≤ b)
    (hnear : 1 ≤ b * nr) (i j : Fin 4) : |unproj aspect nr fr i j| ≤ b := by
  have hs := slope_pos
  have hn := h.near
  have hfr : 0 < fr := hn.trans h.far
  have hinv : 1 / nr ≤ b := by rwa [div_le_iff₀ hn]
  have hzero : |(0 : ℝ)| ≤ b := by simpa using zero_le_one.trans hb
  -- five entries are not 0
  fin_cases i <;> fin_cases j
  · show |slope * aspect| ≤ b
    rw [abs_of_pos (mul_pos hs h.aspect)]
    exact (mul_le_of_le_one_left h.aspect.le slope_le_one).trans haspect
  · exact hzero
  · exact hzero
  · exact hzero
  · exact hzero
  · show |slope| ≤ b
    rw [abs_of_pos hs]
    exact slope_le_one.trans hb
  · exact hzero
  · exact hzero
  · exact hzero
  · exact hzero
  · exact hzero
  · show |(1 : ℝ)| ≤ b
    rwa [abs_one]
  · exact hzero
  · exact hzero
  · show |-(fr - nr) / (fr * nr)| ≤ b
    rw [neg_div, abs_neg, abs_of_pos (div_pos (sub_pos.mpr h.far) (mul_pos hfr hn))]
    refine le_trans ?_ hinv
    rw [div_le_div_iff₀ (mul_pos hfr hn) hn, one_mul]
    exact mul_le_mul_of_nonneg_right (by linarith) hn.le
  · show |1 / nr| ≤ b
    rwa [abs_of_pos (one_div_pos.mpr hn)]

/-! ### The middle of the screen -/

/-- What is taken for granted of the camera and of the two passes. -/
structure Fly.Aims (fly : Fly ℝ) (aspect nr fr : ℝ) : Prop where
  sees : fly.Sees aspect nr fr
  here : fly.pos.Within (10 ^ 6)
  wide : aspect ≤ 10 ^ 6
  notTouching : 1 ≤ 10 ^ 6 * nr

/-- The entries of the inverse are in the bounds that elimination needs. -/
theorem Fly.Aims.invertFull (h : fly.Aims aspect nr fr) :
    Gmtl.invertFull (fly.viewProj aspect nr fr) = some (fly.fromScreen aspect nr fr) := by
  have hb : (1 : ℝ) ≤ 10 ^ 6 := by norm_num
  refine invertFull_eq (viewProj_mul h.sees) (abs_mul_le
    (abs_camera_le (orthonormal_getDirs h.sees.level) hb h.here)
    (abs_unproj_le h.sees hb h.wide h.notTouching)) ?_
  norm_num

/-- The middle of the screen at depth `d` is straight ahead, as far away as one over `w`. -/
theorem unproject_middle (h : fly.Aims aspect nr fr) {d w : ℝ}
    (hw : w = 1 / nr - d * ((fr - nr) / (fr * nr))) (hw0 : w ≠ 0) :
    unproject (fly.viewProj aspect nr fr) ![0, 0, d, 1] = fly.pointAhead (1 / w) := by
  have hback : (unproj aspect nr fr).mulVec ![0, 0, d, 1] = ![0, 0, 1, w] := by
    ext i
    fin_cases i <;> simp [unproj, Matrix.mulVec, dotProduct, Fin.sum_univ_four, hw]
    ring
  have hworld : (fly.fromScreen aspect nr fr).mulVec ![0, 0, d, 1]
      = ![fly.ahead.x + w * fly.pos.x, fly.ahead.y + w * fly.pos.y, fly.ahead.z + w * fly.pos.z,
        w] := by
    rw [Fly.fromScreen, ← Matrix.mulVec_mulVec, hback, mult_rot, forward_getDirs]
    ext i
    fin_cases i <;> simp [Matrix.mulVec, dotProduct, Fin.sum_univ_four] <;> ring
  rw [unproject, invert, h.invertFull, Option.getD_some, Gmtl.xform_exact, hworld, Fly.pointAhead]
  simp only [elt_eq, Point3.mk.injEq]
  refine ⟨?_, ?_, ?_⟩ <;> simp <;> field_simp <;> ring

/-- Through the two matrices and their inverses: from the near distance, straight ahead. The camera
is within 10⁶ of the origin on each axis and does not look straight up or down; the aspect ratio is
at most 10⁶, and the near distance at least 10⁻⁶. -/
theorem aimRay_eq {near mid far : ℝ} (hfirst : fly.Aims aspect near mid)
    (hsecond : fly.Aims aspect mid far) :
    fly.aimRay aspect near mid far = ⟨fly.pointAhead near, fly.ahead⟩ := by
  have hn := hfirst.sees.near
  have hm := hsecond.sees.near
  have hfar := hsecond.sees.far
  have hf : 0 < far := hm.trans hfar
  have hstart : unproject (fly.viewProj aspect near mid) ![0, 0, 0, 1] = fly.pointAhead near := by
    rw [unproject_middle hfirst (w := 1 / near) (by rw [zero_mul, sub_zero])
      (one_div_pos.mpr hn).ne', one_div_one_div]
  have hend : unproject (fly.viewProj aspect mid far) ![0, 0, 1, 1] = fly.pointAhead far := by
    rw [unproject_middle hsecond (w := 1 / far) (by field_simp; ring) (one_div_pos.mpr hf).ne',
      one_div_one_div]
  -- the two points differ by a multiple of the direction ahead
  have hdir : (⟨(fly.pointAhead far).x - (fly.pointAhead near).x,
      (fly.pointAhead far).y - (fly.pointAhead near).y,
      (fly.pointAhead far).z - (fly.pointAhead near).z⟩ : Point3 ℝ)
      = ⟨(far - near) * fly.ahead.x, (far - near) * fly.ahead.y, (far - near) * fly.ahead.z⟩ := by
    simp only [Fly.pointAhead, Point3.mk.injEq]
    refine ⟨?_, ?_, ?_⟩ <;> ring
  have hlong : 0 < far - near := sub_pos.mpr (hfirst.sees.far.trans hfar)
  simp only [Fly.aimRay, ofInt_exact, Int.cast_zero, Int.cast_one, hstart, hend, hdir,
    normalize_mul (dot_ahead fly) hlong]

/-- Looking along the third axis, with the distances of `GetNearFarMidDist` on a square screen. -/
theorem aimRay_eq_start : let fly : Fly ℝ := ⟨⟨0, 0, -1 / 2⟩, (0, 0)⟩
    fly.Aims 1 (1 / 1000) 6 ∧ fly.Aims 1 6 180 ∧
      fly.aimRay 1 (1 / 1000) 6 180 = ⟨⟨0, 0, -1 / 2 + 1 / 1000⟩, ⟨0, 0, 1⟩⟩ := by
  intro fly
  have hlevel : Real.cos fly.dir.2 ≠ 0 := Fly.cos_ne_zero rfl
  have hwithin {b : ℝ} (hb : 1 ≤ b) : fly.pos.Within b := by
    refine ⟨?_, ?_, ?_⟩ <;> norm_num [fly] <;> linarith
  have hfirst : fly.Aims 1 (1 / 1000) 6 :=
    ⟨⟨hlevel, hwithin (by norm_num), one_pos, by norm_num, by norm_num⟩, hwithin (by norm_num),
      by norm_num, by norm_num⟩
  have hsecond : fly.Aims 1 6 180 :=
    ⟨⟨hlevel, hwithin (by norm_num), one_pos, by norm_num, by norm_num⟩, hwithin (by norm_num),
      by norm_num, by norm_num⟩
  refine ⟨hfirst, hsecond, ?_⟩
  rw [aimRay_eq hfirst hsecond]
  simp [Fly.pointAhead, Fly.ahead, fly]

end Exact

end MapBg
