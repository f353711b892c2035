import MapBg.Select.Camera
import MapBg.Select.Frustum

/-!
# The projection, and the frustum that is read off it

`setPerspective` makes a projection for Direct3D, in which what is on the screen has a depth between
0 and `w`. `extractPlanes` reads six planes off the product of projection and view as one does for
OpenGL, where the depth is between `-w` and `w`. So five of the planes are those of the screen, and
the near one is not: it is closer to the camera, by about a half. `front_iff` says where the six
planes are, seen from the camera.

A plane is normalized by the length of its normal. That changes no sign, since no normal is 0.
-/

set_option autoImplicit false

namespace MapBg

open Gmtl

/-! ## The code -/

section Code

variable {F : Type} [FloatMath F]

def deg2Rad (v : F) : F := v * (FloatMath.pi / FloatLike.ofInt 180)

/-- `gmtl::setFrustum`, with a depth from 0 to 1. -/
def setFrustum (left top right bottom nr fr : F) : Matrix (Fin 4) (Fin 4) F :=
  let zero : F := FloatLike.ofInt 0
  let one : F := FloatLike.ofInt 1
  let two : F := FloatLike.ofInt 2
  !![two * nr / (right - left), zero, (right + left) / (right - left), zero;
    zero, two * nr / (top - bottom), (top + bottom) / (top - bottom), zero;
    zero, zero, fr / (fr - nr), -(fr * nr) / (fr - nr);
    zero, zero, one, zero]

/-- `gmtl::setPerspective`, with the angle from the top to the bottom in degrees. -/
def setPerspective (fovy aspect nr fr : F) : Matrix (Fin 4) (Fin 4) F :=
  let theta := deg2Rad (fovy * FloatLike.powf2 (-1))
  let tangentTheta := FloatMath.tan theta
  let top := tangentTheta * nr
  let right := top * aspect
  setFrustum (-right) top right (-top) nr fr

/-- The last row and another, added or subtracted. -/
def rowPlane (m : Matrix (Fin 4) (Fin 4) F) (op : F → F → F) (k : Fin 4) : Plane F :=
  ⟨⟨op (m Welt Xelt) (m k Xelt), op (m Welt Yelt) (m k Yelt), op (m Welt Zelt) (m k Zelt)⟩,
    op (m Welt Welt) (m k Welt)⟩

/-- Left, right, bottom, top, near and far. -/
def extractPlanes (m : Matrix (Fin 4) (Fin 4) F) : Frustum F where
  -- the near plane is that of OpenGL, where the depth starts at `-w`
  planes := #v[rowPlane m (· + ·) Xelt, rowPlane m (· - ·) Xelt, rowPlane m (· + ·) Yelt,
    rowPlane m (· - ·) Yelt, { rowPlane m (· + ·) Zelt with offset := m Zelt Welt + m Welt Welt },
    rowPlane m (· - ·) Zelt]

def normalizePlane (plane : Plane F) : Plane F :=
  let n := plane.norm
  let len := FloatMath.sqrt (n.x * n.x + n.y * n.y + n.z * n.z)
  ⟨⟨n.x / len, n.y / len, n.z / len⟩, plane.offset / len⟩

def normalizeFrustum (f : Frustum F) : Frustum F := ⟨f.planes.map normalizePlane⟩

variable [BEq F] [LE F] [DecidableLE F]

/-- `Camera::GetPerspectiveMatrix` times `Camera::ViewMatrix`. -/
def Fly.viewProj (fly : Fly F) (aspect near far : F) : Matrix (Fin 4) (Fin 4) F :=
  Gmtl.mult (setPerspective (FloatLike.ofInt 60) aspect near far) fly.viewMatrix

def Fly.getFrustum (fly : Fly F) (aspect near far : F) : Frustum F :=
  normalizeFrustum (extractPlanes (fly.viewProj aspect near far))

end Code

/-! ## Over the real numbers -/

section Exact

/-- One coordinate of a point after a matrix. -/
def row (m : Matrix (Fin 4) (Fin 4) ℝ) (k : Fin 4) (p : Point3 ℝ) : ℝ :=
  m k Xelt * p.x + m k Yelt * p.y + m k Zelt * p.z + m k Welt

variable {m : Matrix (Fin 4) (Fin 4) ℝ} {plane : Plane ℝ} {p : Point3 ℝ}

open FrustumTiles

theorem absDistance_exact (plane : Plane ℝ) (p : Point3 ℝ) :
    absDistance plane p = dot plane.norm p + plane.offset := rfl

theorem absDistance_rowPlane_add (k : Fin 4) :
    absDistance (rowPlane m (· + ·) k) p = row m Welt p + row m k p := by
  simp only [absDistance_exact, rowPlane, dot_exact, row]
  ring

theorem absDistance_rowPlane_sub (k : Fin 4) :
    absDistance (rowPlane m (· - ·) k) p = row m Welt p - row m k p := by
  simp only [absDistance_exact, rowPlane, dot_exact, row]
  ring

/-- The near plane adds its offsets the other way round. -/
theorem forall_planes {P : Plane ℝ → Prop} : (∀ plane ∈ (extractPlanes m).planes, P plane) ↔
    (P (rowPlane m (· + ·) Xelt) ∧ P (rowPlane m (· - ·) Xelt)) ∧
    (P (rowPlane m (· + ·) Yelt) ∧ P (rowPlane m (· - ·) Yelt)) ∧
    P (rowPlane m (· + ·) Zelt) ∧ P (rowPlane m (· - ·) Zelt) := by
  have hnear : ({ rowPlane m (· + ·) Zelt with offset := m Zelt Welt + m Welt Welt } : Plane ℝ)
      = rowPlane m (· + ·) Zelt := by
    rw [add_comm]
    rfl
  simp only [extractPlanes, hnear]
  simp [and_assoc]

/-- Normalising a plane does not change which side a point is on. -/
theorem absDistance_normalizePlane (plane : Plane ℝ) (p : Point3 ℝ) :
    absDistance (normalizePlane plane) p = absDistance plane p / √(dot plane.norm plane.norm) := by
  have hlen : FloatMath.sqrt (plane.norm.x * plane.norm.x + plane.norm.y * plane.norm.y
      + plane.norm.z * plane.norm.z) = √(dot plane.norm plane.norm) := by
    show √_ = √_
    rw [dot_exact]
    ring_nf
  simp only [absDistance_exact, normalizePlane, dot_exact] at hlen ⊢
  rw [hlen]
  ring

/-- The plane separates something, so its normal is not 0. -/
theorem normalizePlane_nonneg_iff {a b : Point3 ℝ}
    (hab : absDistance plane a ≠ absDistance plane b) :
    0 ≤ absDistance (normalizePlane plane) p ↔ 0 ≤ absDistance plane p := by
  -- a plane without a normal has all points at one distance
  have hnorm : dot plane.norm plane.norm ≠ 0 := by
    intro h0
    have hx : plane.norm.x = 0 ∧ plane.norm.y = 0 ∧ plane.norm.z = 0 := by
      rw [dot_exact] at h0
      refine ⟨?_, ?_, ?_⟩ <;> apply mul_self_eq_zero.mp <;>
        linarith [mul_self_nonneg plane.norm.x, mul_self_nonneg plane.norm.y,
          mul_self_nonneg plane.norm.z]
    apply hab
    rw [absDistance_exact, absDistance_exact, dot_exact, dot_exact, hx.1, hx.2.1, hx.2.2]
    ring
  have hpos : 0 < √(dot plane.norm plane.norm) :=
    Real.sqrt_pos.mpr (lt_of_le_of_ne (dot_self_nonneg _) hnorm.symm)
  rw [absDistance_normalizePlane]
  exact ⟨fun h => by simpa [div_mul_cancel₀ _ hpos.ne'] using mul_nonneg h hpos.le,
    fun h => div_nonneg h hpos.le⟩

/-! ### What the camera sees -/

/-- The coordinates of a point along right, up and forward. -/
noncomputable def Fly.seen (fly : Fly ℝ) (p : Point3 ℝ) : Point3 ℝ :=
  let d := fly.getDirs
  let q : Point3 ℝ := ⟨p.x - fly.pos.x, p.y - fly.pos.y, p.z - fly.pos.z⟩
  ⟨dot d.right q, dot d.up q, dot d.forward q⟩

/-- The tangent of half the angle that is seen from top to bottom. -/
noncomputable def slope : ℝ := Real.tan (Real.pi / 6)

theorem slope_pos : 0 < slope :=
  Real.tan_pos_of_pos_of_lt_pi_div_two (by positivity) (by linarith [Real.pi_pos])

theorem tan_theta :
    FloatMath.tan (deg2Rad (FloatLike.ofInt 60 * FloatLike.powf2 (-1) : ℝ)) = slope := by
  have htheta : deg2Rad (FloatLike.ofInt 60 * FloatLike.powf2 (-1) : ℝ) = Real.pi / 6 := by
    show ((60 : Int) : ℝ) * 2 ^ (-1 : ℤ) * (Real.pi / ((180 : Int) : ℝ)) = Real.pi / 6
    rw [zpow_neg_one]
    push_cast
    ring
  rw [htheta]
  rfl

variable {aspect nr fr : ℝ}

/-- The frustum is symmetric, so that two entries vanish. -/
theorem setPerspective_exact (ha : 0 < aspect) (hn : 0 < nr) :
    setPerspective (FloatLike.ofInt 60) aspect nr fr
      = !![1 / (slope * aspect), 0, 0, 0;
          0, 1 / slope, 0, 0;
          0, 0, fr / (fr - nr), -(fr * nr) / (fr - nr);
          0, 0, 1, 0] := by
  have hs := slope_pos
  simp only [setPerspective, tan_theta]
  simp only [setFrustum, ofInt_exact, Int.cast_zero, Int.cast_one, Int.cast_ofNat]
  have hx : 2 * nr / (slope * nr * aspect - -(slope * nr * aspect)) = 1 / (slope * aspect) := by
    field_simp
    ring
  have hy : 2 * nr / (slope * nr - -(slope * nr)) = 1 / slope := by
    field_simp
    ring
  rw [hx, hy, add_neg_cancel, add_neg_cancel, zero_div, zero_div]

theorem row_mul (a b : Matrix (Fin 4) (Fin 4) ℝ) (k : Fin 4) (p : Point3 ℝ)
    (hb : row b Welt p = 1) :
    row (a * b) k p
      = a k Xelt * row b Xelt p + a k Yelt * row b Yelt p + a k Zelt * row b Zelt p + a k Welt := by
  have hlast : row (a * b) k p
      = a k Xelt * row b Xelt p + a k Yelt * row b Yelt p + a k Zelt * row b Zelt p
        + a k Welt * row b Welt p := by
    simp only [row, Matrix.mul_apply, Fin.sum_univ_four, elt_eq]
    ring
  rw [hlast, hb, mul_one]

theorem row_viewed (fly : Fly ℝ) (p : Point3 ℝ) : row fly.viewed Xelt p = (fly.seen p).x ∧
    row fly.viewed Yelt p = (fly.seen p).y ∧ row fly.viewed Zelt p = (fly.seen p).z ∧
    row fly.viewed Welt p = 1 := by
  simp only [row, elt_eq, Fly.viewed, Fly.seen, dot_exact, Matrix.of_apply, Matrix.cons_val]
  refine ⟨by ring, by ring, by ring, by ring⟩

/-- What the theorems below take for granted: the camera does not look straight up or down and is
not absurdly far away, and there is something between the near and the far distance. -/
structure Fly.Sees (fly : Fly ℝ) (aspect nr fr : ℝ) : Prop where
  level : Real.cos fly.dir.2 ≠ 0
  pos : fly.pos.Within (10 ^ 18)
  aspect : 0 < aspect
  near : 0 < nr
  far : nr < fr

variable {fly : Fly ℝ}

theorem Fly.Sees.row_viewProj (h : fly.Sees aspect nr fr) (p : Point3 ℝ) :
    row (fly.viewProj aspect nr fr) Xelt p = (fly.seen p).x / (slope * aspect) ∧
    row (fly.viewProj aspect nr fr) Yelt p = (fly.seen p).y / slope ∧
    row (fly.viewProj aspect nr fr) Zelt p = (fr * (fly.seen p).z - fr * nr) / (fr - nr) ∧
    row (fly.viewProj aspect nr fr) Welt p = (fly.seen p).z := by
  obtain ⟨hx, hy, hz, hw⟩ := row_viewed fly p
  rw [Fly.viewProj, Gmtl.mult_exact, viewMatrix_exact h.level h.pos,
    setPerspective_exact h.aspect h.near,
    row_mul _ _ _ _ hw, row_mul _ _ _ _ hw, row_mul _ _ _ _ hw, row_mul _ _ _ _ hw, hx, hy, hz]
  simp only [elt_eq, Matrix.of_apply, Matrix.cons_val]
  refine ⟨by ring, by ring, by ring, by ring⟩

theorem Fly.Sees.depth_le_iff (h : fly.Sees aspect nr fr) {z : ℝ} :
    (fr * z - fr * nr) / (fr - nr) ≤ z ↔ z ≤ fr := by
  rw [div_le_iff₀ (sub_pos.mpr h.far)]
  constructor
  · intro hle
    exact le_of_mul_le_mul_right (by linarith) h.near
  · intro hle
    have := mul_le_mul_of_nonneg_right hle h.near.le
    linarith

/-- The camera itself, and a point ahead of it. -/
theorem seen_pos (fly : Fly ℝ) : fly.seen fly.pos = ⟨0, 0, 0⟩ := by
  simp only [Fly.seen, sub_self, dot_exact, mul_zero, add_zero]

/-- The point at a depth in the middle of the screen. -/
noncomputable def Fly.pointAhead (fly : Fly ℝ) (depth : ℝ) : Point3 ℝ :=
  ⟨fly.pos.x + depth * fly.ahead.x, fly.pos.y + depth * fly.ahead.y,
    fly.pos.z + depth * fly.ahead.z⟩

theorem seen_pointAhead (h : Real.cos fly.dir.2 ≠ 0) (depth : ℝ) :
    fly.seen (fly.pointAhead depth) = ⟨0, 0, depth⟩ := by
  obtain ⟨-, -, hf, -, hrf, huf⟩ := orthonormal_getDirs h
  rw [dot_exact] at hf hrf huf
  simp only [Fly.seen, Fly.pointAhead, add_sub_cancel_left, dot_exact, Point3.mk.injEq,
    ← forward_getDirs]
  refine ⟨?_, ?_, ?_⟩
  · linear_combination depth * hrf
  · linear_combination depth * huf
  · linear_combination depth * hf

theorem mem_getFrustum {plane : Plane ℝ} : plane ∈ (fly.getFrustum aspect nr fr).planes ↔
    ∃ source ∈ (extractPlanes (fly.viewProj aspect nr fr)).planes, normalizePlane source = plane :=
  Vector.mem_map

/-- Each plane has the camera and a point ahead at different distances. -/
theorem Fly.Sees.separates (h : fly.Sees aspect nr fr) :
    ∀ plane ∈ (extractPlanes (fly.viewProj aspect nr fr)).planes,
      absDistance plane fly.pos ≠ absDistance plane (fly.pointAhead 1) := by
  obtain ⟨hx, hy, hz, hw⟩ := h.row_viewProj fly.pos
  obtain ⟨hx', hy', hz', hw'⟩ := h.row_viewProj (fly.pointAhead 1)
  rw [seen_pos] at hx hy hz hw
  rw [seen_pointAhead h.level] at hx' hy' hz' hw'
  have hdepth : 0 < fr - nr := sub_pos.mpr h.far
  have hn := h.near
  rw [forall_planes]
  simp only [absDistance_rowPlane_add, absDistance_rowPlane_sub, hx, hy, hz, hw, hx', hy', hz', hw']
  -- near and far: the two distances would have to be equal
  refine ⟨⟨by simp, by simp⟩, ⟨by simp, by simp⟩, ?_, ?_⟩
  · intro heq
    field_simp at heq
    linarith
  · intro heq
    field_simp at heq
    linarith

/-- A point is in front of all six planes exactly if it is in the pyramid the camera sees, between
the far distance and a near one that is a little more than half of what it should be. -/
theorem front_iff (h : fly.Sees aspect nr fr) (p : Point3 ℝ) :
    (∀ plane ∈ (fly.getFrustum aspect nr fr).planes, 0 ≤ absDistance plane p) ↔
      |(fly.seen p).x| ≤ (fly.seen p).z * (slope * aspect) ∧
      |(fly.seen p).y| ≤ (fly.seen p).z * slope ∧
      fr * nr ≤ (2 * fr - nr) * (fly.seen p).z ∧ (fly.seen p).z ≤ fr := by
  -- normalising changes no sign
  have hraw : (∀ plane ∈ (fly.getFrustum aspect nr fr).planes, 0 ≤ absDistance plane p) ↔
      ∀ plane ∈ (extractPlanes (fly.viewProj aspect nr fr)).planes, 0 ≤ absDistance plane p := by
    constructor
    · intro hall plane hplane
      exact (normalizePlane_nonneg_iff (h.separates plane hplane)).mp
        (hall _ (mem_getFrustum.mpr ⟨plane, hplane, rfl⟩))
    · intro hall plane hplane
      obtain ⟨source, hsource, rfl⟩ := mem_getFrustum.mp hplane
      exact (normalizePlane_nonneg_iff (h.separates source hsource)).mpr (hall source hsource)
  obtain ⟨hx, hy, hz, hw⟩ := h.row_viewProj p
  -- two planes at a time: a coordinate is at most `w` in absolute value
  have hsum : ∀ {a b : ℝ}, (0 ≤ b + a ∧ 0 ≤ b - a) ↔ |a| ≤ b := fun {a b} => by
    rw [abs_le]
    exact ⟨fun hab => ⟨by linarith [hab.1], by linarith [hab.2]⟩,
      fun hab => ⟨by linarith [hab.1], by linarith [hab.2]⟩⟩
  have hdepth : 0 < fr - nr := sub_pos.mpr h.far
  have hwide : 0 < slope * aspect := mul_pos slope_pos h.aspect
  rw [hraw, forall_planes]
  simp only [absDistance_rowPlane_add, absDistance_rowPlane_sub, hsum, hx, hy, hz, hw]
  rw [abs_div, abs_div, abs_of_pos hwide, abs_of_pos slope_pos, div_le_iff₀ hwide,
    div_le_iff₀ slope_pos]
  refine and_congr Iff.rfl (and_congr Iff.rfl ?_)
  rw [abs_le, le_div_iff₀ hdepth, h.depth_le_iff]
  refine and_congr ⟨fun hle => by linarith, fun hle => by linarith⟩ Iff.rfl

/-- What is not clipped when it is drawn: its depth is between 0 and `w`. -/
def OnScreen (m : Matrix (Fin 4) (Fin 4) ℝ) (p : Point3 ℝ) : Prop :=
  |row m Xelt p| ≤ row m Welt p ∧ |row m Yelt p| ≤ row m Welt p ∧
    0 ≤ row m Zelt p ∧ row m Zelt p ≤ row m Welt p

/-- In the coordinates of the camera, that is a pyramid with both ends cut off. -/
theorem Fly.Sees.onScreen_viewProj (h : fly.Sees aspect nr fr) (p : Point3 ℝ) :
    OnScreen (fly.viewProj aspect nr fr) p ↔
      |(fly.seen p).x| ≤ (fly.seen p).z * (slope * aspect) ∧
      |(fly.seen p).y| ≤ (fly.seen p).z * slope ∧ nr ≤ (fly.seen p).z ∧ (fly.seen p).z ≤ fr := by
  obtain ⟨hx, hy, hz, hw⟩ := h.row_viewProj p
  have hdepth : 0 < fr - nr := sub_pos.mpr h.far
  have hfr : 0 < fr := h.near.trans h.far
  have hwide : 0 < slope * aspect := mul_pos slope_pos h.aspect
  have hnear : 0 ≤ (fr * (fly.seen p).z - fr * nr) / (fr - nr) ↔ nr ≤ (fly.seen p).z := by
    rw [le_div_iff₀ hdepth, zero_mul, sub_nonneg, mul_le_mul_iff_right₀ hfr]
  rw [OnScreen, hx, hy, hz, hw, hnear, h.depth_le_iff, abs_div, abs_div, abs_of_pos hwide,
    abs_of_pos slope_pos, div_le_iff₀ hwide, div_le_iff₀ slope_pos]

/-- **What is drawn with the matrices of the camera is in front of all six planes of its frustum**,
and what is in front of them is drawn, unless it is closer than the near distance. The camera is
within 10¹⁸ of the origin on each axis and does not look straight up or down. -/
theorem onScreen_iff (h : fly.Sees aspect nr fr) (p : Point3 ℝ) :
    OnScreen (fly.viewProj aspect nr fr) p ↔
      (∀ plane ∈ (fly.getFrustum aspect nr fr).planes, 0 ≤ absDistance plane p) ∧
        nr ≤ (fly.seen p).z := by
  have hfar := h.far
  rw [front_iff h, h.onScreen_viewProj]
  constructor
  · rintro ⟨hx, hy, hn, hf⟩
    have hhalf : fr * nr ≤ (2 * fr - nr) * nr := mul_le_mul_of_nonneg_right (by linarith) h.near.le
    have hmore := mul_le_mul_of_nonneg_left hn (show 0 ≤ 2 * fr - nr by linarith [h.near])
    exact ⟨⟨hx, hy, hhalf.trans hmore, hf⟩, hn⟩
  · rintro ⟨⟨hx, hy, -, hf⟩, hn⟩
    exact ⟨hx, hy, hn, hf⟩

/-- Straight ahead, at the near distance. -/
theorem onScreen_iff_ahead : let fly : Fly ℝ := ⟨⟨0, 0, 0⟩, (0, 0)⟩
    fly.Sees 1 1 2 ∧ OnScreen (fly.viewProj 1 1 2) (fly.pointAhead 1) := by
  intro fly
  have hlevel : Real.cos fly.dir.2 ≠ 0 := Fly.cos_ne_zero rfl
  have hsees : fly.Sees 1 1 2 := by
    refine ⟨hlevel, ⟨?_, ?_, ?_⟩, one_pos, one_pos, one_lt_two⟩ <;> norm_num [fly]
  have hs := slope_pos
  refine ⟨hsees, (onScreen_iff hsees _).mpr ⟨(front_iff hsees _).mpr ?_, ?_⟩⟩
  · rw [seen_pointAhead hlevel]
    refine ⟨?_, ?_, ?_, ?_⟩
    · simpa using hs.le
    · simpa using hs.le
    · norm_num
    · norm_num
  · rw [seen_pointAhead hlevel]

end Exact

end MapBg
