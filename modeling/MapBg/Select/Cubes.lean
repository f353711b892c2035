import MapBg.Loc.Nesting
import MapBg.Oct.FindHit
import MapBg.Select.Clip
import MapBg.Select.Depth

/-!
# From a voxel to the screen

A tile is drawn with one cube for each of its voxels. The cube has corners at -1 and 1 on each axis.
The shader adds where the voxel is, counted from 127, and the matrix of the tile scales by the size
of a cell and puts the origin at the middle of the box. So the cube of a voxel is two cells wide: it
fills the cell, and the next one on each axis as well (`mem_voxelCube`). Nothing is missing between
two voxels, and what is drawn of a tile stays in its box but for one cell at the upper faces.

What is in view comes through: every point of a voxel that the camera sees, between the near and the
far distance, is drawn in one of the two passes, by the cube of that voxel, and is not clipped there
(`voxel_drawn`). This is for a camera that has not moved since the tiles were given their distances.
`World::Update` moves it after that, so in flight the split is by the distances from before the
move.

The cube that marks what the cursor points at has the same size. Its corner is put where the shader
puts the middle, without the 127, and it reaches one cell back instead of one cell ahead
(`target_meets_voxel`).
-/

set_option autoImplicit false

namespace MapBg

open Gmtl

/-! ## The code -/

section Code

variable {F : Type} [FloatMath F]

/-- `makeScale`. -/
def setScale (scale : Point3 F) : Matrix (Fin 4) (Fin 4) F :=
  let zero : F := FloatLike.ofInt 0
  let one : F := FloatLike.ofInt 1
  !![scale.x, zero, zero, zero;
    zero, scale.y, zero, zero;
    zero, zero, scale.z, zero;
    zero, zero, zero, one]

/-- `SceneItem::CalcMat`, for an item that is not rotated, as none is. -/
def calcMat (offset scale : Point3 F) : Matrix (Fin 4) (Fin 4) F :=
  Gmtl.mult (setTrans offset) (setScale scale)

/-- What `OctTile::Draw` passes to `setTransform`. -/
def tileMatrix (l : Loc) : Matrix (Fin 4) (Fin 4) F :=
  let bbox : AABox F := l.getBBox
  let scl := (bbox.max.x - bbox.min.x) * (FloatLike.ofInt 1 / FloatLike.ofInt 256)
  let half : F := FloatLike.powf2 (-1)
  let off : Point3 F := ⟨(bbox.max.x + bbox.min.x) * half, (bbox.max.y + bbox.min.y) * half,
    (bbox.max.z + bbox.min.z) * half⟩
  calcMat off ⟨scl, scl, scl⟩

/-- What `World::Update` sets the offset and the scale of the marker to, and `TargetCube::Draw`
makes of them. The groups it is in have the identity. -/
def targetMatrix (hitLoc : Loc) (hitpt : Vec3i) : Matrix (Fin 4) (Fin 4) F :=
  let aabb : AABox F := hitLoc.getBBox
  let scl := (aabb.max.x - aabb.min.x) / FloatLike.ofInt 256
  let offset : Point3 F := ⟨FloatLike.ofInt hitpt.x * scl + aabb.min.x,
    FloatLike.ofInt hitpt.y * scl + aabb.min.y, FloatLike.ofInt hitpt.z * scl + aabb.min.z⟩
  calcMat offset ⟨scl, scl, scl⟩

/-- The vertex of `vs_cubes`, before the matrices. -/
def cubeVertex (position : Point3 F) : Fin 4 → F :=
  ![position.x, position.y, position.z, FloatLike.ofInt 1]

/-- The vertex of `vs_voxelcube`. The data of the instance are those of `VoxCube::Create`. -/
def voxelVertex (position : Point3 F) (pt : Vec3i) : Fin 4 → F :=
  let i (data : Int) : F :=
    FloatLike.ofInt (FloatLike.toInt (FloatLike.ofInt data - FloatLike.ofInt 127 : F))
  cubeVertex ⟨position.x + i pt.x, position.y + i pt.y, position.z + i pt.z⟩

/-- The near and the far distance `Engine::Draw` makes the projection of a pass with. -/
def passRange (near mid far : F) (pass : Nat × Nat) : F × F :=
  -- first what is far, then what is near
  if pass.1 = 0 then (mid, far) else if pass.1 = 1 then (near, mid) else (near, far)

variable [BEq F] [LE F] [DecidableLE F]

/-- `gl_Position` of a cube of a tile. -/
def glPosition (fly : Fly F) (aspect : F) (range : F × F) (l : Loc) (position : Point3 F)
    (pt : Vec3i) : Fin 4 → F :=
  Gmtl.xform (Gmtl.mult (fly.viewProj aspect range.1 range.2) (tileMatrix l))
    (voxelVertex position pt)

end Code

/-! ## Over the real numbers -/

section Exact

variable {l : Loc} {pt : Vec3i} {q position : Point3 ℝ}

theorem xform_mult (a b : Matrix (Fin 4) (Fin 4) ℝ) (v : Fin 4 → ℝ) :
    Gmtl.xform (Gmtl.mult a b) v = Gmtl.xform a (Gmtl.xform b v) := by
  rw [Gmtl.mult_exact, Gmtl.xform_exact, Gmtl.xform_exact, Gmtl.xform_exact, Matrix.mulVec_mulVec]

theorem xform_calcMat (offset : Point3 ℝ) (scl : ℝ) (position : Point3 ℝ) :
    Gmtl.xform (calcMat offset ⟨scl, scl, scl⟩) (cubeVertex position)
      = cubeVertex ⟨offset.x + scl * position.x, offset.y + scl * position.y,
          offset.z + scl * position.z⟩ := by
  rw [calcMat, xform_mult, Gmtl.xform_exact, Gmtl.xform_exact]
  ext i
  fin_cases i <;> simp [setTrans, setScale, cubeVertex, Matrix.mulVec, dotProduct,
    Fin.sum_univ_four, ofInt_exact, add_comm]

/-- The side of a voxel. -/
noncomputable def Loc.cell (l : Loc) : ℝ := l.extent / FloatLike.ofInt 256

theorem Loc.cell_eq (l : Loc) : l.cell = l.extent / 256 := by
  rw [Loc.cell, ofInt_exact, Int.cast_ofNat]

theorem Loc.cell_pos (l : Loc) : 0 < l.cell := by
  rw [Loc.cell_eq]
  exact div_pos l.extent_pos (by norm_num)

/-- The conversion to `int` in the shader changes nothing, and the corner is moved by whole numbers.
-/
theorem voxelVertex_exact (position : Point3 ℝ) (pt : Vec3i) : voxelVertex position pt
    = cubeVertex ⟨position.x + (pt.x - 127), position.y + (pt.y - 127),
        position.z + (pt.z - 127)⟩ := by
  have hint (data : Int) : (FloatLike.ofInt (FloatLike.toInt
      (FloatLike.ofInt data - FloatLike.ofInt 127 : ℝ)) : ℝ) = data - 127 := by
    have hsub : (FloatLike.ofInt data - FloatLike.ofInt 127 : ℝ) = ((data - 127 : Int) : ℝ) := by
      rw [ofInt_exact, ofInt_exact]
      push_cast
      rfl
    rw [hsub, toInt_intCast, ofInt_exact]
    push_cast
    rfl
  simp only [voxelVertex, hint]

/-- Where a corner of the cube of a voxel ends up, or any point of it. -/
theorem xform_tileMatrix (l : Loc) (position : Point3 ℝ) (pt : Vec3i) :
    Gmtl.xform (tileMatrix l) (voxelVertex position pt)
      = cubeVertex ⟨l.edge l.x + l.cell * (pt.x + 1 + position.x),
          l.edge l.y + l.cell * (pt.y + 1 + position.y),
          l.edge l.z + l.cell * (pt.z + 1 + position.z)⟩ := by
  rw [tileMatrix, voxelVertex_exact, xform_calcMat, Loc.getBBox_exact]
  simp only [Loc.edge_succ, half_exact, ofInt_exact, Loc.cell_eq]
  congr 2 <;> push_cast <;> ring

/-- The marker has its middle at the lower corner of the voxel. -/
theorem xform_targetMatrix (l : Loc) (position : Point3 ℝ) (pt : Vec3i) :
    Gmtl.xform (targetMatrix l pt) (cubeVertex position)
      = cubeVertex ⟨l.edge l.x + l.cell * (pt.x + position.x),
          l.edge l.y + l.cell * (pt.y + position.y),
          l.edge l.z + l.cell * (pt.z + position.z)⟩ := by
  rw [targetMatrix, xform_calcMat, Loc.getBBox_exact]
  simp only [Loc.edge_succ, ofInt_exact, Loc.cell_eq]
  congr 2 <;> push_cast <;> ring

/-! ### Cubes as sets of points -/

/-- From cell `a` to cell `b` of a tile, counted on each axis from `pt`. -/
noncomputable def Loc.cells (l : Loc) (pt : Vec3i) (a b : ℝ) : AABox ℝ :=
  ⟨⟨l.edge l.x + l.cell * (pt.x + a), l.edge l.y + l.cell * (pt.y + a),
      l.edge l.z + l.cell * (pt.z + a)⟩,
    ⟨l.edge l.x + l.cell * (pt.x + b), l.edge l.y + l.cell * (pt.y + b),
      l.edge l.z + l.cell * (pt.z + b)⟩⟩

/-- The points of the cube a tile draws for a voxel. -/
def voxelCube (l : Loc) (pt : Vec3i) : Set (Point3 ℝ) :=
  {q | ∃ position : Point3 ℝ, position.Within 1 ∧
    Gmtl.xform (tileMatrix l) (voxelVertex position pt) = cubeVertex q}

/-- What is drawn for the voxel under the cursor. -/
def targetCube (l : Loc) (pt : Vec3i) : Set (Point3 ℝ) :=
  {q | ∃ position : Point3 ℝ, position.Within 1 ∧
    Gmtl.xform (targetMatrix l pt) (cubeVertex position) = cubeVertex q}

theorem cubeVertex_inj {p q : Point3 ℝ} : cubeVertex p = cubeVertex q ↔ p = q := by
  constructor
  · intro h
    have hx : p.x = q.x := congrFun h 0
    have hy : p.y = q.y := congrFun h 1
    have hz : p.z = q.z := congrFun h 2
    calc p = ⟨p.x, p.y, p.z⟩ := rfl
      _ = ⟨q.x, q.y, q.z⟩ := by rw [hx, hy, hz]
  · intro h
    rw [h]

/-- One axis: the points that lie `n + position` cells from the edge. -/
theorem exists_position {e c n x : ℝ} (hc : 0 < c) :
    (∃ position, |position| ≤ 1 ∧ e + c * (n + position) = x) ↔
      x ∈ Set.Icc (e + c * (n - 1)) (e + c * (n + 1)) := by
  constructor
  · rintro ⟨position, hp, rfl⟩
    obtain ⟨hl, hu⟩ := abs_le.mp hp
    exact ⟨by gcongr; linarith, by gcongr⟩
  · rintro ⟨hl, hu⟩
    refine ⟨(x - e) / c - n, abs_le.mpr ⟨?_, ?_⟩, ?_⟩
    · rw [le_sub_iff_add_le, le_div_iff₀ hc]
      linarith
    · rw [sub_le_iff_le_add, div_le_iff₀ hc]
      linarith
    · field_simp
      ring

theorem exists_within (f g h : ℝ → ℝ) :
    (∃ position : Point3 ℝ, position.Within 1 ∧
      (⟨f position.x, g position.y, h position.z⟩ : Point3 ℝ) = q) ↔
    (∃ a, |a| ≤ 1 ∧ f a = q.x) ∧ (∃ a, |a| ≤ 1 ∧ g a = q.y) ∧ ∃ a, |a| ≤ 1 ∧ h a = q.z := by
  constructor
  · rintro ⟨position, ⟨hx, hy, hz⟩, rfl⟩
    exact ⟨⟨_, hx, rfl⟩, ⟨_, hy, rfl⟩, ⟨_, hz, rfl⟩⟩
  · rintro ⟨⟨a, ha, hfa⟩, ⟨b, hb, hgb⟩, ⟨c, hc, hhc⟩⟩
    refine ⟨⟨a, b, c⟩, ⟨ha, hb, hc⟩, ?_⟩
    calc (⟨f a, g b, h c⟩ : Point3 ℝ) = ⟨q.x, q.y, q.z⟩ := by rw [hfa, hgb, hhc]

/-- The cell of the voxel, and the next on each axis. -/
theorem mem_voxelCube : q ∈ voxelCube l pt ↔ q ∈ (l.cells pt 0 2).closed := by
  have hlow (n : ℝ) : n + 1 - 1 = n + 0 := by ring
  have hhigh (n : ℝ) : n + 1 + 1 = n + 2 := by ring
  simp only [voxelCube, Set.mem_ofPred_eq, xform_tileMatrix, cubeVertex_inj]
  rw [exists_within (fun a => l.edge l.x + l.cell * (pt.x + 1 + a))
    (fun a => l.edge l.y + l.cell * (pt.y + 1 + a)) fun a => l.edge l.z + l.cell * (pt.z + 1 + a)]
  simp only [exists_position l.cell_pos, hlow, hhigh]
  rfl

theorem mem_targetCube : q ∈ targetCube l pt ↔ q ∈ (l.cells pt (-1) 1).closed := by
  simp only [targetCube, Set.mem_ofPred_eq, xform_targetMatrix, cubeVertex_inj]
  rw [exists_within (fun a => l.edge l.x + l.cell * (pt.x + a))
    (fun a => l.edge l.y + l.cell * (pt.y + a)) fun a => l.edge l.z + l.cell * (pt.z + a)]
  simp only [exists_position l.cell_pos, sub_eq_add_neg]
  rfl

/-- The marker and the voxel it marks have the cell of the voxel in common, and nothing else. -/
theorem target_meets_voxel (l : Loc) (pt : Vec3i) :
    voxelCube l pt ∩ targetCube l pt = (l.cells pt 0 1).closed := by
  -- from one back to one ahead, and from here to two ahead
  have haxis (e n x : ℝ) : (x ∈ Set.Icc (e + l.cell * (n + 0)) (e + l.cell * (n + 2)) ∧
      x ∈ Set.Icc (e + l.cell * (n + -1)) (e + l.cell * (n + 1))) ↔
      x ∈ Set.Icc (e + l.cell * (n + 0)) (e + l.cell * (n + 1)) := by
    have hc := l.cell_pos
    constructor
    · rintro ⟨⟨hl, -⟩, ⟨-, hu⟩⟩
      exact ⟨hl, hu⟩
    · rintro ⟨hl, hu⟩
      exact ⟨⟨hl, by linarith⟩, ⟨by linarith, hu⟩⟩
  ext q
  rw [Set.mem_inter_iff, mem_voxelCube, mem_targetCube]
  constructor
  · rintro ⟨⟨hx, hy, hz⟩, ⟨hx', hy', hz'⟩⟩
    exact ⟨(haxis _ _ _).mp ⟨hx, hx'⟩, (haxis _ _ _).mp ⟨hy, hy'⟩, (haxis _ _ _).mp ⟨hz, hz'⟩⟩
  · rintro ⟨hx, hy, hz⟩
    obtain ⟨hvx, htx⟩ := (haxis _ _ _).mpr hx
    obtain ⟨hvy, hty⟩ := (haxis _ _ _).mpr hy
    obtain ⟨hvz, htz⟩ := (haxis _ _ _).mpr hz
    exact ⟨⟨hvx, hvy, hvz⟩, ⟨htx, hty, htz⟩⟩

/-! ### Through the passes -/

variable {fly : Fly ℝ} {aspect near mid far : ℝ}

theorem row_eq (m : Matrix (Fin 4) (Fin 4) ℝ) (k : Fin 4) (q : Point3 ℝ) :
    Gmtl.xform m (cubeVertex q) k = row m k q := by
  rw [Gmtl.xform_exact]
  simp [Matrix.mulVec, dotProduct, Fin.sum_univ_four, cubeVertex, row, elt_eq, ofInt_exact]

/-- A cell is in the box of its tile. -/
theorem cells_subset (hpt : pt.InCube) :
    (l.cells pt 0 1).closed ⊆ (l.getBBox : AABox ℝ).closed := by
  have haxis {e x : ℝ} {n : Int} (hn : 0 ≤ n ∧ n ≤ 255)
      (hx : x ∈ Set.Icc (e + l.cell * (n + 0)) (e + l.cell * (n + 1))) :
      x ∈ Set.Icc e (e + l.extent) := by
    obtain ⟨hl, hu⟩ := hx
    have hlow : (0 : ℝ) ≤ n := by exact_mod_cast hn.1
    have hhigh : (n : ℝ) ≤ 255 := by exact_mod_cast hn.2
    have hext : l.extent = l.cell * 256 := by
      rw [Loc.cell_eq]
      ring
    constructor
    · nlinarith [l.cell_pos]
    · rw [hext]
      nlinarith [l.cell_pos]
  rintro q ⟨hx, hy, hz⟩
  rw [Loc.getBBox_exact]
  simp only [AABox.closed, Set.mem_ofPred_eq, Loc.edge_succ]
  exact ⟨haxis hpt.x hx, haxis hpt.y hy, haxis hpt.z hz⟩

theorem cells_mono {a b c : ℝ} (hbc : b ≤ c) :
    (l.cells pt a b).closed ⊆ (l.cells pt a c).closed := by
  have haxis {e n x : ℝ} (hx : x ∈ Set.Icc (e + l.cell * (n + a)) (e + l.cell * (n + b))) :
      x ∈ Set.Icc (e + l.cell * (n + a)) (e + l.cell * (n + c)) :=
    Set.Icc_subset_Icc_right (by have := l.cell_pos; gcongr) hx
  rintro q ⟨hx, hy, hz⟩
  exact ⟨haxis hx, haxis hy, haxis hz⟩

/-- What is not clipped of a vertex. -/
def Unclipped (v : Fin 4 → ℝ) : Prop :=
  |v Xelt| ≤ v Welt ∧ |v Yelt| ≤ v Welt ∧ 0 ≤ v Zelt ∧ v Zelt ≤ v Welt

/-- A point of a voxel that is in view is drawn: in a pass that takes the tile, by the cube of the
voxel, where the matrices of the pass put the point, and inside of what it shows. It is one camera
that gives the tile its distances and that the tile is drawn with; it may not look straight up or
down. -/
theorem voxel_drawn (hfirst : fly.Sees aspect near mid) (hsecond : fly.Sees aspect mid far)
    (hpt : pt.InCube) (hq : q ∈ (l.cells pt 0 1).closed)
    (hx : |(fly.seen q).x| ≤ (fly.seen q).z * (slope * aspect))
    (hy : |(fly.seen q).y| ≤ (fly.seen q).z * slope)
    (hnear : near ≤ (fly.seen q).z) (hfar : (fly.seen q).z ≤ far) :
    ∃ pass ∈ drawnIn (getLocDistance l fly.pos fly.getDirs.forward) mid,
      let range := passRange near mid far pass
      ∃ position : Point3 ℝ, position.Within 1 ∧
        glPosition fly aspect range l position pt
          = Gmtl.xform (fly.viewProj aspect range.1 range.2) (cubeVertex q) ∧
        Unclipped (glPosition fly aspect range l position pt) := by
  have hbox := cells_subset hpt hq
  have hcube : q ∈ voxelCube l pt := mem_voxelCube.mpr (cells_mono (by norm_num) hq)
  obtain ⟨position, hposition, hvertex⟩ := hcube
  have hplace (range : ℝ × ℝ) : glPosition fly aspect range l position pt
      = Gmtl.xform (fly.viewProj aspect range.1 range.2) (cubeVertex q) := by
    rw [glPosition, xform_mult, hvertex]
  have hshown {range : ℝ × ℝ} (h : OnScreen (fly.viewProj aspect range.1 range.2) q) :
      Unclipped (glPosition fly aspect range l position pt) := by
    rw [hplace, Unclipped]
    simp only [row_eq]
    exact h
  -- the point is beyond the distance at which the passes meet, or before it
  rcases le_total mid (fly.seen q).z with hbeyond | hbefore
  · refine ⟨(0, 0), mem_drawnIn.mpr (.inl ⟨rfl, hbeyond.trans (depth_le_fardist hbox)⟩), position,
      hposition, hplace _, hshown ?_⟩
    exact (hsecond.onScreen_viewProj q).mpr ⟨hx, hy, hbeyond, hfar⟩
  · refine ⟨(1, 1), mem_drawnIn.mpr (.inr ⟨rfl, (neardist_le_depth hbox).trans hbefore⟩), position,
      hposition, hplace _, hshown ?_⟩
    exact (hfirst.onScreen_viewProj q).mpr ⟨hx, hy, hnear, hbefore⟩

/-- A voxel of the root, two and a half units ahead. -/
theorem voxel_drawn_ahead : let fly : Fly ℝ := ⟨⟨0, 0, -1 / 2⟩, (0, 0)⟩
    ∃ pass ∈ drawnIn (getLocDistance Loc.root fly.pos fly.getDirs.forward) 6,
      ∃ position : Point3 ℝ, position.Within 1 ∧
        Unclipped
          (glPosition fly 1 (passRange (1 / 1000) 6 180 pass) Loc.root position
            ⟨128, 128, 130⟩) := by
  intro fly
  have hlevel : Real.cos fly.dir.2 ≠ 0 := Fly.cos_ne_zero rfl
  have hwithin : fly.pos.Within (10 ^ 18) := by
    refine ⟨?_, ?_, ?_⟩ <;> norm_num [fly]
  have hseen : fly.seen (fly.pointAhead (5 / 2)) = ⟨0, 0, 5 / 2⟩ := seen_pointAhead hlevel _
  have hs := slope_pos
  have hcell : Loc.root.cell = 1 := by
    norm_num [Loc.cell_eq, Loc.extent, Loc.root]
  have hmem : fly.pointAhead (5 / 2) ∈ (Loc.root.cells ⟨128, 128, 130⟩ 0 1).closed := by
    have hpoint : fly.pointAhead (5 / 2) = ⟨0, 0, 2⟩ := by
      simp only [Fly.pointAhead, Fly.ahead, fly, Real.cos_zero, Real.sin_zero, Point3.mk.injEq]
      norm_num
    have hedge : (Loc.root.edge 0 : ℝ) = -128 := Loc.edge_root.1
    rw [hpoint]
    simp only [AABox.closed, Loc.cells, hcell, show Loc.root.x = 0 from rfl,
      show Loc.root.y = 0 from rfl, show Loc.root.z = 0 from rfl, hedge, Set.mem_ofPred_eq,
      Set.mem_Icc]
    norm_num
  obtain ⟨pass, hpass, position, hposition, -, hshown⟩ := voxel_drawn
    (⟨hlevel, hwithin, one_pos, by norm_num, by norm_num⟩ : fly.Sees 1 (1 / 1000) 6)
    (⟨hlevel, hwithin, one_pos, by norm_num, by norm_num⟩ : fly.Sees 1 6 180)
    (⟨by decide, by decide, by decide⟩ : Vec3i.InCube ⟨128, 128, 130⟩) hmem
    (by rw [hseen]; simpa using hs.le) (by rw [hseen]; simpa using hs.le)
    (by rw [hseen]; norm_num) (by rw [hseen]; norm_num)
  exact ⟨pass, hpass, position, hposition, hshown⟩

end Exact

end MapBg
