import MapBg.Select.Clip
import MapBg.Select.Locate

/-!
# A frame: the camera, the selection and the tiles

`FrustumTiles::Get` puts the parts together: the frustum of the camera, between the distances 0.1
and 150, decides which cells are visited; `TargetLodForLoc` decides where the descent ends, from how
far apart two neighbouring samples of the cell are on the screen; and the player's box, 0.01 to each
side of the camera, is always visited.

How fine a cell has to be is a matter of taste, and nothing is proved of it here. What matters is
the answer -1 for a cell with a corner behind the camera. Such a cell cannot be measured on the
screen, and is cut down to the finest level. This is also what keeps the selection from being empty:
behind the camera, within the player's box, there is always a cell of the finest level that stops
the descent (`get_ne_nil`), if the camera is in the world. So what `frustum_exact` leaves open does
not happen, and every point of the world the camera sees is in exactly one tile
(`frame_covers_view`).
-/

set_option autoImplicit false

namespace MapBg

open Gmtl

namespace FrustumTiles

/-! ## The code -/

section Code

variable {F : Type} [FloatMath F]

/-- On the screen: after the matrix, divided by the fourth coordinate. -/
def project (viewProj : Matrix (Fin 4) (Fin 4) F) (p : Point3 F) : Fin 4 → F :=
  let sp := xform viewProj ![p.x, p.y, p.z, FloatLike.ofInt 1]
  fun i => sp i / sp Welt

/-- The square of the distance on the screen from a corner to the sample next to it. -/
def screenLen (viewProj : Matrix (Fin 4) (Fin 4) F) (sq : F) (c : Point3 F) : F :=
  let sp0 := project viewProj c
  let sp1 := project viewProj ⟨c.x + sq, c.y + sq, c.z + sq⟩
  (sp1 Yelt - sp0 Yelt) * (sp1 Yelt - sp0 Yelt) + (sp1 Xelt - sp0 Xelt) * (sp1 Xelt - sp0 Xelt)

/-- `TargetLodForLoc`: the level that is wanted is found from how far apart two samples at a corner
are on the screen. There is none for a cell that has a corner behind the camera, and the result is
-1. -/
def targetLodForLoc (viewProj : Matrix (Fin 4) (Fin 4) F) (camFwd camPos : Point3 F)
    (curLoc : Loc) : Int :=
  let bbox : AABox F := curLoc.getBBox
  let extents := bbox.max.x - bbox.min.x
  let sq := extents / FloatLike.ofInt 256
  let behind := fun tp0 : Point3 F => FloatLike.lt
    (dot ⟨tp0.x - camPos.x, tp0.y - camPos.y, tp0.z - camPos.z⟩ camFwd) (FloatLike.ofInt 0)
  if (corners bbox).any behind then -1
  else
    let maxlen := (corners bbox).foldl (fun maxlen c => stdMax maxlen (screenLen viewProj sq c))
      (FloatLike.ofInt 0)
    FloatLike.toInt (stdMax (FloatMath.log2 maxlen + FloatLike.ofInt 9) (FloatLike.ofInt 0))

/-- `nearFrust`. -/
def nearFrust : F := FloatLike.ofInt 1 / FloatLike.ofInt 10

/-- `farFrust`. -/
def farFrust : F := FloatLike.ofInt 150

/-- `playerbounds`. -/
def playerBounds (pos : Point3 F) : AABox F :=
  let boundsExt : F := FloatLike.ofInt 1 / FloatLike.ofInt 100
  ⟨⟨pos.x - boundsExt, pos.y - boundsExt, pos.z - boundsExt⟩,
    ⟨pos.x + boundsExt, pos.y + boundsExt, pos.z + boundsExt⟩⟩

variable [BEq F] [LE F] [DecidableLE F]

/-- What `Get` hands down to the walk. -/
def frameView (fly : Fly F) (aspect : F) (maxlod : Int) : View :=
  view (fly.getFrustum aspect nearFrust farFrust) (playerBounds fly.pos)
    (targetLodForLoc (fly.viewProj aspect nearFrust farFrust) fly.getDirs.forward fly.pos) maxlod

end Code

/-! ## Behind the camera -/

section Exact

/-- Some of the box is behind the camera. -/
def Behind (fly : Fly ℝ) (box : AABox ℝ) : Prop := ∃ p ∈ box.closed, (fly.seen p).z < 0

variable {fly : Fly ℝ} {aspect : ℝ} {maxlod : Int}

theorem seen_z (fly : Fly ℝ) (p : Point3 ℝ) : (fly.seen p).z
    = dot fly.getDirs.forward p - dot fly.getDirs.forward fly.pos := by
  simp only [Fly.seen, dot_exact]
  ring

variable (aspect maxlod) in
/-- The depth is smallest at a corner. -/
theorem lod_of_behind {a : Loc} (h : Behind fly a.getBBox) :
    (frameView fly aspect maxlod).targetLodForLoc a = -1 := by
  obtain ⟨p, hp, hneg⟩ := h
  have hlow := AABox.low_le_dot hp fly.getDirs.forward
  rw [seen_z] at hneg
  refine if_pos (List.any_eq_true.mpr ⟨_, AABox.low_mem_corners _ fly.getDirs.forward, ?_⟩)
  rw [lt_exact, ofInt_exact, Int.cast_zero]
  simp only [dot_exact] at hlow hneg ⊢
  linarith

/-- If some of a cell is behind the camera, some of every cell above it is. -/
theorem Behind.mono {a b : Loc} (hab : a.AtOrAbove b) (h : Behind fly (b.getBBox : AABox ℝ)) :
    Behind fly (a.getBBox : AABox ℝ) := by
  obtain ⟨p, hp, hneg⟩ := h
  exact ⟨p, (Loc.inside_of_atOrAbove hab).closed_subset hp, hneg⟩

/-! ## In the world -/

/-- A point of the world has a cell of every level below the root. -/
theorem below_root {p : Point3 ℝ} (hp : p ∈ (Loc.root.getBBox : AABox ℝ).halfOpen)
    (hmax : 0 ≤ maxlod) :
    Loc.root.AtOrAbove (Loc.cellAt maxlod p) := by
  have hcell : Loc.cellAt Loc.root.l p = Loc.root := Loc.mem_halfOpen_iff.mp hp
  have hlevel : Loc.root.l ≤ maxlod := hmax
  exact ⟨hlevel, (Loc.parentAtLevel_cellAt hlevel p).trans hcell⟩

/-- The box has a point in common with the player's. -/
theorem relevant_of_player {a : Loc} {p : Point3 ℝ} (hp : p ∈ (playerBounds fly.pos).closed)
    (ha : p ∈ (a.getBBox : AABox ℝ).closed) : (frameView fly aspect maxlod).relevant a = true := by
  obtain ⟨⟨hx, hx'⟩, ⟨hy, hy'⟩, hz, hz'⟩ := hp
  obtain ⟨⟨ax, ax'⟩, ⟨ay, ay'⟩, az, az'⟩ := ha
  refine Bool.or_eq_true_iff.mpr (.inr (intersect_exact.mpr ?_))
  exact ⟨⟨hx.trans ax', ax.trans hx'⟩, ⟨hy.trans ay', ay.trans hy'⟩, hz.trans az', az.trans hz'⟩

theorem mem_cellAt (l : Int) (p : Point3 ℝ) : p ∈ ((Loc.cellAt l p).getBBox : AABox ℝ).halfOpen :=
  Loc.mem_halfOpen_iff.mpr rfl

theorem mem_closed_cellAt (l : Int) (p : Point3 ℝ) :
    p ∈ ((Loc.cellAt l p).getBBox : AABox ℝ).closed := by
  obtain ⟨hx, hy, hz⟩ := mem_cellAt l p
  exact ⟨Set.Ico_subset_Icc_self hx, Set.Ico_subset_Icc_self hy, Set.Ico_subset_Icc_self hz⟩

variable (aspect) in
/-- A finest cell that the player's box meets and that is partly behind the camera stops the walk:
none of the cells above it can be measured either. -/
theorem stops_behind (hmax : 0 ≤ maxlod) {p : Point3 ℝ}
    (hroot : p ∈ (Loc.root.getBBox : AABox ℝ).halfOpen)
    (hplayer : p ∈ (playerBounds fly.pos).closed) (hbehind : (fly.seen p).z < 0) :
    (frameView fly aspect maxlod).Stops .root true (Loc.cellAt maxlod p) := by
  have hclosed := mem_closed_cellAt maxlod p
  have hcell : Behind fly ((Loc.cellAt maxlod p).getBBox : AABox ℝ) := ⟨p, hclosed, hbehind⟩
  have hbelow {q : Loc} (hq : Loc.forest.Anc q (Loc.cellAt maxlod p)) :
      q.AtOrAbove (Loc.cellAt maxlod p) := Loc.atOrAbove_iff.mpr hq
  -- none of the cells on the way down has a level to stop at
  have hneg {q : Loc} (hq : Loc.forest.Anc q (Loc.cellAt maxlod p)) :
      (frameView fly aspect maxlod).targetLodForLoc q < 0 := by
    rw [lod_of_behind aspect maxlod (hcell.mono (hbelow hq))]
    decide
  refine ⟨Loc.atOrAbove_iff.mp (below_root hroot hmax), le_refl _, ?_, ?_, ?_⟩
  · intro q hq _
    exact relevant_of_player hplayer ((Loc.inside_of_atOrAbove (hbelow hq)).closed_subset hclosed)
  · intro q hq _ _
    exact .inl (hneg hq)
  · exact .inr (.inl ⟨hneg (Forest.anc_refl _), rfl⟩)

/-- A step back from the camera that leaves neither the player's box nor the world. -/
theorem exists_step {b e x f : ℝ} (hx : |x| < b) (he : 0 < e) (hf : |f| ≤ 1) :
    ∃ d > 0, ∀ t, 0 < t → t ≤ d → |x - t * f| < b ∧ |t * f| ≤ e := by
  refine ⟨min e ((b - |x|) / 2), lt_min he (by linarith), fun t ht hle => ?_⟩
  have hsmall : |t * f| ≤ t := by
    rw [abs_mul, abs_of_pos ht]
    exact mul_le_of_le_one_right ht.le hf
  have hte := hle.trans (min_le_left _ _)
  have htb := hle.trans (min_le_right _ _)
  refine ⟨?_, hsmall.trans hte⟩
  have := abs_sub x (t * f)
  linarith [abs_nonneg (t * f)]

theorem mem_world {p : Point3 ℝ} (hx : |p.x| < 128) (hy : |p.y| < 128) (hz : |p.z| < 128) :
    p ∈ (Loc.root.getBBox : AABox ℝ).halfOpen := by
  obtain ⟨hlow, hhigh⟩ := Loc.edge_root (K := ℝ)
  have hin {v : ℝ} (hv : |v| < 128) :
      v ∈ Set.Ico (Loc.root.edge 0 : ℝ) (Loc.root.edge (0 + 1)) := by
    rw [hlow, hhigh]
    exact ⟨(abs_lt.mp hv).1.le, (abs_lt.mp hv).2⟩
  rw [Loc.getBBox_exact]
  exact ⟨hin hx, hin hy, hin hz⟩

/-- A little behind the camera is still within the player's bounds, unless one looks straight up or
down. -/
theorem exists_behind (hlevel : Real.cos fly.dir.2 ≠ 0)
    (hx : |fly.pos.x| < 128) (hy : |fly.pos.y| < 128) (hz : |fly.pos.z| < 128) :
    ∃ p ∈ (Loc.root.getBBox : AABox ℝ).halfOpen, p ∈ (playerBounds fly.pos).closed ∧
      (fly.seen p).z < 0 := by
  have hunit := abs_le_one_of_unit (dot_ahead fly)
  have hext : (0 : ℝ) < FloatLike.ofInt 1 / FloatLike.ofInt 100 := by
    rw [ofInt_exact, ofInt_exact]
    norm_num
  obtain ⟨dx, hdx, hstepx⟩ := exists_step hx hext hunit.1
  obtain ⟨dy, hdy, hstepy⟩ := exists_step hy hext hunit.2.1
  obtain ⟨dz, hdz, hstepz⟩ := exists_step hz hext hunit.2.2
  -- the smallest of the three steps is one that all axes allow
  have ht : 0 < min dx (min dy dz) := lt_min hdx (lt_min hdy hdz)
  obtain ⟨wx, px⟩ := hstepx _ ht (min_le_left _ _)
  obtain ⟨wy, py⟩ := hstepy _ ht ((min_le_right _ _).trans (min_le_left _ _))
  obtain ⟨wz, pz⟩ := hstepz _ ht ((min_le_right _ _).trans (min_le_right _ _))
  have hneg (x f : ℝ) : x + -min dx (min dy dz) * f = x - min dx (min dy dz) * f := by ring
  have hplayer {x f : ℝ} (h : |min dx (min dy dz) * f| ≤ FloatLike.ofInt 1 / FloatLike.ofInt 100) :
      x - min dx (min dy dz) * f ∈ Set.Icc (x - FloatLike.ofInt 1 / FloatLike.ofInt 100)
        (x + FloatLike.ofInt 1 / FloatLike.ofInt 100) := by
    obtain ⟨hlow, hhigh⟩ := abs_le.mp h
    exact ⟨by linarith, by linarith⟩
  refine ⟨fly.pointAhead (-min dx (min dy dz)), ?_, ?_, ?_⟩
  · simp only [Fly.pointAhead, hneg]
    exact mem_world wx wy wz
  · simp only [Fly.pointAhead, hneg]
    exact ⟨hplayer px, hplayer py, hplayer pz⟩
  · rw [seen_pointAhead hlevel]
    exact neg_neg_of_pos ht

/-! ## What is selected -/

theorem get_ne_nil_of_stops {v : View} (hmax : 0 ≤ v.maxlod) {a : Loc} (h : v.Stops .root true a) :
    v.get [] ≠ [] := by
  have hdepth := View.root_add_depth hmax
  obtain ⟨out, hsel⟩ := Option.isSome_iff_exists.mp ((View.isSome_select_iff hdepth).mpr ⟨a, h⟩)
  have hout := (View.cover_of_select (Int.le_of_eq hdepth) hsel).nonempty
  rw [View.get, View.getLocsInView, View.getLocsInViewAt_eq, hsel]
  simpa using hout

variable (aspect) in
/-- There is always a tile: the descent ends, at the latest, in the finest cell around a point
behind the camera. -/
theorem get_ne_nil (hmax : 0 ≤ maxlod) (hlevel : Real.cos fly.dir.2 ≠ 0) (hx : |fly.pos.x| < 128)
    (hy : |fly.pos.y| < 128) (hz : |fly.pos.z| < 128) :
    (frameView fly aspect maxlod).get [] ≠ [] := by
  obtain ⟨p, hroot, hplayer, hbehind⟩ := exists_behind hlevel hx hy hz
  exact get_ne_nil_of_stops hmax (stops_behind aspect hmax hroot hplayer hbehind)

theorem frust_exact : (nearFrust : ℝ) = 1 / 10 ∧ (farFrust : ℝ) = 150 := by
  rw [nearFrust, farFrust, ofInt_exact, ofInt_exact, ofInt_exact]
  norm_num

theorem sees_frame (hlevel : Real.cos fly.dir.2 ≠ 0) (haspect : 0 < aspect) (hx : |fly.pos.x| < 128)
    (hy : |fly.pos.y| < 128) (hz : |fly.pos.z| < 128) : fly.Sees aspect nearFrust farFrust := by
  obtain ⟨hnear, hfar⟩ := frust_exact
  refine ⟨hlevel, ⟨?_, ?_, ?_⟩, haspect, ?_, ?_⟩
  · exact hx.le.trans (by norm_num)
  · exact hy.le.trans (by norm_num)
  · exact hz.le.trans (by norm_num)
  · rw [hnear]
    norm_num
  · rw [hnear, hfar]
    norm_num

/-- The point is on the screen, and not too close or too far. -/
structure Visible (fly : Fly ℝ) (aspect : ℝ) (p : Point3 ℝ) : Prop where
  x : |(fly.seen p).x| ≤ (fly.seen p).z * (slope * aspect)
  y : |(fly.seen p).y| ≤ (fly.seen p).z * slope
  near : 501 / 10000 ≤ (fly.seen p).z
  far : (fly.seen p).z ≤ 150

theorem Visible.front {p : Point3 ℝ} (h : Visible fly aspect p)
    (hsees : fly.Sees aspect nearFrust farFrust) :
    ∀ plane ∈ (fly.getFrustum aspect nearFrust farFrust).planes, 0 ≤ absDistance plane p := by
  obtain ⟨hnear, hfar⟩ := frust_exact
  refine (front_iff hsees p).mpr ⟨h.x, h.y, ?_, ?_⟩
  · rw [hnear, hfar]
    linarith [h.near]
  · rw [hfar]
    exact h.far

variable (aspect) in
/-- **Every point of the world that the camera sees, from 0.0501 to 150 away, is in exactly one tile
after the frame's update**, whatever the tiles were before. The camera is in the world, within 128
of the origin on each axis, and does not look straight up or down. -/
theorem frame_covers_view {s : OctTileSelection ℝ} (hs : OctTileSelection.Inv s) (hmax : 0 ≤ maxlod)
    (hlevel : Real.cos fly.dir.2 ≠ 0) (haspect : 0 < aspect) (hx : |fly.pos.x| < 128)
    (hy : |fly.pos.y| < 128) (hz : |fly.pos.z| < 128) :
    ∃ s', OctTileSelection.update fly.pos fly.getDirs.forward
        ((frameView fly aspect maxlod).get []) s = some s' ∧
      ∀ p ∈ (Loc.root.getBBox : AABox ℝ).halfOpen, Visible fly aspect p →
        ∃! a, a ∈ s'.tiles ∧ p ∈ (a.getBBox : AABox ℝ).halfOpen := by
  obtain ⟨s', hs', -, hupdated⟩ := hs.update fly.pos fly.getDirs.forward
    ((frameView fly aspect maxlod).get [])
  refine ⟨s', hs', fun p hp hvisible => ?_⟩
  have hfront := hvisible.front (sees_frame hlevel haspect hx hy hz)
  have hcell := mem_cellAt maxlod p
  -- the finest cell around the point is not behind any plane, since the point is not
  have hinView : contains (fly.getFrustum aspect nearFrust farFrust)
      ((Loc.cellAt maxlod p).getBBox : AABox ℝ) ≠ .disjoint := by
    rw [Ne, contains_eq_disjoint_iff _ (Loc.valid_getBBox _)]
    rintro ⟨plane, hplane, hbehind⟩
    exact absurd (hfront plane hplane) (not_le.mpr (hbehind p (mem_closed_cellAt maxlod p)))
  obtain ⟨a, ⟨ha, hanc⟩, hunique⟩ := covered_of_visible _ (playerBounds fly.pos) _ hmax
    (get_ne_nil aspect hmax hlevel hx hy hz) (Loc.atOrAbove_iff.mp (below_root hp hmax)) rfl hinView
  refine ⟨a, ⟨(hupdated.keys a).mpr ha, ?_⟩, ?_⟩
  · exact Loc.halfOpen_subset (Loc.atOrAbove_iff.mpr hanc) hcell
  · -- another tile around the point would be above the same finest cell
    rintro b ⟨hb, hpb⟩
    have hb := (hupdated.keys b).mp hb
    exact hunique b ⟨hb, Loc.atOrAbove_iff.mp
      (Loc.atOrAbove_of_mem hpb hcell (View.mem_get hmax hb).1)⟩

/-- The camera of a new world, looking along the z axis, and a point ahead of it. -/
theorem frame_covers_view_start : let fly : Fly ℝ := ⟨⟨0, 0, -1 / 2⟩, (0, 0)⟩
    ∃ s', OctTileSelection.update fly.pos fly.getDirs.forward ((frameView fly 1 9).get [])
        OctTileSelection.initial = some s' ∧ Visible fly 1 (fly.pointAhead 1) ∧
      ∃! a, a ∈ s'.tiles ∧ fly.pointAhead 1 ∈ (a.getBBox : AABox ℝ).halfOpen := by
  intro fly
  have hlevel : Real.cos fly.dir.2 ≠ 0 := Fly.cos_ne_zero rfl
  have hpoint : fly.pointAhead 1 = ⟨0, 0, 1 / 2⟩ := by
    simp only [Fly.pointAhead, Fly.ahead, fly, Real.cos_zero, Real.sin_zero, Point3.mk.injEq]
    norm_num
  have hvisible : Visible fly 1 (fly.pointAhead 1) := by
    have hs := slope_pos
    constructor <;> rw [seen_pointAhead hlevel]
    · simpa using hs.le
    · simpa using hs.le
    · norm_num
    · norm_num
  obtain ⟨s', hs', hcover⟩ := frame_covers_view 1
    OctTileSelection.inv_initial (show (0 : Int) ≤ 9 by decide) hlevel one_pos
    (by norm_num [fly]) (by norm_num [fly]) (by norm_num [fly])
  refine ⟨s', hs', hvisible, hcover _ ?_ hvisible⟩
  rw [hpoint]
  exact mem_world (by norm_num) (by norm_num) (by norm_num)

end Exact

end FrustumTiles

end MapBg
