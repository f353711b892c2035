import Mathlib.Data.Rat.Floor
import MapBg.Loc.Exact

/-!
# Two passes: what is far, then what is near

A frame is drawn in two passes with a depth buffer each, first what is beyond the distance `mid`,
then what is before it. `Update` has left in every tile how near and how far the corners of its box
are, along the view direction, and `OctTile::Draw` returns at once in the first pass if the tile is
all before `mid`, in the second if it is all beyond. A third pass draws the items; tiles return from
it as well.

Depth is linear in the point, so the corners bound the depth of the whole box
(`neardist_le_depth`, `depth_le_fardist`). Nothing in a tile is lost to the split: a tile that
reaches beyond `mid` is drawn in the first pass, one that reaches before it in the second, and there
is none that is drawn in neither (`split_keeps_all`).
-/

set_option autoImplicit false

namespace MapBg

/-! ## The code -/

section Code

variable {F : Type} [FloatLike F]

/-- The two tests at the top of `OctTile::Draw`. -/
def skipped (d : LocDistance F) (nearfarpassIdx : Nat) (mid : F) : Bool :=
  if nearfarpassIdx = 0 ∧ FloatLike.lt d.fardist mid then true
  else if nearfarpassIdx = 1 ∧ FloatLike.lt mid d.neardist then true
  else false

/-- `m_curviewIdx` and `m_nearfarpassIdx`, as `Engine::Draw` sets them for its three passes. -/
def drawPasses : List (Nat × Nat) := [(0, 0), (1, 1), (2, 1)]

/-- The passes in which the tile is drawn. -/
def drawnIn (d : LocDistance F) (mid : F) : List (Nat × Nat) :=
  drawPasses.filter fun pass => !skipped d pass.2 mid && !decide (pass.1 > 1)

/-- `dot(camdir, p - campos)`. -/
def depth (campos camdir p : Point3 F) : F :=
  dot camdir ⟨p.x - campos.x, p.y - campos.y, p.z - campos.z⟩

end Code

/-! ## The passes -/

variable {K : Type} [Field K] [LinearOrder K] [FloorRing K]

theorem skipped_far {d : LocDistance K} {mid : K} : skipped d 0 mid = true ↔ d.fardist < mid := by
  simp [skipped, lt_exact]

theorem skipped_near {d : LocDistance K} {mid : K} : skipped d 1 mid = true ↔ mid < d.neardist := by
  simp [skipped, lt_exact]

/-- A tile is in the first pass if it reaches to `mid` from beyond, in the second if from before. -/
theorem mem_drawnIn {d : LocDistance K} {mid : K} {pass : Nat × Nat} : pass ∈ drawnIn d mid ↔
    pass = (0, 0) ∧ mid ≤ d.fardist ∨ pass = (1, 1) ∧ d.neardist ≤ mid := by
  rw [← not_lt, ← not_lt, ← skipped_far, ← skipped_near]
  simp only [drawnIn, drawPasses, List.mem_filter, List.mem_cons, List.not_mem_nil, or_false]
  grind

/-! ## The depth of a box -/

theorem depth_eq (campos camdir p : Point3 K) :
    depth campos camdir p = dot camdir p - dot camdir campos := by
  simp only [depth, dot_exact]
  ring

variable [IsStrictOrderedRing K] {loc : Loc} {campos camdir p : Point3 K} {mid : K}

/-- The corners bound the depth of every point of the box, here from below. -/
theorem neardist_le_depth (h : p ∈ (loc.getBBox : AABox K).closed) :
    (getLocDistance loc campos camdir).neardist ≤ depth campos camdir p := by
  have hcorner := AABox.low_mem_corners (loc.getBBox : AABox K) camdir
  have hfold : (getLocDistance loc campos camdir).neardist
      ≤ depth campos camdir ((loc.getBBox : AABox K).low camdir) := by
    simp only [getLocDistance, funext₂ stdMin_exact]
    exact (Extreme.foldl_min _ _).2.1 _ (List.mem_map_of_mem hcorner)
  refine hfold.trans ?_
  rw [depth_eq, depth_eq]
  exact sub_le_sub_right (AABox.low_le_dot h camdir) _

theorem depth_le_fardist (h : p ∈ (loc.getBBox : AABox K).closed) :
    depth campos camdir p ≤ (getLocDistance loc campos camdir).fardist := by
  have hcorner := AABox.high_mem_corners (loc.getBBox : AABox K) camdir
  have hfold : depth campos camdir ((loc.getBBox : AABox K).high camdir)
      ≤ (getLocDistance loc campos camdir).fardist := by
    simp only [getLocDistance, funext₂ stdMax_exact]
    exact (Extreme.foldl_max _ _).2.1 _ (List.mem_map_of_mem hcorner)
  refine le_trans ?_ hfold
  rw [depth_eq, depth_eq]
  exact sub_le_sub_right (AABox.dot_le_high h camdir) _

theorem neardist_le_fardist (loc : Loc) (campos camdir : Point3 K) :
    (getLocDistance loc campos camdir).neardist ≤ (getLocDistance loc campos camdir).fardist := by
  have hcorner := AABox.high_mem loc.valid_getBBox camdir
  exact (neardist_le_depth hcorner).trans (depth_le_fardist hcorner)

/-- **The split into passes loses nothing.** -/
theorem split_keeps_all (loc : Loc) (campos camdir : Point3 K) (mid : K) :
    let d := getLocDistance loc campos camdir
    (∀ p ∈ (loc.getBBox : AABox K).closed,
      d.neardist ≤ dot camdir ⟨p.x - campos.x, p.y - campos.y, p.z - campos.z⟩ ∧
      dot camdir ⟨p.x - campos.x, p.y - campos.y, p.z - campos.z⟩ ≤ d.fardist) ∧
    (∀ p ∈ (loc.getBBox : AABox K).closed, mid ≤ depth campos camdir p → ¬ skipped d 0 mid) ∧
    (∀ p ∈ (loc.getBBox : AABox K).closed, depth campos camdir p ≤ mid → ¬ skipped d 1 mid) ∧
    ¬ (skipped d 0 mid ∧ skipped d 1 mid) := by
  intro d
  refine ⟨fun p hp => ⟨neardist_le_depth hp, depth_le_fardist hp⟩, ?_, ?_, ?_⟩
  · intro p hp hfar
    rw [skipped_far, not_lt]
    exact hfar.trans (depth_le_fardist hp)
  · intro p hp hnear
    rw [skipped_near, not_lt]
    exact (neardist_le_depth hp).trans hnear
  -- a tile skipped by both would end before it begins
  · rw [skipped_far, skipped_near]
    rintro ⟨hfar, hnear⟩
    exact absurd (hfar.trans hnear) (not_lt_of_ge (neardist_le_fardist loc campos camdir))

/-- The root, seen along `x` from its lower corner, reaches beyond 25. -/
theorem split_keeps_all_root :
    (⟨-28, 0, 0⟩ : Point3 Rat) ∈ (Loc.root.getBBox : AABox Rat).closed ∧
    ¬ skipped (getLocDistance Loc.root (⟨-128, -128, -128⟩ : Point3 Rat) ⟨1, 0, 0⟩) 0 25 := by
  have hmem : (⟨-28, 0, 0⟩ : Point3 Rat) ∈ (Loc.root.getBBox : AABox Rat).closed := by
    rw [Loc.getBBox_exact]
    simp only [AABox.closed, Set.mem_ofPred_eq, Set.mem_Icc, Loc.edge, Loc.extent, Loc.root]
    norm_num
  refine ⟨hmem, (split_keeps_all Loc.root _ _ _).2.1 _ hmem ?_⟩
  simp only [depth, dot_exact]
  norm_num

end MapBg
