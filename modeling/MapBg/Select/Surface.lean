import MapBg.Oct.Ground
import MapBg.Select.Cubes
import MapBg.Terrain.Sample

/-!
# From the terrain to the cubes

A tile that is not in the database is made from the terrain: the heights become voxels, the voxels
are encoded, the code is stored, and `LoadVB` makes of it the list of points that cubes are drawn
at. Here the stages are put together.

The last one has a counter of eight bits and does not return if there are 256 voxels one after the
other, in the order of their indices. In terms of the terrain, that is when 256 cells one after the
other hold the height of their column (`load_returns_iff`). One row of level ground is enough.

If it does return, the terrain is what is drawn. The height of every column is where the program
that computes the heights has taken it, and the column has a cube around that point exactly if the
height is in the box of the tile (`surface_drawn`).
-/

set_option autoImplicit false

namespace MapBg

namespace OctTile

/-! ## Voxels by their index -/

section Index

variable {F : Type} [FloatLike F] {l : Loc} {t : TerrainTile F}

theorem cellCoord_cell (y : Nat) {z x : Nat} (hz : z < squarePtsCt) (hx : x < squarePtsCt) :
    cellCoord (cell y z x) = ⟨x, y, z⟩ := by
  unfold cellCoord cell squarePtsCt at *
  simp only [Vec3i.mk.injEq]
  omega

/-- A column is filled in the row its height is in, and nowhere else. -/
theorem filled_cell {bboxoct : AABox F} {tpts : List F} (y : Nat) {z x : Nat}
    (hz : z < squarePtsCt) (hx : x < squarePtsCt) :
    Filled bboxoct tpts (cell y z x) ↔ rowOf bboxoct tpts z x = some y := by
  have hrow : cell y z x / (squarePtsCt * squarePtsCt) = y := by
    unfold cell squarePtsCt at *
    omega
  have hcol : cell y z x / squarePtsCt % squarePtsCt = z ∧ cell y z x % squarePtsCt = x := by
    unfold cell squarePtsCt at *
    omega
  rw [Filled, hrow, hcol.1, hcol.2]

/-- What is stored for a tile that meets the terrain. -/
theorem loadTerrainData_filled (hlen : t.heightData.length = totalPtsCt * totalPtsCt)
    (hmeet : MapBg.intersect t.heightBbox l.getBBox = true) :
    ∃ data rledata, loadTerrainData t (create l) = ({ create l with rledata }, none) ∧
      rleEncode data = .ok rledata ∧ data.length = cellCt ∧
      ∀ i < cellCt, data[i]? = some (if Filled l.getBBox t.heightData i then 1 else 0) := by
  obtain ⟨data, hdata, hcells, hfilled⟩ := voxelData_filled l.getBBox hlen
  have hrle := rleEncode_eq (ne_nil_of_length_cellCt hcells)
  exact ⟨data, _, loadTerrainData_ok (o := create l) (terrainRle_of_meet hmeet hdata hrle), hrle,
    hcells, hfilled⟩

/-- Without, it is empty. -/
theorem loadTerrainData_apart (hapart : MapBg.intersect t.heightBbox l.getBBox = false) :
    loadTerrainData t (create l) = (create l, none) :=
  loadTerrainData_ok (o := create l) (terrainRle_of_apart hapart)

omit [FloatLike F] in
theorem loadVB_snd (fuel : Nat) (o : OctTile F) :
    (loadVB fuel o).2 = none ↔ ∃ octPts, loadVBPts fuel o.rledata = .ok octPts := by
  unfold loadVB
  cases loadVBPts fuel o.rledata with
  | error stop => simp
  | ok octPts => simp

end Index

/-! ## When the tile is loaded -/

section Loads

variable {F : Type} [FloatLike F]

variable {t : TerrainTile F}

/-- Ground that is nowhere level is loaded. -/
theorem exists_loadVB (l : Loc) (hlen : t.heightData.length = totalPtsCt * totalPtsCt)
    (huneven : MapBg.intersect t.heightBbox l.getBBox = true → ¬ Level l.getBBox t.heightData) :
    ∃ o o', loadTerrainData t (create l) = (o, none) ∧ loadVB 256 o = (o', none) := by
  cases hmeet : MapBg.intersect t.heightBbox l.getBBox with
  | false => exact ⟨_, _, loadTerrainData_apart hmeet, rfl⟩
  | true =>
    obtain ⟨data, rledata, hload, hrle, hcells, hfilled⟩ := loadTerrainData_filled hlen hmeet
    have hrun := mt (long_run_iff_level hcells hfilled).mp (huneven hmeet)
    have hreturns := (loadVB_snd 256 ({ create l with rledata } : OctTile F)).mpr
      ⟨_, loadVBPts_short hrle hrun (Nat.le_refl 256)⟩
    exact ⟨_, _, hload, Prod.ext rfl hreturns⟩

/-- For any arithmetic: the tile is loaded, unless 256 of its cells that follow each other in index
order are filled, within a row or across the end of one. -/
theorem load_returns_iff (l : Loc) (hlen : t.heightData.length = totalPtsCt * totalPtsCt) :
    ∃ o, loadTerrainData t (create l) = (o, none) ∧
      ((∃ fuel, (loadVB fuel o).2 = none) ↔
        ¬ (MapBg.intersect t.heightBbox l.getBBox = true ∧ Level l.getBBox t.heightData)) := by
  by_cases hlevel : MapBg.intersect t.heightBbox l.getBBox = true ∧ Level l.getBBox t.heightData
  · obtain ⟨data, rledata, hload, hrle, hcells, hfilled⟩ := loadTerrainData_filled hlen hlevel.1
    refine ⟨_, hload, iff_of_false ?_ (not_not_intro hlevel)⟩
    rintro ⟨fuel, hreturns⟩
    have hrun := (long_run_iff_level hcells hfilled).mpr hlevel.2
    obtain ⟨octPts, hok⟩ := (loadVB_snd fuel _).mp hreturns
    rw [show ({ create l with rledata } : OctTile F).rledata = rledata from rfl,
      loadVBPts_never hrle hrun fuel] at hok
    cases hok
  · obtain ⟨o, o', hload, hvb⟩ := exists_loadVB l hlen (not_and.mp hlevel)
    exact ⟨o, hload, iff_of_true ⟨256, congrArg Prod.snd hvb⟩ hlevel⟩

/-- Level ground is not. -/
theorem load_returns_iff_flat : ∃ o, loadTerrainData flatGround (create Loc.root) = (o, none) ∧
    ¬ ∃ fuel, (loadVB fuel o).2 = none := by
  obtain ⟨o, hload, hiff⟩ := load_returns_iff Loc.root length_flatGround
  have hzero {h : ℚ} (hh : h ∈ flatGround.heightData) : h = 0 := (List.mem_replicate.mp hh).2
  have hmem : (0 : ℚ) ∈ flatGround.heightData := List.mem_replicate.mpr ⟨by decide, rfl⟩
  have hin : (Loc.root.edge Loc.root.y : ℚ) < 0 ∧ (0 : ℚ) < Loc.root.edge (Loc.root.y + 1) := by
    norm_num [Loc.edge, Loc.extent, Loc.root]
  have hrow : voxelRow (Loc.root.getBBox : AABox ℚ) 0 = some 128 := by decide +kernel
  refine ⟨o, hload, fun hreturns => hiff.mp hreturns ⟨spans_flatGround.meet rfl hmem hin, ?_⟩⟩
  -- the row of height 0 is filled from end to end
  refine ⟨128 * 65536, by decide, fun i hi => ?_⟩
  obtain ⟨h, hh⟩ := exists_heightAt length_flatGround
    (Nat.mod_lt ((i + 128 * 65536) / squarePtsCt) (by decide))
    (Nat.mod_lt (i + 128 * 65536) (by decide))
  rw [Filled, rowOf, hh, Option.bind_some, hzero (List.mem_of_getElem? hh), hrow]
  congr 1
  unfold squarePtsCt
  omega

end Loads

/-! ## What is drawn -/

section Points

variable {F : Type} [FloatLike F] {l : Loc} {t : TerrainTile F}

/-- A cube is drawn at this point. -/
def Draws (o : OctTile F) (pt : Vec3i) : Prop := ∃ pts, o.voxelinst = some pts ∧ pt ∈ pts

omit [FloatLike F] in
theorem not_draws_create (fuel : Nat) (pt : Vec3i) :
    ¬ (loadVB fuel (create l : OctTile F)).1.Draws pt := by
  rintro ⟨pts, hpts, -⟩
  cases hpts

/-- The points of a tile that was loaded. -/
theorem draws_iff (hlen : t.heightData.length = totalPtsCt * totalPtsCt)
    (hmeet : MapBg.intersect t.heightBbox l.getBBox = true) {fuel : Nat} (hf : 256 ≤ fuel)
    {o o' : OctTile F} (hload : loadTerrainData t (create l) = (o, none))
    (hvb : loadVB fuel o = (o', none)) (pt : Vec3i) :
    o'.Draws pt ↔ ∃ i < cellCt, Filled l.getBBox t.heightData i ∧ cellCoord i = pt := by
  obtain ⟨data, rledata, hload', hrle, hcells, hfilled⟩ := loadTerrainData_filled hlen hmeet
  obtain rfl : o = { create l with rledata } := congrArg Prod.fst (hload.symm.trans hload')
  -- the loop has ended, so there is no run of 256
  have hrun : ¬ List.replicate 256 1 <:+: data := by
    intro hrun
    obtain ⟨octPts, hok⟩ := (loadVB_snd fuel _).mp (congrArg Prod.snd hvb)
    rw [show ({ create l with rledata } : OctTile F).rledata = rledata from rfl,
      loadVBPts_never hrle hrun fuel] at hok
    cases hok
  have hpts : loadVBPts fuel rledata = .ok ((onesFrom 0 data).map cellCoord) :=
    loadVBPts_short hrle hrun hf
  have hmem : pt ∈ (onesFrom 0 data).map cellCoord ↔
      ∃ i < cellCt, Filled l.getBBox t.heightData i ∧ cellCoord i = pt := by
    rw [List.mem_map]
    refine exists_congr fun i => ?_
    rw [onesFrom_eq_filter, List.mem_filter, hcells, ← List.range_eq_range', List.mem_range,
      and_assoc, Nat.sub_zero, decide_eq_true_iff]
    refine and_congr_right fun hi => and_congr_left fun _ => ?_
    rw [hfilled i hi]
    by_cases h : Filled l.getBBox t.heightData i <;> simp [h]
  rw [← hmem]
  unfold loadVB at hvb
  rw [show ({ create l with rledata } : OctTile F).rledata = rledata from rfl, hpts] at hvb
  obtain rfl := (congrArg Prod.fst hvb).symm
  unfold Draws
  generalize (onesFrom 0 data).map cellCoord = pts
  cases pts with
  | nil => simp [create]
  | cons a pts => simp

end Points

section Surface

variable {l : Loc} {t : TerrainTile ℝ}

open TerrainTile (sampleAt samplePos)

/-- The terrain in a tile: the samples whose height is in the box, each where it was taken. -/
def surface (l : Loc) (heightData : List ℝ) : Set (Point3 ℝ) :=
  {q | ∃ z < squarePtsCt, ∃ x < squarePtsCt,
    sampleAt heightData (x + overlapPtsCt) (z + overlapPtsCt) = some q.y ∧
    samplePos l ((x + overlapPtsCt : Nat) : ℝ) ((z + overlapPtsCt : Nat) : ℝ) = ⟨q.x, q.z⟩ ∧
    l.edge l.y < q.y ∧ q.y < l.edge (l.y + 1)}

/-- The samples inside the border are at the corners of the voxels. -/
theorem samplePos_inside (l : Loc) (z x : Nat) :
    samplePos l ((x + overlapPtsCt : Nat) : ℝ) ((z + overlapPtsCt : Nat) : ℝ)
      = ⟨l.edge l.x + l.cell * x, l.edge l.z + l.cell * z⟩ := by
  rw [TerrainTile.samplePos_eq, Loc.cell_eq, overlapPtsCt, squarePtsCt]
  push_cast
  congr 1 <;> ring

/-- A sample lies in the cell of its voxel. -/
theorem mem_cells_of_row {q : Point3 ℝ} {y z x : Nat} (hrow : voxelRow l.getBBox q.y = some y)
    (hx : q.x = l.edge l.x + l.cell * x) (hz : q.z = l.edge l.z + l.cell * z) :
    q ∈ (l.cells ⟨x, y, z⟩ 0 1).closed := by
  obtain ⟨hlow, hhigh⟩ := voxelRow_bounds hrow
  have hcell := l.cell_pos
  rw [← Loc.cell_eq] at hlow hhigh
  refine ⟨⟨?_, ?_⟩, ⟨?_, ?_⟩, ⟨?_, ?_⟩⟩ <;>
    simp only [Loc.cells, Int.cast_natCast, hx, hz] <;> linarith

/-- **What is drawn is the terrain**: a sample in the box of the tile is in a cube of the tile, and
there is no cube without one. -/
theorem surface_drawn (hl : t.l = { l with y := 0 })
    (hlen : t.heightData.length = totalPtsCt * totalPtsCt) {lo hi : ℝ} (hspan : Spans t lo hi)
    {fuel : Nat} (hf : 256 ≤ fuel) {o o' : OctTile ℝ}
    (hload : loadTerrainData t (create l) = (o, none)) (hvb : loadVB fuel o = (o', none)) :
    (∀ q ∈ surface l t.heightData, ∃ pt, o'.Draws pt ∧ q ∈ voxelCube l pt) ∧
      ∀ pt, o'.Draws pt → ∃ q ∈ surface l t.heightData, q ∈ voxelCube l pt := by
  constructor
  · rintro q ⟨z, hz, x, hx, hsample, hpos, hin⟩
    have hmeet := hspan.meet hl (List.mem_of_getElem? hsample) hin
    have hheight : heightAt t.heightData z x = some q.y := hsample
    -- a height strictly inside the cell has a row
    cases hrow : voxelRow l.getBBox q.y with
    | none => exact absurd hin (voxelRow_eq_none.mp hrow)
    | some y =>
      have hy := voxelRow_lt hrow
      refine ⟨⟨x, y, z⟩, (draws_iff hlen hmeet hf hload hvb _).mpr
        ⟨cell y z x, cell_lt hy hz hx, ?_, cellCoord_cell y hz hx⟩, ?_⟩
      · rw [filled_cell y hz hx, rowOf, hheight, Option.bind_some, hrow]
      · rw [samplePos_inside, Vec2.mk.injEq] at hpos
        rw [mem_voxelCube]
        exact cells_mono one_le_two (mem_cells_of_row hrow hpos.1.symm hpos.2.symm)
  · intro pt hpt
    cases hmeet : MapBg.intersect t.heightBbox l.getBBox with
    -- nothing is made where the boxes are apart, and nothing drawn
    | false =>
      obtain rfl := congrArg Prod.fst (hload.symm.trans (loadTerrainData_apart hmeet))
      have hnone := not_draws_create (F := ℝ) (l := l) fuel pt
      rw [hvb] at hnone
      exact absurd hpt hnone
    | true =>
      obtain ⟨i, hi, hfilled, rfl⟩ := (draws_iff hlen hmeet hf hload hvb pt).mp hpt
      have hz : i / squarePtsCt % squarePtsCt < squarePtsCt := Nat.mod_lt _ (by decide)
      have hx : i % squarePtsCt < squarePtsCt := Nat.mod_lt _ (by decide)
      obtain ⟨h, hheight, hrow⟩ := Option.bind_eq_some_iff.mp hfilled
      refine ⟨⟨l.edge l.x + l.cell * (i % squarePtsCt : Nat), h,
        l.edge l.z + l.cell * (i / squarePtsCt % squarePtsCt : Nat)⟩, ⟨_, hz, _, hx, hheight,
        samplePos_inside .., voxelRow_inside hrow⟩, ?_⟩
      have hcoord : cellCoord i = ⟨(i % squarePtsCt : Nat), (i / (squarePtsCt * squarePtsCt) : Nat),
          (i / squarePtsCt % squarePtsCt : Nat)⟩ := by
        rw [← cellCoord_cell _ hz hx, cell_of_index]
      rw [mem_voxelCube, hcoord]
      exact cells_mono one_le_two (mem_cells_of_row hrow rfl rfl)

/-- Every other column is at height 0; the rest are above the root cell. -/
noncomputable def ridgeHeights : List ℝ :=
  (List.range (384 * 384)).map fun n => if n % 2 = 0 then 0 else 500

/-- A terrain tile that is ready, with the ridges for its heights. -/
noncomputable def ridges : TerrainTile ℝ where
  l := Loc.root
  heightData := ridgeHeights
  buildFrame := 0
  buildStep := -1
  dataready := true
  heightBbox := heightBox Loc.root ridgeHeights
  parent := none
  lastUsedframeIdx := 0

theorem length_ridges : ridges.heightData.length = 384 * 384 := by
  rw [ridges, ridgeHeights, List.length_map, List.length_range]

theorem spans_ridges : Spans ridges (heightRange ridges.heightData).1
    (heightRange ridges.heightData).2 := by
  refine spans_heightBox (List.ne_nil_of_length_pos (by rw [length_ridges]; decide))
    (fun h hh => ?_) (by rw [ridges])
  simp only [ridges, ridgeHeights, List.mem_map] at hh
  obtain ⟨n, -, rfl⟩ := hh
  split <;> norm_num [FloatLike.maxVal]

theorem heightAt_ridges {z x : Nat} (hz : z < squarePtsCt) (hx : x < squarePtsCt) :
    heightAt ridges.heightData z x = some (if x % 2 = 0 then 0 else 500) := by
  have hlt : (z + overlapPtsCt) * totalPtsCt + (x + overlapPtsCt) < 384 * 384 := by
    unfold totalPtsCt overlapPtsCt squarePtsCt at *
    omega
  have hparity : ((z + overlapPtsCt) * totalPtsCt + (x + overlapPtsCt)) % 2 = x % 2 := by
    unfold totalPtsCt overlapPtsCt squarePtsCt
    omega
  rw [heightAt, ridges, ridgeHeights, List.getElem?_map, List.getElem?_range hlt, Option.map_some,
    hparity]

theorem even_of_filled_ridges {i : Nat} (h : Filled Loc.root.getBBox ridges.heightData i) :
    i % 2 = 0 := by
  have hz : i / squarePtsCt % squarePtsCt < squarePtsCt := Nat.mod_lt _ (by decide)
  have hx : i % squarePtsCt < squarePtsCt := Nat.mod_lt _ (by decide)
  have hparity : i % squarePtsCt % 2 = i % 2 := Nat.mod_mod_of_dvd i (by decide)
  by_contra hodd
  rw [Filled, rowOf, heightAt_ridges hz hx, hparity, if_neg hodd, Option.bind_some] at h
  have hin := voxelRow_inside h
  norm_num [Loc.edge, Loc.extent, Loc.root] at hin

/-- No two columns next to each other are in the same layer. -/
theorem not_level_ridges : ¬ Level Loc.root.getBBox ridges.heightData := by
  rintro ⟨v, -, hrow⟩
  have hfirst := even_of_filled_ridges (hrow 0 (by decide))
  have hsecond := even_of_filled_ridges (hrow 1 (by decide))
  omega

theorem surface_drawn_ridges : ∃ o o' : OctTile ℝ,
    loadTerrainData ridges (create Loc.root) = (o, none) ∧ loadVB 256 o = (o', none) ∧
      (⟨-128, 0, -128⟩ : Point3 ℝ) ∈ surface Loc.root ridges.heightData ∧
      ∃ pt, o'.Draws pt ∧ (⟨-128, 0, -128⟩ : Point3 ℝ) ∈ voxelCube Loc.root pt := by
  obtain ⟨o, o', hload, hvb⟩ := exists_loadVB Loc.root length_ridges fun _ => not_level_ridges
  have hmem : (⟨-128, 0, -128⟩ : Point3 ℝ) ∈ surface Loc.root ridges.heightData := by
    refine ⟨0, by decide, 0, by decide, heightAt_ridges (by decide) (by decide), ?_, ?_⟩
    · rw [samplePos_inside]
      norm_num [Loc.edge, Loc.extent, Loc.root]
    · norm_num [Loc.edge, Loc.extent, Loc.root]
  exact ⟨o, o', hload, hvb, hmem, (surface_drawn rfl length_ridges spans_ridges (Nat.le_refl 256)
    hload hvb).1 _ hmem⟩

end Surface

end OctTile

end MapBg
