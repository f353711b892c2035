import Mathlib.Data.Rat.Floor
import Mathlib.Order.Bounds.Basic
import MapBg.Lib.Extreme
import MapBg.Loc.Exact
import MapBg.Oct.Tile

/-!
# `OctTile::GetGroundPos`: the ground, read back from the voxels

`LoadTerrainData` turns the heights of a terrain tile into voxels, one for each column whose height
falls into the box of the cell, and keeps them run-length encoded. `GetGroundPos` decodes them again
and looks for the topmost voxel of a column.

Up to the last step this has nothing to do with arithmetic: in any `FloatLike` type, what
`GetGroundPos` finds in a column is the row `LoadTerrainData` put its voxel in, if it put one
(`getGroundPos_eq`). The strides, the overlap of the height field, the encoding and the scan all
have to agree for that, and they do.

In exact arithmetic the row is the height, rounded down to a 256th of the cell, and the test of the
boxes by which `LoadTerrainData` returns early never hides a voxel: it fails only if all heights are
above the cell or all below. So the ground is within one voxel of the terrain, or there is none in
the cell (`ground_matches_terrain`).
-/

set_option autoImplicit false

namespace MapBg

namespace OctTile

variable {F : Type}

/-! ## The code

NaN, which stands for no ground, is `none`. -/

/-- The loop of `GetGroundPos` over the rows of a column, from the top. -/
def groundScan (data : List UInt8) (z x : Nat) : Nat → Except Stop (Option Nat)
  | 0 => .ok none
  | y + 1 =>
    match data[y * squarePtsCt * squarePtsCt + z * squarePtsCt + x]? with
    | none => .error .readPastEnd
    | some v => if v > 0 then .ok (some y) else groundScan data z x y

section Code

variable [FloatLike F]

/-- The column a coordinate falls into. -/
def groundColumn (lo extent v : F) : Nat :=
  (min ((squarePtsCt : Int) - 1) (max 0 (FloatLike.toInt ((v - lo) * extent)))).toNat

def getGroundPos (pt : F × F) (o : OctTile F) : Except Stop (Option F) :=
  if o.rledata.length = 0 then .ok none
  else do
    let bboxoct : AABox F := o.l.getBBox
    let extent := FloatLike.ofInt squarePtsCt / (bboxoct.max.x - bboxoct.min.x)
    let invextent := (bboxoct.max.x - bboxoct.min.x) / FloatLike.ofInt squarePtsCt
    let x := groundColumn bboxoct.min.x extent pt.1
    let z := groundColumn bboxoct.min.z extent pt.2
    let data ← rleDecode cellCt o.rledata
    let y ← groundScan data z x squarePtsCt
    .ok (y.map fun y : Nat => FloatLike.ofInt y * invextent + bboxoct.min.y)

end Code

/-! ## The voxels of a column -/

section Voxels

variable [FloatLike F]

/-- The row of the voxel that a height makes. -/
def voxelRow (bboxoct : AABox F) (h : F) : Option Nat :=
  let ext := FloatLike.ofInt squarePtsCt / (bboxoct.max.y - bboxoct.min.y)
  if FloatLike.lt bboxoct.min.y h && FloatLike.lt h bboxoct.max.y then
    some (max 0 (min ((squarePtsCt : Int) - 1) (FloatLike.toInt ((h - bboxoct.min.y) * ext)))).toNat
  else none

/-- The height of a column. The height field begins `overlapPtsCt` samples before the cell. -/
def heightAt (tpts : List F) (z x : Nat) : Option F :=
  tpts[(z + overlapPtsCt) * totalPtsCt + (x + overlapPtsCt)]?

def cell (y z x : Nat) : Nat := y * squarePtsCt * squarePtsCt + z * squarePtsCt + x

variable {bboxoct : AABox F} {tpts : List F}

/-- The row is clamped to the cell, so that the write stays inside the data. -/
theorem voxelRow_lt {h : F} {y : Nat} (hy : voxelRow bboxoct h = some y) : y < squarePtsCt := by
  unfold voxelRow at hy
  simp only at hy
  split at hy
  · cases hy
    unfold squarePtsCt
    omega
  · exact absurd hy (by simp)

theorem cell_lt {y z x : Nat} (hy : y < squarePtsCt) (hz : z < squarePtsCt) (hx : x < squarePtsCt) :
    cell y z x < cellCt := by
  unfold cell cellCt squarePtsCt at *
  omega

theorem cell_inj {y z x y' z' x' : Nat} (hz : z < squarePtsCt) (hx : x < squarePtsCt)
    (hz' : z' < squarePtsCt) (hx' : x' < squarePtsCt) :
    cell y z x = cell y' z' x' ↔ y = y' ∧ z = z' ∧ x = x' := by
  unfold cell squarePtsCt at *
  omega

/-- Every column of the cell has a height, behind the overlap. -/
theorem exists_heightAt {F : Type} {tpts : List F}
    (hlen : tpts.length = totalPtsCt * totalPtsCt) {z x : Nat} (hz : z < squarePtsCt)
    (hx : x < squarePtsCt) : ∃ h, heightAt tpts z x = some h := by
  refine ⟨_, List.getElem?_eq_getElem ?_⟩
  rw [hlen]
  unfold totalPtsCt overlapPtsCt squarePtsCt at *
  omega

theorem mem_columns {z x : Nat} : (z, x) ∈ columns ↔ z < squarePtsCt ∧ x < squarePtsCt := by
  simp [columns, and_comm]

/-- Where the voxels of a column are: one row, or none. -/
def rowOf (bboxoct : AABox F) (tpts : List F) (z x : Nat) : Option Nat :=
  (heightAt tpts z x).bind (voxelRow bboxoct)

theorem rowOf_lt {z x y : Nat} (h : rowOf bboxoct tpts z x = some y) : y < squarePtsCt := by
  obtain ⟨_, -, hy⟩ := Option.bind_eq_some_iff.mp h
  exact voxelRow_lt hy

/-- The cells of `data'` are those of `data`, with the voxels of the columns `cs`. -/
structure Planted (bboxoct : AABox F) (tpts : List F) (cs : List (Nat × Nat))
    (data data' : List UInt8) : Prop where
  length : data'.length = cellCt
  cells : ∀ y z x, y < squarePtsCt → z < squarePtsCt → x < squarePtsCt →
    data'[cell y z x]? = if (z, x) ∈ cs ∧ rowOf bboxoct tpts z x = some y then some 1
      else data[cell y z x]?

variable (bboxoct)

theorem voxelColumn_planted (hlen : tpts.length = totalPtsCt * totalPtsCt) {data : List UInt8}
    (hdata : data.length = cellCt) {c : Nat × Nat} (hc : c ∈ columns) :
    ∃ data', voxelColumn bboxoct tpts data c = .ok data' ∧
      Planted bboxoct tpts [c] data data' := by
  obtain ⟨z₀, x₀⟩ := c
  obtain ⟨hz₀, hx₀⟩ := mem_columns.mp hc
  obtain ⟨h, hh⟩ := exists_heightAt hlen hz₀ hx₀
  have hrow₀ : rowOf bboxoct tpts z₀ x₀ = voxelRow bboxoct h := by
    rw [rowOf, hh, Option.bind_some]
  unfold voxelColumn
  simp only
  rw [show tpts[(z₀ + overlapPtsCt) * totalPtsCt + (x₀ + overlapPtsCt)]? = some h from hh]
  unfold voxelRow at hrow₀
  simp only at hrow₀ ⊢
  split
  · rename_i hin
    rw [if_pos hin] at hrow₀
    refine ⟨_, rfl, by rw [List.length_set, hdata], fun y z x hy hz hx => ?_⟩
    generalize (max 0 (min ((squarePtsCt : Int) - 1) (FloatLike.toInt ((h - bboxoct.min.y) *
      (FloatLike.ofInt squarePtsCt / (bboxoct.max.y - bboxoct.min.y)))))).toNat = y₀ at hrow₀ ⊢
    rw [show y₀ * squarePtsCt * squarePtsCt + z₀ * squarePtsCt + x₀ = cell y₀ z₀ x₀ from rfl]
    -- the voxel that is set, and all others
    by_cases hsame : cell y₀ z₀ x₀ = cell y z x
    · obtain ⟨rfl, rfl, rfl⟩ := (cell_inj hz₀ hx₀ hz hx).mp hsame
      rw [List.getElem?_set_self (hdata ▸ cell_lt hy hz hx),
        if_pos ⟨List.mem_singleton_self _, hrow₀⟩]
    · rw [List.getElem?_set_ne hsame, if_neg]
      rintro ⟨hmem, hrow⟩
      cases List.mem_singleton.mp hmem
      rw [hrow₀] at hrow
      exact hsame (by rw [Option.some.inj hrow])
  -- the height is outside of the cell, or on a face of it
  · rename_i hout
    rw [if_neg hout] at hrow₀
    refine ⟨_, rfl, hdata, fun y z x _ _ _ => ?_⟩
    rw [if_neg]
    rintro ⟨hmem, hrow⟩
    cases List.mem_singleton.mp hmem
    exact absurd (hrow₀.symm.trans hrow) (by simp)

/-- The loop over some of the columns. What a column writes is not touched by the others. -/
theorem foldlM_planted (hlen : tpts.length = totalPtsCt * totalPtsCt) {cs : List (Nat × Nat)}
    (hcs : ∀ c ∈ cs, c ∈ columns) {data : List UInt8} (hdata : data.length = cellCt) :
    ∃ data', cs.foldlM (voxelColumn bboxoct tpts) data = .ok data' ∧
      Planted bboxoct tpts cs data data' := by
  induction cs generalizing data with
  | nil => exact ⟨data, rfl, hdata, by simp⟩
  | cons c cs ih =>
    obtain ⟨one, hone, hplanted⟩ :=
      voxelColumn_planted bboxoct hlen hdata (hcs c List.mem_cons_self)
    obtain ⟨data', hrest, hlen', hcells⟩ :=
      ih (fun c hc => hcs c (List.mem_cons_of_mem _ hc)) hplanted.length
    refine ⟨data', ?_, hlen', fun y z x hy hz hx => ?_⟩
    · rw [List.foldlM_cons, hone]
      exact hrest
    · rw [hcells y z x hy hz hx, hplanted.cells y z x hy hz hx]
      -- a column is visited in this turn, or in a later one, or not at all
      by_cases hrow : rowOf bboxoct tpts z x = some y
      · by_cases hmem : (z, x) ∈ cs <;> simp [hrow, hmem]
      · simp [hrow]

/-- A column holds the voxel of its height, and no other. -/
theorem voxelData_eq (hlen : tpts.length = totalPtsCt * totalPtsCt) :
    ∃ data, voxelData bboxoct tpts = .ok data ∧ data.length = cellCt ∧
      ∀ y z x, y < squarePtsCt → z < squarePtsCt → x < squarePtsCt →
        data[cell y z x]? = some (if rowOf bboxoct tpts z x = some y then 1 else 0) := by
  obtain ⟨data, hok, hplanted⟩ := foldlM_planted bboxoct hlen (fun _ hc => hc)
    (@List.length_replicate _ cellCt 0)
  refine ⟨data, hok, hplanted.length, fun y z x hy hz hx => ?_⟩
  rw [hplanted.cells y z x hy hz hx, List.getElem?_replicate, if_pos (cell_lt hy hz hx)]
  simp only [mem_columns.mpr ⟨hz, hx⟩, true_and]
  split <;> rfl

/-- The scan finds it. -/
theorem groundScan_eq {data : List UInt8} {z x : Nat} {row : Option Nat}
    (hdata : ∀ y < squarePtsCt, data[cell y z x]? = some (if row = some y then 1 else 0))
    {n : Nat} (hn : n ≤ squarePtsCt) : groundScan data z x n = .ok (row.filter (· < n)) := by
  -- the scan goes down from the top, and the column has one voxel at most
  induction n with
  | zero => cases row <;> rfl
  | succ y ih =>
    have hcell : data[y * squarePtsCt * squarePtsCt + z * squarePtsCt + x]? = _ := hdata y hn
    rw [groundScan, hcell]
    simp only
    by_cases hrow : row = some y
    · simp [hrow, Option.filter]
    · rw [if_neg (by simp [hrow]), ih (by omega)]
      cases row with
      | none => rfl
      | some r =>
        have hne : r ≠ y := fun h => hrow (congrArg some h)
        have hiff : r < y ↔ r < y + 1 := by omega
        simp [Option.filter, hiff]

/-! ### Voxels by their index

`LoadVB` goes through the cells in the order of their indices, x first, then z, then y. -/

/-- There is a voxel at this index. -/
def Filled (bboxoct : AABox F) (tpts : List F) (i : Nat) : Prop :=
  rowOf bboxoct tpts (i / squarePtsCt % squarePtsCt) (i % squarePtsCt)
    = some (i / (squarePtsCt * squarePtsCt))

instance decidableFilled (bboxoct : AABox F) (tpts : List F) (i : Nat) :
    Decidable (Filled bboxoct tpts i) :=
  inferInstanceAs (Decidable (_ = _))

theorem cell_of_index (i : Nat) : cell (i / (squarePtsCt * squarePtsCt))
    (i / squarePtsCt % squarePtsCt) (i % squarePtsCt) = i := by
  unfold cell squarePtsCt
  omega

theorem voxelData_filled (hlen : tpts.length = totalPtsCt * totalPtsCt) :
    ∃ data, voxelData bboxoct tpts = .ok data ∧ data.length = cellCt ∧
      ∀ i < cellCt, data[i]? = some (if Filled bboxoct tpts i then 1 else 0) := by
  obtain ⟨data, hdata, hcells, hvoxels⟩ := voxelData_eq bboxoct hlen
  refine ⟨data, hdata, hcells, fun i hi => ?_⟩
  have hy : i / (squarePtsCt * squarePtsCt) < squarePtsCt := by
    unfold cellCt squarePtsCt at *
    omega
  have hcell := hvoxels _ _ _ hy (Nat.mod_lt (i / squarePtsCt) (by decide))
    (Nat.mod_lt i (by decide))
  rw [cell_of_index] at hcell
  exact hcell

/-- 256 cells one after the other, in the order of their indices, are filled. A full row of level
ground is such a run, but a run may also go on from the end of one row to the start of the next, and
from the last row of a layer to the first of the layer above. -/
def Level (bboxoct : AABox F) (tpts : List F) : Prop :=
  ∃ v, 256 + v ≤ cellCt ∧ ∀ i < 256, Filled bboxoct tpts (i + v)

/-- Whether `LoadVB` returns is a question about runs of ones in the data; this makes it one about
the heights. -/
theorem long_run_iff_level {bboxoct : AABox F} {tpts : List F} {data : List UInt8}
    (hcells : data.length = cellCt)
    (hfilled : ∀ i < cellCt, data[i]? = some (if Filled bboxoct tpts i then 1 else 0)) :
    List.replicate 256 1 <:+: data ↔ Level bboxoct tpts := by
  rw [List.infix_iff_getElem?]
  simp only [List.length_replicate, List.getElem_replicate, hcells]
  refine exists_congr fun v => and_congr_right fun hv => forall₂_congr fun i hi => ?_
  rw [hfilled (i + v) (by omega)]
  by_cases h : Filled bboxoct tpts (i + v) <;> simp [h]

end Voxels

/-! ## What is read back -/

section ReadBack

variable [FloatLike F] {l : Loc} {t : TerrainTile F}

theorem terrainRle_of_apart {box : AABox F} {tpts : List F}
    (h : MapBg.intersect box l.getBBox = false) : terrainRle l box tpts = .ok none := by
  simp [terrainRle, h]

/-- The two ways through `LoadTerrainData` if there are enough heights; this is the one that makes
voxels. -/
theorem terrainRle_of_meet {box : AABox F} {tpts : List F}
    (h : MapBg.intersect box l.getBBox = true) {data rledata : List UInt8}
    (hdata : voxelData l.getBBox tpts = .ok data) (hrle : rleEncode data = .ok rledata) :
    terrainRle l box tpts = .ok (some rledata) := by
  simp only [terrainRle, h, hdata]
  show (rleEncode data >>= _) = _
  rw [hrle]
  rfl

theorem groundColumn_lt (lo extent v : F) : groundColumn lo extent v < squarePtsCt := by
  unfold groundColumn squarePtsCt
  omega

/-- The column of a point in a cell. -/
def columnOf (l : Loc) (pt : F × F) : Nat × Nat :=
  let bboxoct : AABox F := l.getBBox
  let extent := FloatLike.ofInt squarePtsCt / (bboxoct.max.x - bboxoct.min.x)
  (groundColumn bboxoct.min.z extent pt.2, groundColumn bboxoct.min.x extent pt.1)

/-- **Voxels put in are read back**, in any arithmetic: a query gives the row of its column, or
nothing if the boxes are apart. -/
theorem getGroundPos_eq (hlen : t.heightData.length = totalPtsCt * totalPtsCt) (pt : F × F) :
    ∃ o, loadTerrainData t (create l) = (o, none) ∧
      o.getGroundPos pt = .ok (if MapBg.intersect t.heightBbox l.getBBox then
        (rowOf l.getBBox t.heightData (columnOf l pt).1 (columnOf l pt).2).map fun y : Nat =>
          FloatLike.ofInt y * (((l.getBBox : AABox F).max.x - (l.getBBox : AABox F).min.x)
            / FloatLike.ofInt squarePtsCt) + (l.getBBox : AABox F).min.y
        else none) := by
  cases hbox : MapBg.intersect t.heightBbox l.getBBox with
  -- nothing to encode, and nothing to find
  | false => exact ⟨_, loadTerrainData_ok (o := create l) (terrainRle_of_apart hbox), rfl⟩
  | true =>
    obtain ⟨data, hdata, hcells, hvoxels⟩ := voxelData_eq l.getBBox hlen
    have hrle := rleEncode_eq (ne_nil_of_length_cellCt hcells)
    -- the bytes are decoded again, into the voxels that were made
    have hdecode := rleDecode_of_rleEncode hrle
    rw [hcells] at hdecode
    refine ⟨_, loadTerrainData_ok (o := create l) (terrainRle_of_meet hbox hdata hrle), ?_⟩
    have hscan := groundScan_eq (fun y hy => hvoxels y (columnOf l pt).1 (columnOf l pt).2 hy
      (groundColumn_lt ..) (groundColumn_lt ..)) (Nat.le_refl squarePtsCt)
    have hall : (rowOf l.getBBox t.heightData (columnOf l pt).1 (columnOf l pt).2).filter
        (· < squarePtsCt) = rowOf l.getBBox t.heightData (columnOf l pt).1 (columnOf l pt).2 := by
      cases hrow : rowOf l.getBBox t.heightData (columnOf l pt).1 (columnOf l pt).2 with
      | none => rfl
      | some y => simp [Option.filter, rowOf_lt hrow]
    rw [hall] at hscan
    unfold getGroundPos
    rw [if_neg]
    · simp only [Option.getD_some, hdecode]
      show (groundScan data (columnOf l pt).1 (columnOf l pt).2 squarePtsCt >>= _) = _
      rw [hscan]
      rfl
    · rw [List.length_eq_zero_iff]
      exact rleEncode_ne_nil hrle

end ReadBack

/-! ## In exact arithmetic -/

section Exact

variable {K : Type} [Field K] [LinearOrder K] [FloorRing K]

/-- The box of the terrain tile is as high as its heights. -/
structure Spans (t : TerrainTile K) (lo hi : K) : Prop where
  box : t.heightBbox = ⟨{ (t.l.getBBox : AABox K).min with y := lo },
    { (t.l.getBBox : AABox K).max with y := hi }⟩
  least : IsLeast {h | h ∈ t.heightData} lo
  greatest : IsGreatest {h | h ∈ t.heightData} hi

/-! ### The box of the terrain tile

The box that `Build` and the constructor from a chunk give a tile is as high as its heights, if they
are numbers a `float` can hold. -/

/-- The pair that the source keeps is two separate folds. -/
theorem heightRange_exact (heightData : List K) : heightRange heightData
    = (heightData.foldl min FloatLike.maxVal, heightData.foldl max (-FloatLike.maxVal)) := by
  have hpair : ∀ (l : List K) (r : K × K),
      l.foldl (fun r val => (stdMin r.1 val, stdMax r.2 val)) r
        = (l.foldl min r.1, l.foldl max r.2) := by
    intro l
    induction l with
    | nil => exact fun _ => rfl
    | cons a l ih =>
      intro r
      rw [List.foldl_cons, ih, stdMin_exact, stdMax_exact]
      rfl
  exact hpair heightData _

/-- The start values of the two folds are the greatest and the least `float`, so they are not in the
way of any height that is one. -/
theorem spans_heightBox {t : TerrainTile K} (hne : t.heightData ≠ [])
    (hfloat : ∀ h ∈ t.heightData, -FloatLike.maxVal ≤ h ∧ h ≤ FloatLike.maxVal)
    (hbox : t.heightBbox = heightBox t.l t.heightData) :
    Spans t (heightRange t.heightData).1 (heightRange t.heightData).2 := by
  obtain ⟨a, ha⟩ := List.exists_mem_of_ne_nil _ hne
  obtain ⟨-, hle, hmem⟩ := Extreme.foldl_min t.heightData FloatLike.maxVal
  obtain ⟨-, hge, hmem'⟩ := Extreme.foldl_max t.heightData (-FloatLike.maxVal)
  rw [heightRange_exact]
  refine ⟨?_, ⟨?_, hle⟩, ?_, hge⟩
  · rw [hbox, heightBox, heightRange_exact]
  -- the bound itself is only the result if it is one of the heights
  · rcases hmem with heq | hmem
    · have hmax : a = FloatLike.maxVal := le_antisymm (hfloat a ha).2 (heq ▸ hle a ha)
      show t.heightData.foldl min FloatLike.maxVal ∈ t.heightData
      rw [heq, ← hmax]
      exact ha
    · exact hmem
  · rcases hmem' with heq | hmem
    · have hmin : a = -FloatLike.maxVal := le_antisymm (heq ▸ hge a ha) (hfloat a ha).1
      show t.heightData.foldl max (-FloatLike.maxVal) ∈ t.heightData
      rw [heq, ← hmin]
      exact ha
    · exact hmem

/-! ### Rows and columns -/

theorem voxelRow_eq_none {l : Loc} {h : K} :
    voxelRow l.getBBox h = none ↔ ¬ (l.edge l.y < h ∧ h < l.edge (l.y + 1)) := by
  unfold voxelRow
  rw [Loc.getBBox_exact]
  simp [lt_exact]

/-- A height that has a voxel is strictly inside the cell. -/
theorem voxelRow_inside {l : Loc} {h : K} {y : Nat} (hy : voxelRow l.getBBox h = some y) :
    l.edge l.y < h ∧ h < l.edge (l.y + 1) := by
  by_contra hout
  rw [voxelRow_eq_none.mpr hout] at hy
  exact absurd hy (by simp)

/-- The column as one writes it down. -/
def clampTrunc (q : K) : Nat := (max 0 (min 255 (FloatLike.toInt q))).toNat

/-- The column of a point: so many 256ths of the cell from its edge, rounded towards zero and
clamped to the cell. -/
theorem columnOf_exact (l : Loc) (pt : K × K) : columnOf l pt =
    (clampTrunc ((pt.2 - l.edge l.z) * 256 / l.extent),
      clampTrunc ((pt.1 - l.edge l.x) * 256 / l.extent)) := by
  have hcol : ∀ lo v : K, groundColumn lo (FloatLike.ofInt squarePtsCt / l.extent) v
      = clampTrunc ((v - lo) * 256 / l.extent) := by
    intro lo v
    have harg : (v - lo) * (FloatLike.ofInt squarePtsCt / l.extent)
        = (v - lo) * 256 / l.extent := by
      rw [ofInt_exact, Int.cast_natCast, squarePtsCt, mul_div_assoc]
      norm_num
    unfold groundColumn clampTrunc
    rw [harg]
    unfold squarePtsCt
    omega
  unfold columnOf
  rw [Loc.getBBox_exact]
  simp only [Loc.edge_sub, hcol]

theorem groundValue_exact (l : Loc) (y : Nat) :
    FloatLike.ofInt y * (((l.getBBox : AABox K).max.x - (l.getBBox : AABox K).min.x)
      / FloatLike.ofInt squarePtsCt) + (l.getBBox : AABox K).min.y
      = y * (l.extent / 256) + l.edge l.y := by
  rw [Loc.getBBox_exact]
  simp only [Loc.edge_sub, ofInt_exact, Int.cast_natCast, squarePtsCt]
  norm_num

variable [IsStrictOrderedRing K]

/-- The row is the height, rounded down. -/
theorem voxelRow_bounds {l : Loc} {h : K} {y : Nat} (hy : voxelRow l.getBBox h = some y) :
    y * (l.extent / 256) + l.edge l.y ≤ h ∧
      h < y * (l.extent / 256) + l.edge l.y + l.extent / 256 := by
  have hin := voxelRow_inside hy
  have hside : (l.edge (l.y + 1) - l.edge l.y : K) = l.extent := Loc.edge_sub l l.y
  have hscale : FloatLike.ofInt squarePtsCt / (l.edge (l.y + 1) - l.edge l.y : K)
      = (256 : Nat) / l.extent := by
    rw [hside, ofInt_exact, Int.cast_natCast, squarePtsCt]
  have hpos : 0 ≤ h - l.edge l.y := by linarith [hin.1]
  obtain ⟨hlo, hhi, hle, hlt⟩ := floor_mul_div (n := 256) (by decide) hpos
    (show h - l.edge l.y < l.extent by linarith [hin.2])
  -- the quotient lies in the cell, so the clamp does nothing
  have hrow : (y : Int) = ⌊(h - l.edge l.y) * ((256 : Nat) / l.extent)⌋ := by
    unfold voxelRow at hy
    rw [Loc.getBBox_exact] at hy
    simp only [lt_exact.mpr hin.1, lt_exact.mpr hin.2, Bool.and_self, if_true, hscale,
      Option.some.injEq] at hy
    rw [toInt_of_nonneg (mul_nonneg hpos (div_nonneg (Nat.cast_nonneg _) l.extent_pos.le))] at hy
    rw [← hy]
    unfold squarePtsCt
    omega
  have hcast : (y : K) = ⌊(h - l.edge l.y) * ((256 : Nat) / l.extent)⌋ := by
    rw [← hrow, Int.cast_natCast]
  rw [← hcast] at hle hlt
  push_cast at hle hlt
  constructor <;> linarith

/-- The boxes meet if a height is in the cell. -/
theorem Spans.meet {l : Loc} {t : TerrainTile K} {lo hi : K} (hspan : Spans t lo hi)
    (hl : t.l = { l with y := 0 }) {h : K} (hh : h ∈ t.heightData)
    (hin : l.edge l.y < h ∧ h < l.edge (l.y + 1)) :
    MapBg.intersect t.heightBbox l.getBBox = true := by
  have hmin : lo ≤ h := hspan.least.2 hh
  have hmax : h ≤ hi := hspan.greatest.2 hh
  have hedge : ∀ i : Int, (l.edge i : K) ≤ l.edge (i + 1) := fun i => by
    rw [Loc.edge_succ]
    linarith [l.extent_pos (K := K)]
  have hcol : (t.l.getBBox : AABox K)
      = ⟨⟨l.edge l.x, l.edge 0, l.edge l.z⟩, ⟨l.edge (l.x + 1), l.edge 1, l.edge (l.z + 1)⟩⟩ := by
    rw [hl, Loc.getBBox_exact]
    rfl
  rw [intersect_exact, hspan.box, hcol, Loc.getBBox_exact]
  exact ⟨⟨hedge _, hedge _⟩, ⟨by linarith [hin.2], by linarith [hin.1]⟩, hedge _, hedge _⟩

/-- **The voxelised ground matches the terrain**: below a point there is ground in the cell exactly
if the height of its column is in the cell, and then the ground is that height, but for less than a
voxel. -/
theorem ground_matches_terrain (l : Loc) {t : TerrainTile K} (hl : t.l = { l with y := 0 })
    (hlen : t.heightData.length = 384 * 384) {lo hi : K} (hspan : Spans t lo hi) (pt : K × K) :
    ∃ o h g, loadTerrainData t (create l) = (o, none) ∧
      t.heightData[(clampTrunc ((pt.2 - (l.getBBox : AABox K).min.z) * 256 / l.extent) + 64) * 384
        + (clampTrunc ((pt.1 - (l.getBBox : AABox K).min.x) * 256 / l.extent) + 64)]? = some h ∧
      o.getGroundPos pt = .ok g ∧
      (g = none ↔ ¬ ((l.getBBox : AABox K).min.y < h ∧ h < (l.getBBox : AABox K).max.y)) ∧
      ∀ v, g = some v → v ≤ h ∧ h < v + l.extent / 256 := by
  obtain ⟨o, hload, hground⟩ := getGroundPos_eq (l := l) hlen pt
  obtain ⟨h, hh⟩ := exists_heightAt hlen (z := (columnOf l pt).1) (x := (columnOf l pt).2)
    (groundColumn_lt ..) (groundColumn_lt ..)
  have hmem : h ∈ t.heightData := List.mem_of_getElem? hh
  have hrow : rowOf l.getBBox t.heightData (columnOf l pt).1 (columnOf l pt).2
      = voxelRow l.getBBox h := by rw [rowOf, hh, Option.bind_some]
  rw [hrow] at hground
  rw [columnOf_exact] at hh
  simp only [Loc.getBBox_exact]
  refine ⟨o, h, _, hload, hh, hground, ?_, ?_⟩
  -- a height with a voxel is inside the cell, so the boxes meet and the voxel was made
  · cases hy : voxelRow l.getBBox h with
    | none => simpa using voxelRow_eq_none.mp hy
    | some y =>
      have hin := voxelRow_inside hy
      rw [hspan.meet hl hmem hin]
      simpa using hin
  · intro v hv
    split at hv
    · obtain ⟨y, hy, rfl⟩ := Option.map_eq_some_iff.mp hv
      rw [groundValue_exact]
      exact voxelRow_bounds hy
    · exact absurd hv (by simp)

end Exact

/-- Flat ground at height 0, in the root cell. -/
def flatGround : TerrainTile ℚ where
  l := Loc.root
  heightData := List.replicate (384 * 384) 0
  buildFrame := 0
  buildStep := -1
  dataready := true
  heightBbox := heightBox Loc.root (List.replicate (384 * 384) 0)
  parent := none
  lastUsedframeIdx := 0

theorem length_flatGround : flatGround.heightData.length = 384 * 384 := List.length_replicate

theorem spans_flatGround : Spans flatGround (heightRange flatGround.heightData).1
    (heightRange flatGround.heightData).2 := by
  refine spans_heightBox (List.ne_nil_of_length_pos (by rw [length_flatGround]; decide))
    (fun h hh => ?_) rfl
  rw [(List.mem_replicate.mp hh).2]
  norm_num [FloatLike.maxVal]

theorem ground_matches_terrain_flat : ∃ o g,
    loadTerrainData flatGround (create Loc.root) = (o, none) ∧
      o.getGroundPos (0, 0) = .ok (some g) ∧ g ≤ 0 ∧ 0 < g + 1 := by
  obtain ⟨o, h, g, hload, hh, hground, hnone, hsome⟩ := ground_matches_terrain Loc.root rfl
    length_flatGround spans_flatGround (0, 0)
  have hzero : h = 0 := (List.mem_replicate.mp (List.mem_of_getElem? hh)).2
  have hext : (Loc.root.extent : ℚ) = 256 := by norm_num [Loc.extent, Loc.root]
  have hin : (Loc.root.getBBox : AABox ℚ).min.y < h ∧ h < (Loc.root.getBBox : AABox ℚ).max.y := by
    rw [Loc.getBBox_exact, hzero]
    norm_num [Loc.edge, Loc.extent, Loc.root]
  cases g with
  | none => exact absurd hin (hnone.mp rfl)
  | some g =>
    obtain ⟨hle, hlt⟩ := hsome g rfl
    rw [hzero] at hle
    rw [hzero, hext, div_self (by norm_num)] at hlt
    exact ⟨o, g, hload, hground, hle, hlt⟩

end OctTile

end MapBg
