import Mathlib.Logic.Relation
import MapBg.Loc.Box
import MapBg.Oct.FindHit

/-!
# `OctTile::Intersect`: a segment through the voxels of a tile

A tile keeps its voxels run-length encoded. `Intersect` decodes them into `m_rawdata` when it needs
them and leaves them there; `Draw` counts the times it draws the tile and drops them again after
sixty without an `Intersect`. Whatever the two have done before, `m_rawdata` is empty or it is what
`RleDecode` gives (`Cached`), so that history does not matter.

What matters is the last line. `FindHit` returns the first solid cell of the segment, or
(-1, -1, -1) if there is none, and `Intersect` tells the two apart by

    if (hitpt[0] > 0)

which takes a cell with x = 0 for a miss. `intersect_iff` is the line between the two: the answer is
right exactly if the first solid cell, if there is one, is not in the first slice of the tile. A
tile whose first slice is solid cannot be hit from its left side.
-/

set_option autoImplicit false

namespace MapBg

/-- The part of an `OctTile` that `Intersect` and the cache of `Draw` use. -/
structure VoxTile where
  l : Loc
  rledata : List UInt8
  rawdata : List UInt8
  lastUsedRawData : Int
  deriving DecidableEq

namespace VoxTile

/-- A tile that nothing has been asked of yet. -/
def create (l : Loc) (rledata : List UInt8) : VoxTile := ⟨l, rledata, [], 0⟩

/-- What `Draw` does to the cache. It comes to that only where it draws voxels, which depends on
the pass, on `g_showOctBoxes` and on the state of the tile. -/
def draw (drawsVoxels : Bool) (o : VoxTile) : VoxTile :=
  if drawsVoxels ∧ o.rawdata.length > 0 then
    { o with
      lastUsedRawData := o.lastUsedRawData + 1
      rawdata := if o.lastUsedRawData > 60 then [] else o.rawdata }
  else o

/-- `m_rawdata`, filled if it is empty. -/
def filled (o : VoxTile) : Except Stop (List UInt8) :=
  if o.rawdata.length = 0 then rleDecode cellCt o.rledata else .ok o.rawdata

/-- `Intersect` from where the end points are cells. `FindHit` makes less than 256 steps. -/
def intersectCells (c0 c1 hitpt : Vec3i) (o : VoxTile) : Except Stop (Bool × Vec3i × VoxTile) :=
  if o.rledata.length = 0 then .ok (false, hitpt, o)
  else do
    let rawdata ← o.filled
    let w ← findHit squarePtsCt rawdata c0 c1
    .ok (decide (w.hit.x > 0), w.hit, { o with rawdata, lastUsedRawData := 0 })

section

variable {F : Type} [FloatLike F]

/-- The cell that a point is in, by the extent of the x axis for all three. -/
def toCell (aabb : AABox F) (pt : Point3 F) : Vec3i :=
  let mul := FloatLike.ofInt squarePtsCt / (aabb.max.x - aabb.min.x)
  ⟨FloatLike.toInt ((pt.x - aabb.min.x) * mul), FloatLike.toInt ((pt.y - aabb.min.y) * mul),
    FloatLike.toInt ((pt.z - aabb.min.z) * mul)⟩

/-- `OctTile::Intersect`: from the two points to the cells that the walk goes between. -/
def intersect (pt0 pt1 : Point3 F) (hitpt : Vec3i) (o : VoxTile) :
    Except Stop (Bool × Vec3i × VoxTile) :=
  o.intersectCells (toCell o.l.getBBox pt0) (toCell o.l.getBBox pt1) hitpt

end

/-! ## The cache -/

/-- What can happen to a tile: it is asked, or it is drawn. -/
inductive Step : VoxTile → VoxTile → Prop
  | intersect {o o' : VoxTile} {c0 c1 hitpt hitpt' : Vec3i} {found : Bool} :
      o.intersectCells c0 c1 hitpt = .ok (found, hitpt', o') → Step o o'
  | draw (o : VoxTile) (drawsVoxels : Bool) : Step o (o.draw drawsVoxels)

/-- What the tile holds is the data, encoded; and what it has decoded, if it has, is the data. -/
structure Cached (data : List UInt8) (o : VoxTile) : Prop where
  length : data.length = cellCt
  encoded : rleEncode data = .ok o.rledata
  raw : o.rawdata = [] ∨ o.rawdata = data

theorem cached_create {data rledata : List UInt8} (hlen : data.length = cellCt)
    (h : rleEncode data = .ok rledata) (l : Loc) : Cached data (create l rledata) :=
  ⟨hlen, h, .inl rfl⟩

/-- The first solid cell of the segment, as `FindHit` reports it. -/
def firstCell (data : List UInt8) (c0 c1 : Vec3i) : Vec3i :=
  (search data [] (line c0.clamp c1.clamp)).hit

/-- Whether the data is decoded already or has to be, the answer is the same. -/
theorem Cached.intersectCells_eq {data : List UInt8} {o : VoxTile} (h : Cached data o)
    (c0 c1 hitpt : Vec3i) : o.intersectCells c0 c1 hitpt
      = .ok (decide ((firstCell data c0 c1).x > 0), firstCell data c0 c1,
          { o with rawdata := data, lastUsedRawData := 0 }) := by
  have hdata : data ≠ [] := ne_nil_of_length_cellCt h.length
  have hrle : o.rledata.length ≠ 0 := by
    rw [Ne, List.length_eq_zero_iff]
    exact rleEncode_ne_nil h.encoded
  have hdecode : rleDecode cellCt o.rledata = .ok data := by
    rw [← h.length]
    exact rleDecode_of_rleEncode h.encoded
  have hraw : o.filled = .ok data := by
    unfold filled
    -- decoded now, or at an earlier question
    rcases h.raw with hraw | hraw
    · rw [hraw, if_pos List.length_nil, hdecode]
    · rw [hraw, if_neg (by rw [List.length_eq_zero_iff]; exact hdata)]
  have hspan : span c0.clamp c1.clamp < squarePtsCt :=
    Nat.lt_succ_of_le (span_le (inCube_clamp c0) (inCube_clamp c1))
  rw [intersectCells, if_neg hrle, hraw]
  show (findHit squarePtsCt data c0 c1 >>= _) = _
  rw [findHit_eq_search h.length c0 c1 hspan]
  rfl

/-- A tile that has not been asked for a while lets go of the decoded data; it can be had again. -/
theorem Cached.draw {data : List UInt8} {o : VoxTile} (h : Cached data o) (drawsVoxels : Bool) :
    Cached data (o.draw drawsVoxels) := by
  unfold VoxTile.draw
  split
  · refine ⟨h.length, h.encoded, ?_⟩
    simp only
    split
    · exact .inl rfl
    · exact h.raw
  · exact h

theorem Cached.step {data : List UInt8} {o o' : VoxTile} (h : Cached data o) (hstep : Step o o') :
    Cached data o' := by
  cases hstep with
  | intersect heq =>
    rw [h.intersectCells_eq] at heq
    cases heq
    exact ⟨h.length, h.encoded, .inr rfl⟩
  | draw drawsVoxels => exact h.draw drawsVoxels

theorem Cached.run {data : List UInt8} {o o' : VoxTile} (h : Cached data o)
    (hrun : Relation.ReflTransGen Step o o') : Cached data o' := by
  induction hrun with
  | refl => exact h
  | tail _ hstep ih => exact ih.step hstep

/-- The voxels of the tile are those of an encoded cube, or it has none. -/
def Ok (o : VoxTile) : Prop := o.rledata = [] ∨ ∃ data, Cached data o

/-- Such a tile always answers, and is one afterwards. -/
theorem Ok.intersectCells {o : VoxTile} (h : o.Ok) (c0 c1 hitpt : Vec3i) :
    ∃ found hitpt' o', o.intersectCells c0 c1 hitpt = .ok (found, hitpt', o') ∧ o'.Ok := by
  rcases h with hempty | ⟨data, hcached⟩
  · exact ⟨_, _, _, if_pos (List.length_eq_zero_iff.mpr hempty), .inl hempty⟩
  · have heq := hcached.intersectCells_eq c0 c1 hitpt
    exact ⟨_, _, _, heq, .inr ⟨data, hcached.step (.intersect heq)⟩⟩

/-! ## The answer -/

section Answer

variable {data : List UInt8} {c0 c1 : Vec3i}

theorem firstCell_of_firstHit {k : Nat} (h : FirstHit data c0.clamp c1.clamp k) :
    firstCell data c0 c1 = linePoint c0.clamp c1.clamp k := by
  rw [firstCell, h.search_line]

theorem firstCell_of_none
    (h : ∀ k ≤ span c0.clamp c1.clamp, solid data (linePoint c0.clamp c1.clamp k) = false) :
    firstCell data c0 c1 = noHit := by
  rw [firstCell, search_line_none h]

/-- **What `Intersect` answers is right, whatever is in the cache, exactly if the first solid cell
is not in the slice x = 0.** -/
theorem intersect_iff {l : Loc} {rledata : List UInt8} (hlen : data.length = cellCt)
    (hrle : rleEncode data = .ok rledata) {o : VoxTile}
    (hrun : Relation.ReflTransGen Step (create l rledata) o) (c0 c1 hitpt : Vec3i) :
    ∃ found hitpt' o', o.intersectCells c0 c1 hitpt = .ok (found, hitpt', o') ∧
      (((found = true ↔ ∃ k ≤ span c0.clamp c1.clamp,
            solid data (linePoint c0.clamp c1.clamp k) = true) ∧
          ∀ k, FirstHit data c0.clamp c1.clamp k → hitpt' = linePoint c0.clamp c1.clamp k) ↔
        ∀ k, FirstHit data c0.clamp c1.clamp k → (linePoint c0.clamp c1.clamp k).x ≠ 0) := by
  refine ⟨_, _, _, ((cached_create hlen hrle l).run hrun).intersectCells_eq c0 c1 hitpt, ?_⟩
  constructor
  -- `hitpt[0] > 0` is taken for a hit, which the cells with x = 0 fail
  · rintro ⟨hfound, -⟩ k hk hzero
    have hpos := hfound.mpr ⟨k, hk.on_line, hk.hit⟩
    rw [firstCell_of_firstHit hk, hzero] at hpos
    exact absurd hpos (by decide)
  · intro hslice
    refine ⟨?_, fun k hk => firstCell_of_firstHit hk⟩
    -- no hit is (-1, -1, -1), and fails the test as it should
    rcases firstHit_or_none data c0.clamp c1.clamp with ⟨k, hk⟩ | hnone
    · have hcube := (inCube_linePoint (inCube_clamp c0) (inCube_clamp c1) hk.on_line).x.1
      have hne := hslice k hk
      rw [firstCell_of_firstHit hk]
      refine iff_of_true ?_ ⟨k, hk.on_line, hk.hit⟩
      exact decide_eq_true (by omega)
    · rw [firstCell_of_none hnone]
      refine iff_of_false (by decide) ?_
      rintro ⟨k, hk, hsolid⟩
      rw [hnone k hk] at hsolid
      exact absurd hsolid (by simp)

end Answer

/-! An `Intersect` fills the cache, and the sixty-second `Draw` after it drops it again. -/

/-- While it is drawn and not asked, the tile counts the frames. -/
theorem draw_iterate {o : VoxTile} (hraw : o.rawdata ≠ []) (hused : o.lastUsedRawData = 0) (n : Nat)
    (hn : n ≤ 61) : (draw true)^[n] o = { o with lastUsedRawData := n } := by
  have hpos : o.rawdata.length > 0 := List.length_pos_iff.mpr hraw
  induction n with
  | zero =>
    obtain ⟨l, rledata, rawdata, lastUsedRawData⟩ := o
    rw [Function.iterate_zero_apply, VoxTile.mk.injEq]
    exact ⟨rfl, rfl, rfl, hused⟩
  | succ n ih =>
    have hkept : ¬ ((n : Int) > 60) := by omega
    rw [Function.iterate_succ_apply', ih (by omega), draw, if_pos ⟨rfl, hpos⟩]
    simp only [if_neg hkept]
    rfl

/-- In the sixty-second of them it lets go of the data. -/
theorem draw_drops {o : VoxTile} (hraw : o.rawdata ≠ []) (hused : o.lastUsedRawData = 0) :
    (draw true)^[62] o = { o with rawdata := [], lastUsedRawData := 62 } := by
  have hpos : o.rawdata.length > 0 := List.length_pos_iff.mpr hraw
  rw [Function.iterate_succ_apply', draw_iterate hraw hused 61 (Nat.le_refl 61), draw,
    if_pos ⟨rfl, hpos⟩]
  rfl

theorem run_draws (o : VoxTile) (n : Nat) : Relation.ReflTransGen Step o ((draw true)^[n] o) := by
  induction n with
  | zero => exact .refl
  | succ n ih =>
    rw [Function.iterate_succ_apply']
    exact ih.tail (.draw _ true)

/-- After the cache was filled and dropped, along a line of 256 cells. -/
theorem intersect_iff_obstacle : ∃ rledata o, rleEncode obstacle = .ok rledata ∧
    Relation.ReflTransGen Step (create Loc.root rledata) o ∧
    o.rawdata = [] ∧ o.lastUsedRawData = 62 ∧
    ∃ found hitpt o', o.intersectCells ⟨-5, 0, 0⟩ ⟨300, 7, 2⟩ noHit = .ok (found, hitpt, o') ∧
      found = true ∧ hitpt = ⟨100, 3, 1⟩ := by
  have hrle := rleEncode_eq (ne_nil_of_length_cellCt length_obstacle)
  have hfilled := (cached_create length_obstacle hrle Loc.root).intersectCells_eq ⟨0, 0, 0⟩
    ⟨0, 0, 0⟩ noHit
  have hrun := (Relation.ReflTransGen.single (Step.intersect hfilled)).trans (run_draws _ 62)
  rw [draw_drops (ne_nil_of_length_cellCt length_obstacle) rfl] at hrun
  obtain ⟨found, hitpt, o', heq, hiff⟩ :=
    intersect_iff length_obstacle hrle hrun ⟨-5, 0, 0⟩ ⟨300, 7, 2⟩ noHit
  obtain ⟨hfound, hhit⟩ := hiff.mpr fun k hk => by
    rw [hk.unique firstHit_obstacle]
    decide
  exact ⟨_, _, hrle, hrun, rfl, rfl, found, hitpt, o', heq,
    hfound.mpr ⟨100, by decide, firstHit_obstacle.hit⟩, hhit 100 firstHit_obstacle⟩

/-! A tile with one solid cell, the first. -/

/-- Only the first cell is solid. -/
def oneCell : List UInt8 := 1 :: List.replicate (cellCt - 1) 0

theorem length_oneCell : oneCell.length = cellCt := by
  rw [oneCell, List.length_cons, List.length_replicate]
  rfl

theorem firstHit_oneCell : FirstHit oneCell ⟨0, 0, 0⟩ ⟨0, 0, 0⟩ 0 :=
  ⟨Nat.zero_le _, by decide, fun j hj => absurd hj (Nat.not_lt_zero j)⟩

/-- The segment is the cell itself, the cell is solid, and `Intersect` says no. -/
theorem oneCell_missed : ∃ rledata, rleEncode oneCell = .ok rledata ∧
    solid oneCell ⟨0, 0, 0⟩ = true ∧
    ∃ o', (create Loc.root rledata).intersectCells ⟨0, 0, 0⟩ ⟨0, 0, 0⟩ noHit
      = .ok (false, ⟨0, 0, 0⟩, o') := by
  have hrle := rleEncode_eq (ne_nil_of_length_cellCt length_oneCell)
  have hcached := cached_create length_oneCell hrle Loc.root
  have hfirst : firstCell oneCell ⟨0, 0, 0⟩ ⟨0, 0, 0⟩ = linePoint ⟨0, 0, 0⟩ ⟨0, 0, 0⟩ 0 :=
    @firstCell_of_firstHit _ ⟨0, 0, 0⟩ ⟨0, 0, 0⟩ _ firstHit_oneCell
  have heq := hcached.intersectCells_eq ⟨0, 0, 0⟩ ⟨0, 0, 0⟩ noHit
  rw [hfirst, linePoint_zero] at heq
  exact ⟨_, hrle, by decide, _, heq⟩

end VoxTile

end MapBg
