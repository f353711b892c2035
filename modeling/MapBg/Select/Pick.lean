import Mathlib.Data.Rat.Floor
import Mathlib.Order.Bounds.Basic
import MapBg.Lib.Map
import MapBg.Lib.Sorted
import MapBg.Loc.Exact
import MapBg.Oct.Intersect

/-!
# `OctTileSelection::Intersects`: what the cursor points at

To find the voxel under the cursor, `Intersects` collects the tiles whose box the ray meets, sorts
them, and asks one after the other whether the ray hits one of its voxels between where it enters
the box and where it leaves it. The first that says yes is the answer.

That it says yes if any tile does is clear. That the answer is the nearest depends on the order,
and the order is by

    lengthSquared(midpt)

which is how far the middle of the tile is from the origin of the world. The camera does not occur
in it. `nearest_iff` says what it takes: among the tiles that are hit, those closest to the origin
of the world have to be those the ray enters first.

Where the ray meets a box is computed by gmtl. Nothing depends on how, and it is a parameter here;
`RayBoxCorrect` says what is expected of it.
-/

set_option autoImplicit false

namespace MapBg

open Sorted

structure Ray (F : Type) where
  origin : Point3 F
  dir : Point3 F

/-- `num_hits`, `h1` and `h2`. A ray that starts in the box hits it once, where it leaves. -/
structure RayHit (F : Type) where
  numHits : Nat
  h1 : F
  h2 : F
  deriving DecidableEq

/-- What `Intersects` notes of a tile on the ray: what it is sorted by, and where the ray enters and
leaves its box. -/
structure IntersectTile (F : Type) where
  dist : F
  h1 : F
  h2 : F
  l : Loc
  tile : VoxTile

namespace OctTileSelection

/-! ## The code -/

section Code

variable {F : Type} [FloatLike F]

/-- `r.mOrigin + h * r.mDir`. -/
def pointAt (r : Ray F) (h : F) : Point3 F :=
  ⟨r.origin.x + h * r.dir.x, r.origin.y + h * r.dir.y, r.origin.z + h * r.dir.z⟩

/-- The middle of a box. -/
def midpoint (aabb : AABox F) : Point3 F :=
  let half : F := FloatLike.powf2 (-1)
  ⟨(aabb.min.x + aabb.max.x) * half, (aabb.min.y + aabb.max.y) * half,
    (aabb.min.z + aabb.max.z) * half⟩

/-- Where the ray enters. Inside the box `gmtl` reports one hit, which is where it leaves. -/
def entry (hit : RayHit F) : F := if hit.numHits > 1 then hit.h1 else FloatLike.ofInt 0

def exit (hit : RayHit F) : F := if hit.numHits > 1 then hit.h2 else hit.h1

/-- One turn of the first loop of `Intersects`. `dist` is the distance of the tile's middle from the
origin of the world, not from that of the ray. -/
def intersectTile (rayBox : AABox F → Ray F → Option (RayHit F)) (r : Ray F)
    (pair : Loc × VoxTile) : Option (IntersectTile F) :=
  let aabb : AABox F := pair.1.getBBox
  let midpt := midpoint aabb
  (rayBox aabb r).map fun hit => ⟨dot midpt midpt, entry hit, exit hit, pair.1, pair.2⟩

/-- `orderedTiles`, before it is sorted. -/
def tilesOnRay (rayBox : AABox F → Ray F → Option (RayHit F)) (r : Ray F)
    (tiles : Std.TreeMap Loc VoxTile Loc.cmp) : List (IntersectTile F) :=
  tiles.toList.filterMap (intersectTile rayBox r)

/-- The loop over the sorted tiles. A tile that is asked may fill its cache. -/
def firstHitLoop (r : Ray F) : List (IntersectTile F) → Std.TreeMap Loc VoxTile Loc.cmp →
    Except Stop (Option (Loc × Vec3i) × Std.TreeMap Loc VoxTile Loc.cmp)
  | [], tiles => .ok (none, tiles)
  | it :: orderedTiles, tiles => do
    let (found, outpt, tile) ← it.tile.intersect (pointAt r it.h1) (pointAt r it.h2) ⟨0, 0, 0⟩
    let tiles := tiles.insert it.l tile
    if found then .ok (some (it.l, outpt), tiles) else firstHitLoop r orderedTiles tiles

/-- The answer of `Intersect` on the tile's own part of the ray. -/
def isHit (r : Ray F) (it : IntersectTile F) : Bool :=
  match it.tile.intersect (pointAt r it.h1) (pointAt r it.h2) ⟨0, 0, 0⟩ with
  | .ok (found, _, _) => found
  | .error _ => false

end Code

/-! ## The loop -/

section Loop

variable {F : Type} [FloatLike F] {rayBox : AABox F → Ray F → Option (RayHit F)} {r : Ray F}

/-- Every tile of the selection has voxels it can decode. -/
def TilesOk (tiles : Std.TreeMap Loc VoxTile Loc.cmp) : Prop :=
  ∀ (loc : Loc) (tile : VoxTile), tiles[loc]? = some tile → tile.Ok

theorem TilesOk.insert {tiles : Std.TreeMap Loc VoxTile Loc.cmp} (h : TilesOk tiles) (l : Loc)
    {tile : VoxTile} (htile : tile.Ok) : TilesOk (tiles.insert l tile) := by
  intro loc tile' hentry
  rw [Std.TreeMap.getElem?_insert] at hentry
  split at hentry
  · cases hentry
    exact htile
  · exact h loc tile' hentry

/-- The loop answers with the first tile that is hit. -/
theorem firstHitLoop_eq {order : List (IntersectTile F)} (horder : ∀ it ∈ order, it.tile.Ok)
    {tiles : Std.TreeMap Loc VoxTile Loc.cmp} (htiles : TilesOk tiles) :
    ∃ out tiles', firstHitLoop r order tiles = .ok (out, tiles') ∧
      out.map Prod.fst = (order.find? (isHit r)).map IntersectTile.l ∧ TilesOk tiles' := by
  induction order generalizing tiles with
  | nil => exact ⟨none, tiles, rfl, rfl, htiles⟩
  | cons it order ih =>
    obtain ⟨found, outpt, tile, heq, hok⟩ := (horder it List.mem_cons_self).intersectCells
      (VoxTile.toCell it.tile.l.getBBox (pointAt r it.h1))
      (VoxTile.toCell it.tile.l.getBBox (pointAt r it.h2)) ⟨0, 0, 0⟩
    have hanswer : it.tile.intersect (pointAt r it.h1) (pointAt r it.h2) ⟨0, 0, 0⟩
        = .ok (found, outpt, tile) := heq
    have hhit : isHit r it = found := by rw [isHit, hanswer]
    rw [firstHitLoop, hanswer, List.find?_cons, hhit]
    -- the tile is put back with its decoded data, hit or not
    cases found with
    | true => exact ⟨_, _, rfl, rfl, htiles.insert it.l hok⟩
    | false =>
      exact ih (fun it' hit' => horder it' (List.mem_cons_of_mem _ hit')) (htiles.insert it.l hok)

theorem mem_tilesOnRay {tiles : Std.TreeMap Loc VoxTile Loc.cmp} {it : IntersectTile F} :
    it ∈ tilesOnRay rayBox r tiles ↔
      ∃ loc tile, tiles[loc]? = some tile ∧ intersectTile rayBox r (loc, tile) = some it := by
  simp only [tilesOnRay, List.mem_filterMap, Prod.exists,
    Std.TreeMap.mem_toList_iff_getElem?_eq_some]

theorem intersectTile_key {pair : Loc × VoxTile} {it : IntersectTile F}
    (h : intersectTile rayBox r pair = some it) : it.l = pair.1 ∧ it.tile = pair.2 := by
  obtain ⟨hit, -, rfl⟩ := Option.map_eq_some_iff.mp h
  exact ⟨rfl, rfl⟩

theorem TilesOk.onRay {tiles : Std.TreeMap Loc VoxTile Loc.cmp} (h : TilesOk tiles)
    {it : IntersectTile F} (hit : it ∈ tilesOnRay rayBox r tiles) : it.tile.Ok := by
  obtain ⟨loc, tile, hentry, heq⟩ := mem_tilesOnRay.mp hit
  rw [(intersectTile_key heq).2]
  exact h loc tile hentry

/-- There is one tile for an address. -/
theorem tilesOnRay_inj {tiles : Std.TreeMap Loc VoxTile Loc.cmp} {it it' : IntersectTile F}
    (h : it ∈ tilesOnRay rayBox r tiles) (h' : it' ∈ tilesOnRay rayBox r tiles)
    (hl : it.l = it'.l) : it = it' := by
  obtain ⟨loc, tile, hentry, heq⟩ := mem_tilesOnRay.mp h
  obtain ⟨loc', tile', hentry', heq'⟩ := mem_tilesOnRay.mp h'
  rw [(intersectTile_key heq).1, (intersectTile_key heq').1] at hl
  simp only at hl
  subst hl
  rw [hentry] at hentry'
  cases hentry'
  exact Option.some.inj (heq.symm.trans heq')

end Loop

/-! ## The nearest -/

section Exact

variable {K : Type} [Field K] [LinearOrder K] [FloorRing K]
  {rayBox : AABox K → Ray K → Option (RayHit K)} {r : Ray K}
  {tiles : Std.TreeMap Loc VoxTile Loc.cmp}

/-- What the loop answers on a sorted list: the tile it finds, if there is one. -/
theorem firstHitLoop_sorted (htiles : TilesOk tiles) {order : List (IntersectTile K)}
    (horder : IsSort IntersectTile.dist (tilesOnRay rayBox r tiles) order) :
    ∃ out tiles', firstHitLoop r order tiles = .ok (out, tiles') ∧ TilesOk tiles' ∧
      out.map Prod.fst = (order.find? (isHit r)).map IntersectTile.l := by
  obtain ⟨out, tiles', heq, hout, hok⟩ := firstHitLoop_eq (r := r)
    (fun it hit => htiles.onRay (horder.mem_iff.mp hit)) htiles
  exact ⟨out, tiles', heq, hok, hout⟩

/-- Some order finds it, so some run returns it. -/
theorem firstHitLoop_found (htiles : TilesOk tiles) {order : List (IntersectTile K)}
    (horder : IsSort IntersectTile.dist (tilesOnRay rayBox r tiles) order) {it : IntersectTile K}
    (hfind : order.find? (isHit r) = some it) :
    ∃ opt tiles', firstHitLoop r order tiles = .ok (some (it.l, opt), tiles') := by
  obtain ⟨out, tiles', heq, -, hout⟩ := firstHitLoop_sorted htiles horder
  rw [hfind] at hout
  obtain ⟨⟨outloc, opt⟩, rfl, rfl⟩ := Option.map_eq_some_iff.mp hout
  exact ⟨opt, tiles', heq⟩

/-- **Picking returns the nearest hit tile exactly if, of the tiles that are hit, those whose middle
is closest to the origin of the world are those the ray enters first.** It returns a tile exactly
if one is hit. -/
theorem nearest_iff (rayBox : AABox K → Ray K → Option (RayHit K)) (r : Ray K)
    (htiles : TilesOk tiles) :
    (∀ order, IsSort IntersectTile.dist (tilesOnRay rayBox r tiles) order →
      ∃ out tiles', firstHitLoop r order tiles = .ok (out, tiles') ∧ TilesOk tiles' ∧
        (out.isSome = true ↔ ∃ it ∈ tilesOnRay rayBox r tiles, isHit r it = true)) ∧
    ((∀ order, IsSort IntersectTile.dist (tilesOnRay rayBox r tiles) order →
        ∀ outloc opt tiles', firstHitLoop r order tiles = .ok (some (outloc, opt), tiles') →
          ∀ it ∈ tilesOnRay rayBox r tiles, it.l = outloc →
            ∀ other ∈ tilesOnRay rayBox r tiles, isHit r other = true → it.h1 ≤ other.h1) ↔
      ∀ it ∈ tilesOnRay rayBox r tiles, isHit r it = true →
        (∀ other ∈ tilesOnRay rayBox r tiles, isHit r other = true → it.dist ≤ other.dist) →
        ∀ other ∈ tilesOnRay rayBox r tiles, isHit r other = true → it.h1 ≤ other.h1) := by
  refine ⟨fun order horder => ?_, fun hnearest it hit hhit hleast => ?_, fun hleast order horder
    outloc opt tiles' hpick it hit hl => ?_⟩
  · obtain ⟨out, tiles', heq, hok, hout⟩ := firstHitLoop_sorted htiles horder
    refine ⟨out, tiles', heq, hok, ?_⟩
    have hsome : out.isSome = (order.find? (isHit r)).isSome := by
      have := congrArg Option.isSome hout
      simpa using this
    rw [hsome, List.find?_isSome]
    simp only [horder.mem_iff]
  · -- a sort may put this tile before all others as close to the origin
    obtain ⟨order, horder, hfind⟩ := first_iff.mpr ⟨hit, hhit, hleast⟩
    obtain ⟨opt, tiles', heq⟩ := firstHitLoop_found htiles horder hfind
    exact hnearest order horder it.l opt tiles' heq it hit rfl
  · obtain ⟨out, tiles'', heq, -, hout⟩ := firstHitLoop_sorted htiles horder
    rw [hpick] at heq
    cases heq
    obtain ⟨found, hfind, hfound⟩ := Option.map_eq_some_iff.mp hout.symm
    obtain ⟨hmem, hhit, hdist⟩ := first_iff.mp ⟨order, horder, hfind⟩
    obtain rfl := tilesOnRay_inj hit hmem (hl.trans hfound.symm)
    exact hleast it hit hhit hdist

/-! ### Straight up

What is expected of `rayBox`: the parameters of the points of the ray that are in the box start at
`entry` and end at `exit`. For a ray that goes straight up that is easily computed. -/

/-- The parameters at which the ray is in the box. -/
def inside (box : AABox K) (r : Ray K) : Set K := {h | 0 ≤ h ∧ pointAt r h ∈ box.closed}

/-- What is assumed of the test of a ray and a box: it finds where the ray is in the box, and the
two ends of that. -/
def RayBoxCorrect (rayBox : AABox K → Ray K → Option (RayHit K)) (r : Ray K) : Prop :=
  ∀ box, match rayBox box r with
    | none => inside box r = ∅
    | some hit => IsLeast (inside box r) (entry hit) ∧ IsGreatest (inside box r) (exit hit)

/-- A test for rays that go straight up, to have one that is correct. -/
def upward (box : AABox K) (r : Ray K) : Option (RayHit K) :=
  let o := r.origin
  if (box.min.x ≤ o.x ∧ o.x ≤ box.max.x) ∧ (box.min.z ≤ o.z ∧ o.z ≤ box.max.z) ∧
      box.min.y ≤ box.max.y ∧ o.y ≤ box.max.y then
    if o.y < box.min.y then some ⟨2, box.min.y - o.y, box.max.y - o.y⟩
    else some ⟨1, box.max.y - o.y, box.max.y - o.y⟩
  else none

/-- Such a ray is in the box or not by its two other coordinates, and from the lower face, or from
its start, to the upper one. -/
theorem mem_inside_up [IsStrictOrderedRing K] {box : AABox K} {o : Point3 K} {h : K} :
    h ∈ inside box ⟨o, ⟨0, 1, 0⟩⟩ ↔
      ((box.min.x ≤ o.x ∧ o.x ≤ box.max.x) ∧ box.min.z ≤ o.z ∧ o.z ≤ box.max.z) ∧
        h ∈ Set.Icc (max 0 (box.min.y - o.y)) (box.max.y - o.y) := by
  have hpoint : pointAt ⟨o, ⟨0, 1, 0⟩⟩ h = ⟨o.x, o.y + h, o.z⟩ := by
    unfold pointAt
    congr 1
    · exact (congrArg (o.x + ·) (mul_zero h)).trans (add_zero _)
    · exact congrArg (o.y + ·) (mul_one h)
    · exact (congrArg (o.z + ·) (mul_zero h)).trans (add_zero _)
  show 0 ≤ h ∧ pointAt ⟨o, ⟨0, 1, 0⟩⟩ h ∈ box.closed ↔ _
  simp only [hpoint, AABox.closed, Set.mem_ofPred_eq, Set.mem_Icc, max_le_iff,
    sub_le_iff_le_add', le_sub_iff_add_le']
  tauto

theorem upward_correct [IsStrictOrderedRing K] (o : Point3 K) :
    RayBoxCorrect upward ⟨o, ⟨0, 1, 0⟩⟩ := by
  intro box
  by_cases hmeets : (box.min.x ≤ o.x ∧ o.x ≤ box.max.x) ∧ (box.min.z ≤ o.z ∧ o.z ≤ box.max.z) ∧
      box.min.y ≤ box.max.y ∧ o.y ≤ box.max.y
  · obtain ⟨hx, hz, hbox, htop⟩ := hmeets
    have hinside : inside box ⟨o, ⟨0, 1, 0⟩⟩
        = Set.Icc (max 0 (box.min.y - o.y)) (box.max.y - o.y) :=
      Set.ext fun h => mem_inside_up.trans (and_iff_right ⟨hx, hz⟩)
    have hle : max 0 (box.min.y - o.y) ≤ box.max.y - o.y :=
      max_le (sub_nonneg.mpr htop) (sub_le_sub_right hbox _)
    -- from outside the ray has two points on the faces, from inside one
    by_cases hbelow : o.y < box.min.y
    · have heq : upward box ⟨o, ⟨0, 1, 0⟩⟩ = some ⟨2, box.min.y - o.y, box.max.y - o.y⟩ := by
        rw [upward, if_pos ⟨hx, hz, hbox, htop⟩, if_pos hbelow]
      have hentry : entry ⟨2, box.min.y - o.y, box.max.y - o.y⟩ = max 0 (box.min.y - o.y) :=
        (max_eq_right (sub_nonneg.mpr hbelow.le)).symm
      simp only [heq, hinside, hentry]
      exact ⟨isLeast_Icc hle, isGreatest_Icc hle⟩
    · have heq : upward box ⟨o, ⟨0, 1, 0⟩⟩ = some ⟨1, box.max.y - o.y, box.max.y - o.y⟩ := by
        rw [upward, if_pos ⟨hx, hz, hbox, htop⟩, if_neg hbelow]
      have hentry : entry ⟨1, box.max.y - o.y, box.max.y - o.y⟩ = max 0 (box.min.y - o.y) :=
        Int.cast_zero.trans (max_eq_left (sub_nonpos.mpr (not_lt.mp hbelow))).symm
      simp only [heq, hinside, hentry]
      exact ⟨isLeast_Icc hle, isGreatest_Icc hle⟩
  · have heq : upward box ⟨o, ⟨0, 1, 0⟩⟩ = none := by rw [upward, if_neg hmeets]
    simp only [heq]
    refine Set.eq_empty_iff_forall_notMem.mpr fun h hh => hmeets ?_
    obtain ⟨⟨hx, hz⟩, hlow, hhigh⟩ := mem_inside_up.mp hh
    obtain ⟨hpos, hmin⟩ := max_le_iff.mp hlow
    exact ⟨hx, hz, by linarith, by linarith⟩

end Exact

/-! ### Two tiles, one above the other

The ray comes from far below. It enters the lower tile first, but the upper one is closer to the
origin of the world. All their cells are solid. -/

section Stacked

def ones : List UInt8 := List.replicate cellCt 1

theorem length_ones : ones.length = cellCt := List.length_replicate

theorem firstHit_ones (c0 c1 : Vec3i) : FirstHit ones c0.clamp c1.clamp 0 := by
  refine ⟨Nat.zero_le _, ?_, fun j hj => absurd hj (Nat.not_lt_zero j)⟩
  obtain ⟨hlow, hhigh⟩ := (inCube_clamp c0).cellIndex
  have hin : (cellIndex c0.clamp).toNat < cellCt := by
    show _ < 256 ^ 3
    omega
  rw [linePoint_zero, solid, ones, List.getElem?_replicate, if_pos hin]
  rfl

/-- In such a tile the ray hits the cell where it enters, which counts unless its x coordinate is 0.
-/
theorem isHit_ones {F : Type} [FloatLike F] {r : Ray F} {it : IntersectTile F}
    (h : VoxTile.Cached ones it.tile) : isHit r it
      = decide ((VoxTile.toCell it.tile.l.getBBox (pointAt r it.h1)).clamp.x > 0) := by
  rw [isHit, VoxTile.intersect, h.intersectCells_eq,
    VoxTile.firstCell_of_firstHit (firstHit_ones _ _), linePoint_zero]

/-- Two tiles, one on top of the other; this is the lower one. -/
def low : Loc := ⟨1, 0, 1, 2⟩

/-- And the upper, which is nearer to the origin of the world. -/
def high : Loc := ⟨1, 1, 1, 2⟩

/-- The table with the two. -/
def stacked (rledata : List UInt8) : Std.TreeMap Loc VoxTile Loc.cmp :=
  ((∅ : Std.TreeMap Loc VoxTile Loc.cmp).insertIfNew low (.create low rledata)).insertIfNew high
    (.create high rledata)

/-- A ray from below both. -/
def fromBelow : Ray ℚ := ⟨⟨-32, -200, -32⟩, ⟨0, 1, 0⟩⟩

def lowHit (rledata : List UInt8) : IntersectTile ℚ := ⟨11264, 72, 136, low, .create low rledata⟩

def highHit (rledata : List UInt8) : IntersectTile ℚ := ⟨3072, 136, 200, high, .create high rledata⟩

variable {rledata : List UInt8}

theorem entry_stacked (loc : Loc) : (stacked rledata)[loc]?
    = if high = loc then some (.create high rledata)
      else if low = loc then some (.create low rledata) else none := by
  have hlow (loc : Loc) : ((∅ : Std.TreeMap Loc VoxTile Loc.cmp).insertIfNew low
      (.create low rledata))[loc]? = if low = loc then some (.create low rledata) else none := by
    rw [Map.entry_insertIfNew Std.TreeMap.getElem?_emptyc, Std.TreeMap.getElem?_emptyc]
  rw [stacked, Map.entry_insertIfNew ((hlow high).trans (if_neg (by decide))), hlow]

theorem intersectTile_low (tile : VoxTile) :
    intersectTile upward fromBelow (low, tile) = some ⟨11264, 72, 136, low, tile⟩ := by
  have hmid : dot (midpoint low.getBBox) (midpoint low.getBBox) = (11264 : ℚ) := by decide +kernel
  have hray : upward low.getBBox fromBelow = some ⟨2, 72, 136⟩ := by decide +kernel
  rw [intersectTile, hmid, hray]
  rfl

theorem intersectTile_high (tile : VoxTile) :
    intersectTile upward fromBelow (high, tile) = some ⟨3072, 136, 200, high, tile⟩ := by
  have hmid : dot (midpoint high.getBBox) (midpoint high.getBBox) = (3072 : ℚ) := by decide +kernel
  have hray : upward high.getBBox fromBelow = some ⟨2, 136, 200⟩ := by decide +kernel
  rw [intersectTile, hmid, hray]
  rfl

theorem mem_stacked {it : IntersectTile ℚ} :
    it ∈ tilesOnRay upward fromBelow (stacked rledata) ↔
      it = lowHit rledata ∨ it = highHit rledata := by
  rw [mem_tilesOnRay]
  constructor
  · rintro ⟨loc, tile, hentry, heq⟩
    rw [entry_stacked] at hentry
    split at hentry
    · next h =>
      cases h
      cases hentry
      exact .inr (Option.some.inj (heq.symm.trans (intersectTile_high _)))
    · split at hentry
      · next h =>
        cases h
        cases hentry
        exact .inl (Option.some.inj (heq.symm.trans (intersectTile_low _)))
      · exact absurd hentry (by simp)
  · rintro (rfl | rfl)
    · exact ⟨low, _, by rw [entry_stacked, if_neg (by decide), if_pos rfl], intersectTile_low _⟩
    · exact ⟨high, _, by rw [entry_stacked, if_pos rfl], intersectTile_high _⟩

theorem tilesOk_stacked (h : rleEncode ones = .ok rledata) : TilesOk (stacked rledata) := by
  intro loc tile hentry
  rw [entry_stacked] at hentry
  split at hentry
  · cases hentry
    exact .inr ⟨ones, VoxTile.cached_create length_ones h high⟩
  · split at hentry
    · cases hentry
      exact .inr ⟨ones, VoxTile.cached_create length_ones h low⟩
    · exact absurd hentry (by simp)

theorem isHit_lowHit (h : rleEncode ones = .ok rledata) :
    isHit fromBelow (lowHit rledata) = true := by
  rw [isHit_ones (VoxTile.cached_create length_ones h low)]
  have hcell : (VoxTile.toCell low.getBBox (pointAt fromBelow 72)).clamp.x > 0 := by decide +kernel
  exact decide_eq_true hcell

theorem isHit_highHit (h : rleEncode ones = .ok rledata) :
    isHit fromBelow (highHit rledata) = true := by
  rw [isHit_ones (VoxTile.cached_create length_ones h high)]
  have hcell : (VoxTile.toCell high.getBBox (pointAt fromBelow 136)).clamp.x > 0 := by
    decide +kernel
  exact decide_eq_true hcell

/-- Of the two, the upper is closest to the origin. -/
theorem highHit_least : ∀ other ∈ tilesOnRay upward fromBelow (stacked rledata),
    isHit fromBelow other = true → (highHit rledata).dist ≤ other.dist := by
  intro other hother _
  rcases mem_stacked.mp hother with rfl | rfl
  · show (3072 : ℚ) ≤ 11264
    norm_num
  · exact le_refl _

theorem lowHit_before : (lowHit rledata).h1 < (highHit rledata).h1 := by
  show (72 : ℚ) < 136
  norm_num

theorem nearest_iff_stacked : ∃ rledata, rleEncode ones = .ok rledata ∧
    ¬ ∀ order, IsSort IntersectTile.dist (tilesOnRay upward fromBelow (stacked rledata)) order →
      ∀ outloc opt tiles',
        firstHitLoop fromBelow order (stacked rledata) = .ok (some (outloc, opt), tiles') →
          ∀ it ∈ tilesOnRay upward fromBelow (stacked rledata), it.l = outloc →
            ∀ other ∈ tilesOnRay upward fromBelow (stacked rledata),
              isHit fromBelow other = true → it.h1 ≤ other.h1 := by
  have hrle := rleEncode_eq (ne_nil_of_length_cellCt length_ones)
  refine ⟨_, hrle, fun hnearest => ?_⟩
  have hfirst := (nearest_iff upward fromBelow (tilesOk_stacked hrle)).2.mp hnearest
  have hle := hfirst (highHit _) (mem_stacked.mpr (.inr rfl)) (isHit_highHit hrle) highHit_least
    (lowHit _) (mem_stacked.mpr (.inl rfl)) (isHit_lowHit hrle)
  exact absurd hle (not_le.mpr lowHit_before)

/-- The boxes do not overlap, the ray enters the lower tile first and hits it there, and the answer
is the upper one. -/
theorem farther_tile_picked : ∃ rledata, rleEncode ones = .ok rledata ∧
    TilesOk (stacked rledata) ∧ RayBoxCorrect upward fromBelow ∧
    (low.getBBox : AABox ℚ).max.y ≤ (high.getBBox : AABox ℚ).min.y ∧
    (∃ order, IsSort IntersectTile.dist (tilesOnRay upward fromBelow (stacked rledata)) order ∧
      ∃ opt tiles',
        firstHitLoop fromBelow order (stacked rledata) = .ok (some (high, opt), tiles')) ∧
    lowHit rledata ∈ tilesOnRay upward fromBelow (stacked rledata) ∧
    highHit rledata ∈ tilesOnRay upward fromBelow (stacked rledata) ∧
    isHit fromBelow (lowHit rledata) = true ∧
    (lowHit rledata).h1 < (highHit rledata).h1 := by
  have hrle := rleEncode_eq (ne_nil_of_length_cellCt length_ones)
  have hboxes : (low.getBBox : AABox ℚ).max.y ≤ (high.getBBox : AABox ℚ).min.y := by
    decide +kernel
  have htiles := tilesOk_stacked hrle
  refine ⟨_, hrle, htiles, upward_correct _, hboxes, ?_, mem_stacked.mpr (.inl rfl),
    mem_stacked.mpr (.inr rfl), isHit_lowHit hrle, lowHit_before⟩
  -- the upper tile is closer to the origin of the world, which is what the tiles are sorted by
  obtain ⟨order, horder, hfind⟩ := first_iff.mpr
    ⟨mem_stacked.mpr (.inr rfl), isHit_highHit hrle, highHit_least⟩
  exact ⟨order, horder, firstHitLoop_found htiles horder hfind⟩

end Stacked

end OctTileSelection

end MapBg
