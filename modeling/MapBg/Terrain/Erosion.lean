import Mathlib.Algebra.BigOperators.Ring.List
import Mathlib.Algebra.Order.BigOperators.Group.List
import MapBg.Lib.Transport
import MapBg.Terrain.Sample

/-!
# `cs_erosion`: one pass of water over the terrain

A texel of the work textures holds a height (`w`), the water on it (`x`), the sediment in that water
(`y`) and how fast it flows (`z`). A pass computes every texel anew from the 5 by 5 texels around
it: three tenths of a texel's water, and of what is in it, go to its lowest neighbour, if that is
lower than the texel itself; then some water evaporates, sediment is dropped or picked up, and it
rains.

The flow is gathered. A texel does not write to the one it flows to, since all are computed at once.
It looks at its eight neighbours, finds out for each which of *its* eight neighbours is the lowest,
and takes the share of those that have found itself. That no share is taken twice or by nobody is
a matter of eight comparisons made in the same order everywhere, on an array of samples addressed
relative to the texel that asks. `flow_balance` says it comes out right. There is one exception, and
it is in the code: the texel in the corner of the texture is never read as a neighbour, the one next
to it is read in its place.

What a pass does to a texel after the flow is `settle`. Whatever was there before, no height it
leaves is below zero, unless it is dropping sediment on one that was (`settle_height_nonneg`).
`Terrain/Heights.lean` runs the passes.

The length of a diagonal, `1./sqrt(2.)` in the source, is a parameter, and a texel that is outside
of the texture reads as zero. The terraces are switched off in the source by a constant.
-/

set_option autoImplicit false

namespace MapBg

/-- A texture, by the coordinates of its texels. -/
abbrev Texture (T : Type) : Type := Int × Int → T

namespace Erosion

open OctTile (totalPtsCt)

/-! ## The code -/

def InTexture (uv : Int × Int) : Prop :=
  (0 ≤ uv.1 ∧ uv.1 < totalPtsCt) ∧ 0 ≤ uv.2 ∧ uv.2 < totalPtsCt

instance (uv : Int × Int) : Decidable (InTexture uv) :=
  inferInstanceAs (Decidable ((0 ≤ uv.1 ∧ uv.1 < totalPtsCt) ∧ 0 ≤ uv.2 ∧ uv.2 < totalPtsCt))

/-- `if ( tapUV.x == 0 && tapUV.y == 0 ) tapUV.x = 1`. -/
def skipDataTexel (tapUV : Int × Int) : Int × Int :=
  if tapUV.1 = 0 ∧ tapUV.2 = 0 then (1, tapUV.2) else tapUV

section Code

variable {F : Type} [FloatLike F]

/-- The part of the water and the sediment of a texel that moves in one pass. -/
def flowRate : F := FloatLike.ofInt 3 / FloatLike.ofInt 10

def evaporation : F := FloatLike.ofInt 1 / FloatLike.ofInt 100

def rain : F := FloatLike.ofInt 4 / FloatLike.ofInt 100

/-- What standing water loses in addition. -/
def drainage : F := FloatLike.ofInt 1

def maxWater : F := FloatLike.ofInt 100

/-- The height of one unit of sediment. -/
def sedimentToHeight : F := FloatLike.ofInt 3 / FloatLike.ofInt 10000

/-- The most sediment that is picked up in a pass. -/
def sedimentPickUp : F := FloatLike.ofInt 1 / FloatLike.ofInt 10

/-- It is 0: the slope is that of the ground, without the water on it. -/
def waterAsHeight : F := FloatLike.ofInt 0

/-- The limit on the speed, against waterfalls. -/
def maxWaterSpeed : F := FloatLike.ofInt 3

def slopeToSpeed : F := FloatLike.ofInt 1 / (FloatLike.ofInt 1 / FloatLike.ofInt 100)

def clamp (v lo hi : F) : F := stdMin (stdMax v lo) hi

def zeroTexel : Vec4 F :=
  ⟨FloatLike.ofInt 0, FloatLike.ofInt 0, FloatLike.ofInt 0, FloatLike.ofInt 0⟩

/-- The texture, and zeros around it. -/
def texelFetch (tex : Texture (Vec4 F)) (uv : Int × Int) : Vec4 F :=
  if InTexture uv then tex uv else zeroTexel

/-- `samples[j*5+i]`, by its index. -/
def samples (tex : Texture (Vec4 F)) (uv : Int × Int) (k : Int) : Vec4 F :=
  texelFetch tex (skipDataTexel (uv.1 + k % 5 - 2, uv.2 + k / 5 - 2))

/-- `dot(vec2(waterAsHeight,1),neighbour.xw-me.xw) * dist`. -/
def slope (me neighbour : Vec4 F) (dist : F) : F :=
  (waterAsHeight * (neighbour.x - me.x) + FloatLike.ofInt 1 * (neighbour.w - me.w)) * dist

/-- The two `inout` parameters of `TestOutFlow`. -/
structure Lowest (F : Type) where
  lowestSlope : F
  lowestIndex : Int

/-- `TestOutFlow`: a neighbour that is lower than those tested before takes their place. The
neighbour is given by how far its index is from that of the sample. -/
def testOutFlow (samples : Int → Vec4 F) (indexMe : Int) (low : Lowest F) (tap : Int × F) :
    Lowest F :=
  let indexNeighbour := indexMe + tap.1
  let slope := slope (samples indexMe) (samples indexNeighbour) tap.2
  if FloatLike.lt slope low.lowestSlope then ⟨slope, indexNeighbour⟩ else low

/-- The neighbours of a sample, in the order in which they are tested. -/
def outTaps (diagonalDist : F) : List (Int × F) :=
  let one : F := FloatLike.ofInt 1
  [(-5 - 1, diagonalDist), (-5 + 1, diagonalDist), (5 - 1, diagonalDist), (5 + 1, diagonalDist),
    (-5, one), (5, one), (-1, one), (1, one)]

/-- `neighbourOutSlope` and `neighbourOutSlopeTarget`. -/
def outFlow (diagonalDist : F) (samples : Int → Vec4 F) (idx : Int) : Lowest F :=
  (outTaps diagonalDist).foldl (testOutFlow samples idx) ⟨FloatLike.ofInt 0, -1⟩

/-- What is added up over the neighbours: `outSlope`, `inSlope` and `inFlow`. -/
structure Flow (F : Type) where
  outSlope : F
  inSlope : F
  inFlow : Vec2 F

/-- The texel itself, in the middle of its 25 samples. -/
def meIdx : Int := 2 * 5 + 2

/-- `ProcessNeighbour`: the slope down to the neighbour, and what flows here from it if this is its
lowest neighbour. `inSlope` is added up too, but nothing reads it. -/
def processNeighbour (diagonalDist : F) (samples : Int → Vec4 F) (s : Flow F)
    (tap : (Int × Int) × F) : Flow F :=
  let idx := tap.1.2 * 5 + tap.1.1
  let neighbour := samples idx
  let slope := slope (samples meIdx) neighbour tap.2
  let toMe : Bool := (outFlow diagonalDist samples idx).lowestIndex = meIdx
  { outSlope := stdMin s.outSlope slope
    inSlope := if toMe then s.inSlope + stdMax slope (FloatLike.ofInt 0) else s.inSlope
    inFlow := if toMe then ⟨s.inFlow.x + neighbour.x, s.inFlow.y + neighbour.y⟩ else s.inFlow }

/-- The neighbours that may flow here, in the order in which they are processed. -/
def inTaps (diagonalDist : F) : List ((Int × Int) × F) :=
  let one : F := FloatLike.ofInt 1
  [((1, 1), diagonalDist), ((1, 3), diagonalDist), ((3, 1), diagonalDist), ((3, 3), diagonalDist),
    ((1, 2), one), ((2, 1), one), ((2, 3), one), ((3, 2), one)]

/-- The eight calls of `ProcessNeighbour`. -/
def flowAt (diagonalDist : F) (samples : Int → Vec4 F) : Flow F :=
  let zero : F := FloatLike.ofInt 0
  (inTaps diagonalDist).foldl (processNeighbour diagonalDist samples)
    ⟨FloatLike.ofInt 1, zero, ⟨zero, zero⟩⟩

/-- Water and sediment once they have flowed. -/
def moved (fragColour : Vec4 F) (flow : Flow F) : Vec2 F :=
  let kept : Vec2 F :=
    if FloatLike.lt flow.outSlope (FloatLike.ofInt 0) then
      ⟨fragColour.x * (FloatLike.ofInt 1 - flowRate), fragColour.y * (FloatLike.ofInt 1 - flowRate)⟩
    else ⟨fragColour.x, fragColour.y⟩
  ⟨kept.x + flow.inFlow.x * flowRate, kept.y + flow.inFlow.y * flowRate⟩

/-- The speed of the water. It is computed from `outSlope` alone, though the comment on erosion
speaks of incoming slopes as well; so water in a dip stands still. -/
def speedOf (outSlope : F) : F :=
  clamp (-outSlope * slopeToSpeed) (FloatLike.ofInt 0) maxWaterSpeed

/-- The water after evaporation and drainage. -/
def waterLeft [BEq F] (water speed : F) : F :=
  let x := stdMin (water - evaporation) maxWater
  let x := if speed == FloatLike.ofInt 0 then x - drainage else x
  stdMax x (FloatLike.ofInt 0)

/-- Sediment is dropped or picked up, then it rains. -/
def settle (water sediment height speed : F) : Vec4 F :=
  let maxSediment := water * speed
  if FloatLike.lt maxSediment sediment then
    let deposit := sediment - maxSediment
    ⟨water + rain, sediment - deposit, speed, height + deposit * sedimentToHeight⟩
  else
    -- `terraces` is 0, so the rate is `sedimentPickUp`; the ground is not taken below 0
    let pickup := stdMin (stdMin (maxSediment - sediment) (height / sedimentToHeight))
      sedimentPickUp
    ⟨water + rain, sediment + pickup, speed, height - pickup * sedimentToHeight⟩

/-- The shader: the texel `uv` after one pass, computed from the texture before it. The comment in
the code has a texel pass on all its water, and take all of a neighbour's; `flowRate` makes it three
tenths. -/
def mainImage [BEq F] (diagonalDist : F) (tex : Texture (Vec4 F)) (uv : Int × Int) : Vec4 F :=
  let fragColour := texelFetch tex uv
  let flow := flowAt diagonalDist (samples tex uv)
  -- what flows in is what the neighbours had before the pass
  let xy := moved fragColour flow
  let speed := speedOf flow.outSlope
  settle (waterLeft xy.x speed) xy.y fragColour.w speed

end Code

/-! ## Seen from outside

The samples are addressed relative to the texel that asks. `seen` is the same in the coordinates of
the texture, and `downhill` is where a texel flows, computed once for all who ask. -/

/-- The eight directions, in the order in which a texel tests them. -/
def directions : List (Int × Int) :=
  [(-1, -1), (1, -1), (-1, 1), (1, 1), (0, -1), (0, 1), (-1, 0), (1, 0)]

/-- The same, in the order in which a texel asks its neighbours. -/
def neighbours : List (Int × Int) :=
  [(-1, -1), (-1, 1), (1, -1), (1, 1), (-1, 0), (0, -1), (0, 1), (1, 0)]

/-- The two lists of neighbours in the code differ in their order. -/
theorem neighbours_perm : neighbours.Perm directions := by decide

theorem directions_mem : ∀ dir ∈ directions, (-1 ≤ dir.1 ∧ dir.1 ≤ 1) ∧ -1 ≤ dir.2 ∧ dir.2 ≤ 1 := by
  decide

theorem neg_mem_directions : ∀ dir ∈ directions, -dir ∈ directions := by decide

section Absolute

variable {F : Type} [FloatLike F] (diagonalDist : F) (tex : Texture (Vec4 F))

/-- The factor on a slope, which is smaller on the diagonals. -/
def distTo (dir : Int × Int) : F :=
  if dir.1 ≠ 0 ∧ dir.2 ≠ 0 then diagonalDist else FloatLike.ofInt 1

/-- What another texel takes the texel for: it is not read if it is the data texel. -/
def seen (p : Int × Int) : Vec4 F := texelFetch tex (skipDataTexel p)

/-- The slope from a texel to its neighbour, in texels of the texture. -/
def slopeTo (p dir : Int × Int) : F :=
  slope (seen tex p) (seen tex (p + dir)) (distTo diagonalDist dir)

/-- One round of looking for the lowest neighbour of `p`. -/
def testDirection (p : Int × Int) (low : F × Option (Int × Int)) (dir : Int × Int) :
    F × Option (Int × Int) :=
  if FloatLike.lt (slopeTo diagonalDist tex p dir) low.1 then
    (slopeTo diagonalDist tex p dir, some (p + dir))
  else low

/-- Where a texel flows, and how steeply, in texels of the texture and not in samples around another
one. -/
def steepest (p : Int × Int) : F × Option (Int × Int) :=
  directions.foldl (testDirection diagonalDist tex p) (FloatLike.ofInt 0, none)

/-- The neighbour that a texel flows to. -/
def downhill (p : Int × Int) : Option (Int × Int) := (steepest diagonalDist tex p).2

variable {diagonalDist tex}

theorem outTaps_eq : outTaps diagonalDist
    = directions.map fun dir => (dir.2 * 5 + dir.1, distTo diagonalDist dir) := rfl

theorem inTaps_eq : inTaps diagonalDist
    = neighbours.map fun dir => (dir + (2, 2), distTo diagonalDist dir) := rfl

variable (tex) in
/-- A sample is found by its index again, within two texels in x. -/
theorem samples_eq (uv dir : Int × Int) (hdir : -2 ≤ dir.1 ∧ dir.1 ≤ 2) :
    samples tex uv ((dir.2 + 2) * 5 + (dir.1 + 2)) = seen tex (uv + dir) := by
  have hcol : ((dir.2 + 2) * 5 + (dir.1 + 2)) % 5 = dir.1 + 2 := by omega
  have hrow : ((dir.2 + 2) * 5 + (dir.1 + 2)) / 5 = dir.2 + 2 := by omega
  rw [samples, seen, hcol, hrow, ← add_assoc, ← add_assoc, add_sub_cancel_right,
    add_sub_cancel_right]
  rfl

theorem samples_meIdx (uv : Int × Int) : samples tex uv meIdx = seen tex uv := by
  have h := samples_eq tex uv 0 (by decide)
  rw [add_zero] at h
  exact h

/-- A sample's index in the array around `uv`, against its place in the texture. -/
def Locates (uv : Int × Int) (low : Lowest F) (abs : F × Option (Int × Int)) : Prop :=
  low.lowestSlope = abs.1 ∧
    low.lowestIndex = abs.2.elim (-1) fun q => (q.2 - uv.2 + 2) * 5 + (q.1 - uv.1 + 2)

variable (diagonalDist tex) in
/-- A texel does not compute where its neighbours flow from a table: it computes it again, from its
own samples. It finds what the neighbour itself would. -/
theorem outFlow_locates (uv : Int × Int) {dir : Int × Int} (hdir : dir ∈ directions) :
    Locates uv (outFlow diagonalDist (samples tex uv) ((dir.2 + 2) * 5 + (dir.1 + 2)))
      (steepest diagonalDist tex (uv + dir)) := by
  obtain ⟨hcol, hrow⟩ := directions_mem dir hdir
  rw [outFlow, outTaps_eq, List.foldl_map]
  refine List.foldl_rel (r := Locates uv) ⟨rfl, rfl⟩ ?_
  intro step hstep low abs hlow
  obtain ⟨hcol', hrow'⟩ := directions_mem step hstep
  have hindex : (dir.2 + 2) * 5 + (dir.1 + 2) + (step.2 * 5 + step.1)
      = ((dir + step).2 + 2) * 5 + ((dir + step).1 + 2) := by
    show _ = (dir.2 + step.2 + 2) * 5 + (dir.1 + step.1 + 2)
    omega
  have hcols : -2 ≤ (dir + step).1 ∧ (dir + step).1 ≤ 2 := by
    show -2 ≤ dir.1 + step.1 ∧ dir.1 + step.1 ≤ 2
    omega
  -- the same slope is compared with the same bound
  have hslope : slope (samples tex uv ((dir.2 + 2) * 5 + (dir.1 + 2)))
      (samples tex uv ((dir.2 + 2) * 5 + (dir.1 + 2) + (step.2 * 5 + step.1)))
      (distTo diagonalDist step) = slopeTo diagonalDist tex (uv + dir) step := by
    rw [hindex, samples_eq tex uv dir (by omega), samples_eq tex uv (dir + step) hcols, ← add_assoc]
    rfl
  simp only [testOutFlow, testDirection, hslope, hlow.1]
  split
  · refine ⟨rfl, ?_⟩
    show _ = (uv.2 + dir.2 + step.2 - uv.2 + 2) * 5 + (uv.1 + dir.1 + step.1 - uv.1 + 2)
    rw [hindex]
    show (dir.2 + step.2 + 2) * 5 + (dir.1 + step.1 + 2) = _
    omega
  · exact hlow

theorem exists_direction {p q : Int × Int} (h : downhill diagonalDist tex p = some q) :
    ∃ dir ∈ directions, p + dir = q := by
  -- whatever was found so far is kept or replaced by a neighbour
  have hfold : ∀ (l : List (Int × Int)) (low : F × Option (Int × Int)),
      (l.foldl (testDirection diagonalDist tex p) low).2 = low.2 ∨
        ∃ dir ∈ l, (l.foldl (testDirection diagonalDist tex p) low).2 = some (p + dir) := by
    intro l
    induction l with
    | nil =>
      intro low
      exact .inl rfl
    | cons dir l ih =>
      intro low
      rw [List.foldl_cons]
      cases ih (testDirection diagonalDist tex p low dir) with
      | inl hsame =>
        rw [hsame, testDirection]
        split
        · exact .inr ⟨dir, List.mem_cons_self, rfl⟩
        · exact .inl rfl
      | inr hlater =>
        obtain ⟨later, hmem, heq⟩ := hlater
        exact .inr ⟨later, List.mem_cons_of_mem _ hmem, heq⟩
  cases hfold directions (FloatLike.ofInt 0, none) with
  | inl hnone => exact absurd (h.symm.trans hnone) (by simp)
  | inr hsome =>
    obtain ⟨dir, hmem, heq⟩ := hsome
    exact ⟨dir, hmem, Option.some.inj (heq.symm.trans h)⟩

/-- A neighbour has found the texel that asks exactly if it flows there. -/
theorem outFlow_eq_meIdx_iff (uv : Int × Int) {dir : Int × Int} (hdir : dir ∈ directions) :
    (outFlow diagonalDist (samples tex uv) ((dir.2 + 2) * 5 + (dir.1 + 2))).lowestIndex = meIdx ↔
      downhill diagonalDist tex (uv + dir) = some uv := by
  obtain ⟨-, hindex⟩ := outFlow_locates diagonalDist tex uv hdir
  rw [hindex]
  show (downhill diagonalDist tex (uv + dir)).elim _ _ = meIdx ↔ _
  cases hq : downhill diagonalDist tex (uv + dir) with
  | none => simp [meIdx]
  | some q =>
    obtain ⟨step, hstep, rfl⟩ := exists_direction hq
    -- two steps of at most one each stay within the 25 samples, where the index tells texels apart
    have hnear := directions_mem dir hdir
    have hnear' := directions_mem step hstep
    rw [Option.some.injEq, Prod.ext_iff]
    show (uv.2 + dir.2 + step.2 - uv.2 + 2) * 5 + (uv.1 + dir.1 + step.1 - uv.1 + 2) = 2 * 5 + 2 ↔
      uv.1 + dir.1 + step.1 = uv.1 ∧ uv.2 + dir.2 + step.2 = uv.2
    omega

/-- `ProcessNeighbour` in texels of the texture: the neighbour's water flows here if it runs
downhill to here. -/
theorem processNeighbour_eq (uv : Int × Int) {dir : Int × Int} (hdir : dir ∈ directions)
    (s : Flow F) :
    processNeighbour diagonalDist (samples tex uv) s (dir + (2, 2), distTo diagonalDist dir) =
      let toMe : Bool := downhill diagonalDist tex (uv + dir) = some uv
      let slope := slopeTo diagonalDist tex uv dir
      let neighbour := seen tex (uv + dir)
      { outSlope := stdMin s.outSlope slope
        inSlope := if toMe then s.inSlope + stdMax slope (FloatLike.ofInt 0) else s.inSlope
        inFlow := if toMe then ⟨s.inFlow.x + neighbour.x, s.inFlow.y + neighbour.y⟩
          else s.inFlow } := by
  have hidx : (dir + (2, 2)).2 * 5 + (dir + (2, 2)).1 = (dir.2 + 2) * 5 + (dir.1 + 2) := rfl
  have hcol : -2 ≤ dir.1 ∧ dir.1 ≤ 2 := by
    have := directions_mem dir hdir
    omega
  simp only [processNeighbour, hidx, samples_meIdx, samples_eq tex uv dir hcol,
    outFlow_eq_meIdx_iff uv hdir, slopeTo]

end Absolute

/-! ## In exact arithmetic -/

section Exact

variable {K : Type} [Field K] [LinearOrder K] [FloorRing K] {diagonalDist : K}
  {tex : Texture (Vec4 K)}

theorem flowRate_exact : (flowRate : K) = 3 / 10 := by
  rw [flowRate, ofInt_exact, ofInt_exact]
  norm_num

/-- A texel flows nowhere if no neighbour is lower. -/
theorem downhill_eq_none_iff {p : Int × Int} : downhill diagonalDist tex p = none ↔
    ∀ dir ∈ directions, 0 ≤ slopeTo diagonalDist tex p dir := by
  -- once something is found, something is found in the end
  have hsome : ∀ (l : List (Int × Int)) (a : K) (q : Int × Int),
      (l.foldl (testDirection diagonalDist tex p) (a, some q)).2 ≠ none := by
    intro l
    induction l with
    | nil =>
      intro a q
      exact Option.some_ne_none q
    | cons dir l ih =>
      intro a q
      rw [List.foldl_cons, testDirection]
      split
      · exact ih _ _
      · exact ih a q
  -- and until then the bound to beat is the one it began with
  have hnone : ∀ (l : List (Int × Int)) (a : K),
      (l.foldl (testDirection diagonalDist tex p) (a, none)).2 = none ↔
        ∀ dir ∈ l, a ≤ slopeTo diagonalDist tex p dir := by
    intro l a
    induction l with
    | nil => simp
    | cons dir l ih =>
      rw [List.foldl_cons, List.forall_mem_cons, testDirection]
      split
      · rename_i hlower
        exact iff_of_false (hsome l _ _) fun h => absurd (lt_exact.mp hlower) (not_lt_of_ge h.1)
      · rename_i hhigher
        rw [ih, and_iff_right (lt_exact_false.mp (Bool.eq_false_of_not_eq_true hhigher))]
  rw [downhill, steepest, hnone, ofInt_exact, Int.cast_zero]

/-! ### The flow -/

/-- What reaches `uv` from the neighbour in a direction. -/
def sharing (diagonalDist : K) (tex : Texture (Vec4 K)) (part : Vec4 K → K) (uv dir : Int × Int) :
    K :=
  if downhill diagonalDist tex (uv + dir) = some uv then part (seen tex (uv + dir)) else 0

variable (diagonalDist tex) in
theorem processNeighbour_exact (uv : Int × Int) {dir : Int × Int} (hdir : dir ∈ directions)
    (s : Flow K) :
    let flow := processNeighbour diagonalDist (samples tex uv) s
      (dir + (2, 2), distTo diagonalDist dir)
    flow.outSlope = min s.outSlope (slopeTo diagonalDist tex uv dir) ∧
    flow.inFlow.x = s.inFlow.x + sharing diagonalDist tex Vec4.x uv dir ∧
    flow.inFlow.y = s.inFlow.y + sharing diagonalDist tex Vec4.y uv dir := by
  rw [processNeighbour_eq uv hdir]
  refine ⟨stdMin_exact _ _, ?_, ?_⟩
  all_goals by_cases hto : downhill diagonalDist tex (uv + dir) = some uv <;> simp [sharing, hto]

variable (diagonalDist tex) in
/-- Over any list of directions, by induction: what was there before, and a sum. -/
theorem foldl_processNeighbour (uv : Int × Int) {l : List (Int × Int)}
    (hl : ∀ dir ∈ l, dir ∈ directions) (s : Flow K) :
    let flow := (l.map fun dir => (dir + (2, 2), distTo diagonalDist dir)).foldl
      (processNeighbour diagonalDist (samples tex uv)) s
    flow.outSlope = (l.map (slopeTo diagonalDist tex uv)).foldl min s.outSlope ∧
    flow.inFlow.x = s.inFlow.x + (l.map (sharing diagonalDist tex Vec4.x uv)).sum ∧
    flow.inFlow.y = s.inFlow.y + (l.map (sharing diagonalDist tex Vec4.y uv)).sum := by
  induction l generalizing s with
  | nil => simp
  | cons dir l ih =>
    rw [List.forall_mem_cons] at hl
    obtain ⟨hout, hx, hy⟩ := processNeighbour_exact diagonalDist tex uv
      hl.1 s
    obtain ⟨hout', hx', hy'⟩ := ih hl.2 (processNeighbour diagonalDist (samples tex uv) s
      (dir + (2, 2), distTo diagonalDist dir))
    simp only [List.map_cons, List.foldl_cons, List.sum_cons]
    rw [hout', hx', hy', hout, hx, hy, add_assoc, add_assoc]
    exact ⟨rfl, rfl, rfl⟩

theorem mem_neighbours {dir : Int × Int} : dir ∈ neighbours ↔ dir ∈ directions :=
  neighbours_perm.mem_iff

variable (diagonalDist tex) in
/-- A texel flows out if it has somewhere to flow to, and it receives what its neighbours send. -/
theorem flowAt_eq [IsStrictOrderedRing K] (uv : Int × Int) :
    let flow := flowAt diagonalDist (samples tex uv)
    (flow.outSlope < 0 ↔ downhill diagonalDist tex uv ≠ none) ∧
    flow.inFlow.x = (neighbours.map (sharing diagonalDist tex Vec4.x uv)).sum ∧
    flow.inFlow.y = (neighbours.map (sharing diagonalDist tex Vec4.y uv)).sum := by
  have hflow : flowAt diagonalDist (samples tex uv)
      = (neighbours.map fun dir => (dir + (2, 2), distTo diagonalDist dir)).foldl
        (processNeighbour diagonalDist (samples tex uv)) ⟨1, 0, ⟨0, 0⟩⟩ := by
    rw [flowAt, inTaps_eq, ofInt_exact, ofInt_exact, Int.cast_one, Int.cast_zero]
  obtain ⟨hout, hx, hy⟩ := foldl_processNeighbour diagonalDist tex uv
    (fun dir hdir => mem_neighbours.mp hdir) ⟨1, 0, ⟨0, 0⟩⟩
  rw [zero_add] at hx hy
  rw [hflow]
  refine ⟨?_, hx, hy⟩
  rw [hout, Ne, downhill_eq_none_iff]
  obtain ⟨-, hle, hmem⟩ := Extreme.foldl_min (neighbours.map (slopeTo diagonalDist tex uv)) (1 : K)
  constructor
  · intro hneg hall
    -- the minimum is the 1 it began with, which is no slope, or the slope to a neighbour
    cases hmem with
    | inl hone =>
      rw [hone] at hneg
      exact absurd hneg (not_lt_of_ge zero_le_one)
    | inr hslope =>
      obtain ⟨dir, hdir, heq⟩ := List.mem_map.mp hslope
      rw [← heq] at hneg
      exact absurd (hall dir (mem_neighbours.mp hdir)) (not_le_of_gt hneg)
  · intro hex
    obtain ⟨dir, hdir, hlow⟩ : ∃ dir ∈ directions, slopeTo diagonalDist tex uv dir < 0 := by
      simpa only [not_forall, not_le, exists_prop] using hex
    exact (hle _ (List.mem_map_of_mem (mem_neighbours.mpr hdir))).trans_lt hlow

/-! ### Nothing is lost on the way -/

/-- Water and sediment of a texel once they have flowed. -/
def movedAt (diagonalDist : K) (tex : Texture (Vec4 K)) (uv : Int × Int) : Vec2 K :=
  moved (texelFetch tex uv) (flowAt diagonalDist (samples tex uv))

def near (uv : Int × Int) : Finset (Int × Int) := (neighbours.map (uv + ·)).toFinset

theorem mem_near {uv n : Int × Int} : n ∈ near uv ↔ ∃ dir ∈ directions, uv + dir = n := by
  rw [near, List.mem_toFinset, List.mem_map]
  exact exists_congr fun dir => and_congr_left fun _ => mem_neighbours

theorem mem_near_of_downhill (diagonalDist : K) (tex : Texture (Vec4 K)) (n c : Int × Int)
    (h : downhill diagonalDist tex n = some c) : n ∈ near c := by
  obtain ⟨dir, hdir, rfl⟩ := exists_direction h
  exact mem_near.mpr ⟨-dir, neg_mem_directions dir hdir, add_neg_cancel_right n dir⟩

/-- What a texel passes on, of its water or of its sediment. -/
def share (tex : Texture (Vec4 K)) (part : Vec4 K → K) (n : Int × Int) : K :=
  part (texelFetch tex n) * flowRate

theorem seen_of_ne {F : Type} [FloatLike F] {tex : Texture (Vec4 F)} {p : Int × Int}
    (h : p ≠ (0, 0)) : seen tex p = texelFetch tex p := by
  have hfar : ¬ (p.1 = 0 ∧ p.2 = 0) := fun hp => h (Prod.ext hp.1 hp.2)
  rw [seen, skipDataTexel, if_neg hfar]

/-- What is received is what was given, unless it comes from the texel that is not read. -/
theorem received_eq (part : Vec4 K → K) {c : Int × Int}
    (hc : downhill diagonalDist tex (0, 0) ≠ some c) :
    Transport.received (downhill diagonalDist tex) (share tex part) near c
      = (neighbours.map (sharing diagonalDist tex part c)).sum * flowRate := by
  have hnodup : (neighbours.map (c + ·)).Nodup :=
    List.Nodup.map (add_right_injective c) (by decide)
  rw [Transport.received, Finset.sum_filter, near, List.sum_toFinset _ hnodup, List.map_map,
    ← List.sum_map_mul_right]
  congr 1
  refine List.map_congr_left fun dir _ => ?_
  simp only [Function.comp_apply, sharing, share, ite_mul, zero_mul]
  refine if_ctx_congr Iff.rfl (fun hto => ?_) fun _ => rfl
  -- the sender is read as it is, unless it is the data texel, which does not flow here
  rw [seen_of_ne]
  rintro heq
  rw [heq] at hto
  exact hc hto

/-- What a texel gives is subtracted in its own invocation, and what it receives is added by that of
the receiver, from the same samples. Only the data texel sees itself differently. -/
theorem movedAt_eq [IsStrictOrderedRing K] {c : Int × Int}
    (hc : downhill diagonalDist tex (0, 0) ≠ some c) :
    (movedAt diagonalDist tex c).x = (texelFetch tex c).x
        - Transport.given (downhill diagonalDist tex) (share tex Vec4.x) c
        + Transport.received (downhill diagonalDist tex) (share tex Vec4.x) near c ∧
    (movedAt diagonalDist tex c).y = (texelFetch tex c).y
        - Transport.given (downhill diagonalDist tex) (share tex Vec4.y) c
        + Transport.received (downhill diagonalDist tex) (share tex Vec4.y) near c := by
  obtain ⟨hout, hx, hy⟩ := flowAt_eq diagonalDist tex c
  have hlt : FloatLike.lt (flowAt diagonalDist (samples tex c)).outSlope (FloatLike.ofInt 0)
      = true ↔ downhill diagonalDist tex c ≠ none := by
    rw [lt_exact, ofInt_exact, Int.cast_zero]
    exact hout
  rw [received_eq Vec4.x hc, received_eq Vec4.y hc, ← hx, ← hy]
  simp only [movedAt, moved, Transport.given, share]
  -- what is kept is all of it, or what is not given away
  by_cases hnone : downhill diagonalDist tex c = none
  · rw [if_neg fun h => hlt.mp h hnone, if_pos hnone, if_pos hnone, sub_zero, sub_zero]
    exact ⟨rfl, rfl⟩
  · rw [if_pos (hlt.mpr hnone), if_neg hnone, if_neg hnone, ofInt_exact, Int.cast_one]
    constructor <;> ring

/-- What the texels of `S` send to others. -/
def carriedOut (diagonalDist : K) (tex : Texture (Vec4 K)) (part : Vec4 K → K)
    (S : Finset (Int × Int)) : K :=
  ∑ c ∈ S with downhill diagonalDist tex c ≠ none ∧
    ¬ Transport.Into (downhill diagonalDist tex) S c, share tex part c

/-- What those of `N` that are not in `S` send to `S`. -/
def carriedIn (diagonalDist : K) (tex : Texture (Vec4 K)) (part : Vec4 K → K)
    (S N : Finset (Int × Int)) : K :=
  ∑ n ∈ N \ S with Transport.Into (downhill diagonalDist tex) S n, share tex part n

/-- **What flows away from one texel arrives at another.** Over any set of texels: the water and the
sediment there after the flow, and what has left the set, are what was there before and what has
come in. The corner of the texture, which is never read as a neighbour, must not flow into the set.
-/
theorem flow_balance [IsStrictOrderedRing K] (diagonalDist : K) (tex : Texture (Vec4 K))
    {S N : Finset (Int × Int)} (hS : S ⊆ N) (hN : ∀ c ∈ S, ∀ dir ∈ directions, c + dir ∈ N)
    (hcorner : ∀ c ∈ S, downhill diagonalDist tex (0, 0) ≠ some c) :
    ∑ c ∈ S, (movedAt diagonalDist tex c).x + carriedOut diagonalDist tex Vec4.x S
      = ∑ c ∈ S, (texelFetch tex c).x + carriedIn diagonalDist tex Vec4.x S N ∧
    ∑ c ∈ S, (movedAt diagonalDist tex c).y + carriedOut diagonalDist tex Vec4.y S
      = ∑ c ∈ S, (texelFetch tex c).y + carriedIn diagonalDist tex Vec4.y S N := by
  -- whoever flows into the region is in `N`
  have hnear : ∀ c ∈ S, near c ⊆ N := by
    intro c hc n hn
    obtain ⟨dir, hdir, rfl⟩ := mem_near.mp hn
    exact hN c hc dir hdir
  have hfrom := mem_near_of_downhill diagonalDist tex
  constructor
  · rw [Finset.sum_congr rfl fun c hc => (movedAt_eq (hcorner c hc)).1]
    exact Transport.balance (share tex Vec4.x) hfrom hS hnear fun c => (texelFetch tex c).x
  · rw [Finset.sum_congr rfl fun c hc => (movedAt_eq (hcorner c hc)).2]
    exact Transport.balance (share tex Vec4.y) hfrom hS hnear fun c => (texelFetch tex c).y

/-- Water on two steps of a channel between high banks. -/
def stream : Texture (Vec4 ℚ) := fun uv =>
  if uv = (5, 6) then ⟨1, 0, 0, 3⟩
  else if uv = (5, 5) then ⟨1, 0, 0, 2⟩
  else if uv = (5, 4) then ⟨0, 0, 0, 1⟩
  else ⟨0, 0, 0, 9⟩

/-- The lower step and all that is next to it. -/
def aroundStep : Finset (Int × Int) :=
  {(4, 4), (4, 5), (4, 6), (5, 4), (5, 5), (5, 6), (6, 4), (6, 5), (6, 6)}

/-- On the lower step, which takes from the upper one as much as it gives to the ground. -/
theorem flow_balance_stream :
    downhill (7 / 10) stream (5, 6) = some (5, 5) ∧ downhill (7 / 10) stream (5, 5) = some (5, 4) ∧
    carriedIn (7 / 10) stream Vec4.x {(5, 5)} aroundStep = 3 / 10 ∧
    ∑ c ∈ {(5, 5)}, (movedAt (7 / 10) stream c).x + carriedOut (7 / 10) stream Vec4.x {(5, 5)}
      = ∑ c ∈ {(5, 5)}, (texelFetch stream c).x
        + carriedIn (7 / 10) stream Vec4.x {(5, 5)} aroundStep := by
  refine ⟨by decide +kernel, by decide +kernel, by decide +kernel,
    (flow_balance (7 / 10) stream (by decide) (by decide) ?_).1⟩
  intro c hc
  rw [Finset.mem_singleton.mp hc]
  decide +kernel

/-! ### What is left of a texel

`settle` is the rest of the pass. Water and speed are clamped before it, so what it is given is not
negative, and the sediment that is carried away is at most what the water can carry. -/

section Settle

theorem sedimentToHeight_exact : (sedimentToHeight : K) = 3 / 10000 := by
  rw [sedimentToHeight, ofInt_exact, ofInt_exact]
  norm_num

theorem rain_exact : (rain : K) = 1 / 25 := by
  rw [rain, ofInt_exact, ofInt_exact]
  norm_num

theorem sedimentPickUp_exact : (sedimentPickUp : K) = 1 / 10 := by
  rw [sedimentPickUp, ofInt_exact, ofInt_exact]
  norm_num

theorem settle_water (water sediment height speed : K) :
    (settle water sediment height speed).x = water + 1 / 25 := by
  unfold settle
  simp only [rain_exact]
  split <;> rfl

variable [IsStrictOrderedRing K]

theorem speedOf_mem (outSlope : K) : speedOf outSlope ∈ Set.Icc (0 : K) 3 := by
  rw [speedOf, clamp, stdMin_exact, stdMax_exact, ofInt_exact, Int.cast_zero]
  have hmax : (maxWaterSpeed : K) = 3 := by
    rw [maxWaterSpeed, ofInt_exact]
    norm_num
  rw [hmax]
  exact ⟨le_min (le_max_right _ _) (by norm_num), min_le_right _ _⟩

theorem waterLeft_mem (water speed : K) : waterLeft water speed ∈ Set.Icc (0 : K) 100 := by
  have hmax : (maxWater : K) = 100 := by
    rw [maxWater, ofInt_exact]
    norm_num
  have hdrainage : (drainage : K) = 1 := by
    rw [drainage, ofInt_exact, Int.cast_one]
  simp only [waterLeft, stdMin_exact, stdMax_exact, ofInt_exact, Int.cast_zero, hmax, hdrainage]
  refine ⟨le_max_right _ _, max_le ?_ (by norm_num)⟩
  have hle : min (water - evaporation) (100 : K) ≤ 100 := min_le_right _ _
  split
  · linarith
  · exact hle

variable {water sediment height speed : K}

/-- No more sediment than the water can carry. -/
theorem settle_sediment_le : (settle water sediment height speed).y ≤ water * speed := by
  unfold settle
  simp only [stdMin_exact]
  split
  · simp
  · have hpickup : min (min (water * speed - sediment) (height / sedimentToHeight)) sedimentPickUp
        ≤ water * speed - sediment := (min_le_left _ _).trans (min_le_left _ _)
    simp only
    linarith

/-- The height is not negative, unless the pass drops sediment on one that was. -/
theorem settle_height_nonneg (h : 0 ≤ height ∨ sediment ≤ water * speed) :
    0 ≤ (settle water sediment height speed).w := by
  unfold settle
  simp only [stdMin_exact, sedimentToHeight_exact]
  -- a deposit raises the ground, and a pickup is limited by it
  split
  · rename_i hdrops
    have hdrops := lt_exact.mp hdrops
    have hheight := h.resolve_right (not_le_of_gt hdrops)
    have hdeposit : 0 ≤ (sediment - water * speed) * (3 / 10000) :=
      mul_nonneg (sub_nonneg.mpr hdrops.le) (by norm_num)
    exact add_nonneg hheight hdeposit
  · have hpickup : min (min (water * speed - sediment) (height / (3 / 10000))) sedimentPickUp
        ≤ height / (3 / 10000) := (min_le_left _ _).trans (min_le_right _ _)
    rw [le_div_iff₀ (by norm_num)] at hpickup
    exact sub_nonneg.mpr hpickup

/-- A pass wears off at most what it can pick up, -/
theorem settle_height_ge : height - 3 / 100000 ≤ (settle water sediment height speed).w := by
  unfold settle
  simp only [stdMin_exact, sedimentToHeight_exact, sedimentPickUp_exact]
  split
  · rename_i hdrops
    have hdeposit : 0 ≤ (sediment - water * speed) * (3 / 10000) :=
      mul_nonneg (sub_nonneg.mpr (lt_exact.mp hdrops).le) (by norm_num)
    simp only
    linarith
  · have hpickup : min (min (water * speed - sediment) (height / (3 / 10000))) (1 / 10)
        ≤ 1 / 10 := min_le_right _ _
    simp only
    linarith

/-- and drops at most what is there. -/
theorem settle_height_le (hwater : 0 ≤ water) (hspeed : 0 ≤ speed) :
    (settle water sediment height speed).w ≤ max height 0 + max sediment 0 * (3 / 10000) := by
  have hcarried : 0 ≤ water * speed := mul_nonneg hwater hspeed
  have hheight : height ≤ max height 0 := le_max_left _ _
  have hzero : 0 ≤ max height 0 := le_max_right _ _
  have hsediment : sediment ≤ max sediment 0 := le_max_left _ _
  have hsome : 0 ≤ max sediment 0 * (3 / 10000) := mul_nonneg (le_max_right _ _) (by norm_num)
  unfold settle
  simp only [stdMin_exact, sedimentToHeight_exact, sedimentPickUp_exact]
  split
  · simp only
    linarith
  · rename_i hkeeps
    have hkeeps := lt_exact_false.mp (Bool.eq_false_of_not_eq_true hkeeps)
    -- a negative height picks up a negative amount, just enough to bring it to zero
    have hpickup : min 0 height / (3 / 10000)
        ≤ min (min (water * speed - sediment) (height / (3 / 10000))) (1 / 10) := by
      refine le_min (le_min ?_ ?_) ?_
      · exact (div_nonpos_of_nonpos_of_nonneg (min_le_left _ _) (by norm_num)).trans
          (sub_nonneg.mpr hkeeps)
      · exact div_le_div_of_nonneg_right (min_le_right _ _) (by norm_num)
      · exact (div_nonpos_of_nonpos_of_nonneg (min_le_left _ _) (by norm_num)).trans
          (by norm_num)
    rw [div_le_iff₀ (by norm_num)] at hpickup
    have hsum : min 0 height + max height 0 = height := by
      rw [max_comm, min_add_max, zero_add]
    simp only
    linarith

end Settle

/-! ### One pass

`Worn` is what a pass leaves of a texel, and what it keeps once all of them are like that; a texel
outside of the texture is, too. The first pass finds dry texels of any height, and makes them so. -/

/-- The limits of a texel that has been through a pass. -/
structure Worn (texel : Vec4 K) : Prop where
  water_nonneg : 0 ≤ texel.x
  water_le : texel.x ≤ 100 + 1 / 25
  sediment_le : texel.y ≤ 300
  height_nonneg : 0 ≤ texel.w

/-- A texel of a texture that was never eroded. -/
structure Dry (texel : Vec4 K) : Prop where
  water : texel.x = 0
  sediment : texel.y = 0

theorem mainImage_eq (diagonalDist : K) (tex : Texture (Vec4 K)) (uv : Int × Int) :
    ∃ outSlope, mainImage diagonalDist tex uv
      = settle (waterLeft (movedAt diagonalDist tex uv).x (speedOf outSlope))
        (movedAt diagonalDist tex uv).y (texelFetch tex uv).w (speedOf outSlope) :=
  ⟨_, rfl⟩

theorem zeroTexel_dry : Dry (zeroTexel : Vec4 K) := ⟨Int.cast_zero, Int.cast_zero⟩

variable [IsStrictOrderedRing K]

theorem zeroTexel_worn : Worn (zeroTexel : Vec4 K) := by
  have hzero : (FloatLike.ofInt 0 : K) = 0 := Int.cast_zero
  refine ⟨?_, ?_, ?_, ?_⟩ <;> simp only [zeroTexel, hzero] <;> norm_num

/-- What is made of water and sediment, however much there is of either. -/
theorem settle_worn {water sediment height speed : K} (hwater : water ∈ Set.Icc (0 : K) 100)
    (hspeed : speed ∈ Set.Icc (0 : K) 3) (h : 0 ≤ height ∨ sediment ≤ 0) :
    Worn (settle water sediment height speed) := by
  obtain ⟨hw, hw'⟩ := hwater
  obtain ⟨hs, hs'⟩ := hspeed
  have hcarried : water * speed ≤ 100 * 3 := mul_le_mul hw' hs' hs (by norm_num)
  refine ⟨?_, ?_, settle_sediment_le.trans (by linarith), settle_height_nonneg (h.imp_right ?_)⟩
  · rw [settle_water]
    linarith
  · rw [settle_water]
    linarith
  · intro hdry
    exact hdry.trans (mul_nonneg hw hs)

/-- All eight neighbours may flow to one texel. -/
theorem sum_sharing_le {part : Vec4 K → K} {bound : K} (hbound : 0 ≤ bound)
    (h : ∀ uv, part (texelFetch tex uv) ≤ bound) (uv : Int × Int) :
    (neighbours.map (sharing diagonalDist tex part uv)).sum ≤ 8 * bound := by
  have hle : ∀ v ∈ neighbours.map (sharing diagonalDist tex part uv), v ≤ bound := by
    intro v hv
    obtain ⟨dir, -, rfl⟩ := List.mem_map.mp hv
    unfold sharing
    split
    · exact h _
    · exact hbound
  have hsum := List.sum_le_card_nsmul _ bound hle
  rw [List.length_map, nsmul_eq_mul] at hsum
  exact hsum.trans_eq (by norm_num [neighbours])

/-- A pass changes a height by less than a third. -/
theorem mainImage_worn (diagonalDist : K) (h : ∀ uv, Worn (texelFetch tex uv)) (uv : Int × Int) :
    Worn (mainImage diagonalDist tex uv) ∧
      (texelFetch tex uv).w - 3 / 100000 ≤ (mainImage diagonalDist tex uv).w ∧
      (mainImage diagonalDist tex uv).w ≤ (texelFetch tex uv).w + 153 / 500 := by
  obtain ⟨outSlope, heq⟩ := mainImage_eq diagonalDist tex uv
  have hwater := waterLeft_mem (movedAt diagonalDist tex uv).x (speedOf outSlope)
  have hspeed := speedOf_mem outSlope
  rw [heq]
  refine ⟨settle_worn hwater hspeed (.inl (h uv).height_nonneg), settle_height_ge, ?_⟩
  refine (settle_height_le hwater.1 hspeed.1).trans ?_
  -- what flows in is from eight neighbours at most
  have hin : (flowAt diagonalDist (samples tex uv)).inFlow.y ≤ 8 * 300 := by
    rw [(flowAt_eq diagonalDist tex uv).2.2]
    exact sum_sharing_le (by norm_num) (fun uv => (h uv).sediment_le) uv
  have hkept : (movedAt diagonalDist tex uv).y ≤ 1020 := by
    have hhere := (h uv).sediment_le
    simp only [movedAt, moved, flowRate_exact, ofInt_exact, Int.cast_one]
    split <;> simp only <;> linarith
  have hsediment : max (movedAt diagonalDist tex uv).y 0 ≤ 1020 := max_le hkept (by norm_num)
  rw [max_eq_left (h uv).height_nonneg]
  linarith

/-- The first pass brings heights below zero to zero. -/
theorem mainImage_dry (diagonalDist : K) (h : ∀ uv, Dry (texelFetch tex uv)) (uv : Int × Int) :
    Worn (mainImage diagonalDist tex uv) ∧
      (texelFetch tex uv).w - 3 / 100000 ≤ (mainImage diagonalDist tex uv).w ∧
      (mainImage diagonalDist tex uv).w ≤ max (texelFetch tex uv).w 0 := by
  obtain ⟨outSlope, heq⟩ := mainImage_eq diagonalDist tex uv
  have hwater := waterLeft_mem (movedAt diagonalDist tex uv).x (speedOf outSlope)
  have hspeed := speedOf_mem outSlope
  -- there is no sediment to flow here, so nothing is deposited
  have hin : (flowAt diagonalDist (samples tex uv)).inFlow.y = 0 := by
    rw [(flowAt_eq diagonalDist tex uv).2.2]
    refine List.sum_eq_zero fun v hv => ?_
    obtain ⟨dir, -, rfl⟩ := List.mem_map.mp hv
    unfold sharing
    split
    · exact (h _).sediment
    · rfl
  have hmoved : (movedAt diagonalDist tex uv).y = 0 := by
    simp only [movedAt, moved, hin, (h uv).sediment, zero_mul, add_zero]
    split <;> rfl
  rw [heq, hmoved]
  refine ⟨settle_worn hwater hspeed (.inr le_rfl), settle_height_ge, ?_⟩
  refine (settle_height_le hwater.1 hspeed.1).trans_eq ?_
  rw [max_self, zero_mul, add_zero]

end Exact

end Erosion

end MapBg
