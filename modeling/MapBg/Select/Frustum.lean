import Mathlib.Data.Rat.Floor
import Mathlib.Order.Bounds.Basic
import MapBg.Loc.Nesting
import MapBg.Select.View

/-!
# `FrustumTiles::Contains`: which boxes are in view

A frustum is six planes, and a box is tested against one after the other. For each the test looks
at two corners only: the one farthest along the normal, `positive`, and the one opposite,
`negative`. If the first is behind the plane the box is `disjoint`, and the loop is left; if only
the second is, the answer will be `intersects` unless a later plane says `disjoint`.

In exact arithmetic the two corners are where the distance from the plane is largest and smallest
over the box (`isGreatest_positive`, `isLeast_negative`), so a single plane is judged exactly. All
six together are not: a box that crosses two planes outside the edge where they meet is behind
neither, and counts as in view. The error is to the safe side, and a larger box is never `disjoint`
when a smaller one is not. For the octree this means that on the way down to a cell in view nothing
is left out (`frustum_exact`), and that what is selected, if anything is, covers every cell of the
finest level that is in view (`covered_of_visible`).
-/

set_option autoImplicit false

namespace MapBg

/-- `gmtl::Planef`, as `FrustumTiles` uses it: a normal, and the offset along it. -/
structure Plane (F : Type) where
  norm : Point3 F
  offset : F

/-- `gmtl::Frustumf`. The inside is in front of all six planes. -/
structure Frustum (F : Type) where
  planes : Vector (Plane F) 6

inductive ContainmentType where
  | disjoint
  | contains
  | intersects
  deriving DecidableEq, Repr

namespace FrustumTiles

/-! ## The code -/

section Code

variable {F : Type} [FloatLike F]

/-- The distance of a point from a plane, negative behind it; in units of the normal. -/
def absDistance (plane : Plane F) (pt : Point3 F) : F := dot plane.norm pt + plane.offset

variable [LE F] [DecidableLE F]

/-- The corner of the box that is furthest in front of the plane. -/
def positive (plane : Plane F) (box : AABox F) : Point3 F :=
  let zero : F := FloatLike.ofInt 0
  ⟨if plane.norm.x ≥ zero then box.max.x else box.min.x,
    if plane.norm.y ≥ zero then box.max.y else box.min.y,
    if plane.norm.z ≥ zero then box.max.z else box.min.z⟩

/-- The corner that is furthest behind it. -/
def negative (plane : Plane F) (box : AABox F) : Point3 F :=
  let zero : F := FloatLike.ofInt 0
  ⟨if plane.norm.x ≥ zero then box.min.x else box.max.x,
    if plane.norm.y ≥ zero then box.min.y else box.max.y,
    if plane.norm.z ≥ zero then box.min.z else box.max.z⟩

/-- The loop over the planes. A plane that has the box behind it decides at once. -/
def containsLoop (box : AABox F) : List (Plane F) → ContainmentType → ContainmentType
  | [], result => result
  | plane :: planes, result =>
    if FloatLike.lt (absDistance plane (positive plane box)) (FloatLike.ofInt 0) then .disjoint
    else if FloatLike.lt (absDistance plane (negative plane box)) (FloatLike.ofInt 0) then
      containsLoop box planes .intersects
    else containsLoop box planes result

/-- `FrustumTiles::Contains`. -/
def contains (f : Frustum F) (box : AABox F) : ContainmentType :=
  containsLoop box f.planes.toList .contains

/-- The view of a frustum: a child is visited if its box is not disjoint from it, or meets the
player's. What level of detail is wanted does not matter here. -/
def view (f : Frustum F) (playerBounds : AABox F) (targetLodForLoc : Loc → Int) (maxlod : Int) :
    View where
  targetLodForLoc
  relevant childLoc :=
    contains f childLoc.getBBox ≠ .disjoint || intersect playerBounds childLoc.getBBox
  maxlod

/-! ## The loop -/

variable {box : AABox F} {planes : List (Plane F)} {result : ContainmentType}

/-- By induction on the planes; the result so far is carried along and makes no difference. -/
theorem containsLoop_eq_disjoint_iff (hresult : result ≠ .disjoint) :
    containsLoop box planes result = .disjoint ↔ ∃ plane ∈ planes,
      FloatLike.lt (absDistance plane (positive plane box)) (FloatLike.ofInt 0) = true := by
  induction planes generalizing result with
  | nil => simpa [containsLoop] using hresult
  | cons plane planes ih =>
    rw [containsLoop, List.exists_mem_cons_iff]
    split
    · rename_i hbehind
      exact iff_of_true rfl (.inl hbehind)
    · rename_i hfront
      rw [or_iff_right hfront]
      split
      · exact ih (by decide)
      · exact ih hresult

/-- One `intersects` and the answer is no longer `contains`. -/
theorem containsLoop_eq_contains_iff :
    containsLoop box planes result = .contains ↔ result = .contains ∧ ∀ plane ∈ planes,
      FloatLike.lt (absDistance plane (positive plane box)) (FloatLike.ofInt 0) = false ∧
      FloatLike.lt (absDistance plane (negative plane box)) (FloatLike.ofInt 0) = false := by
  induction planes generalizing result with
  | nil => simp [containsLoop]
  | cons plane planes ih =>
    rw [containsLoop, List.forall_mem_cons]
    split
    · rename_i hbehind
      exact iff_of_false (by decide) fun h => absurd hbehind (by simp [h.2.1.1])
    · rename_i hfront
      split
      -- once it is `intersects`, it does not become `contains` again
      · rename_i hcrossed
        rw [ih]
        exact iff_of_false (fun h => absurd h.1 (by decide)) fun h =>
          absurd hcrossed (by simp [h.2.1.2])
      · rename_i hinside
        have hplane := And.intro (Bool.eq_false_of_not_eq_true hfront)
          (Bool.eq_false_of_not_eq_true hinside)
        rw [ih, and_iff_right hplane]

end Code

/-! ## One plane -/

section Exact

variable {K : Type} [Field K] [LinearOrder K] [FloorRing K] {box : AABox K}

/-- The corners are those where a linear function is extreme. -/
theorem positive_eq (plane : Plane K) (box : AABox K) :
    positive plane box = box.high plane.norm := by
  simp only [positive, AABox.high, Extreme.high, ofInt_exact, Int.cast_zero, ge_iff_le]

theorem negative_eq (plane : Plane K) (box : AABox K) :
    negative plane box = box.low plane.norm := by
  simp only [negative, AABox.low, Extreme.low, ofInt_exact, Int.cast_zero, ge_iff_le]

variable [IsStrictOrderedRing K]

theorem isGreatest_positive (h : box.Valid) (plane : Plane K) :
    IsGreatest (absDistance plane '' box.closed) (absDistance plane (positive plane box)) := by
  rw [positive_eq]
  refine ⟨⟨_, AABox.high_mem h _, rfl⟩, ?_⟩
  rintro _ ⟨p, hp, rfl⟩
  exact add_le_add_left (AABox.dot_le_high hp plane.norm) plane.offset

theorem isLeast_negative (h : box.Valid) (plane : Plane K) :
    IsLeast (absDistance plane '' box.closed) (absDistance plane (negative plane box)) := by
  rw [negative_eq]
  refine ⟨⟨_, AABox.low_mem h _, rfl⟩, ?_⟩
  rintro _ ⟨p, hp, rfl⟩
  exact add_le_add_left (AABox.low_le_dot hp plane.norm) plane.offset

theorem positive_lt_iff (h : box.Valid) (plane : Plane K) :
    FloatLike.lt (absDistance plane (positive plane box)) (FloatLike.ofInt 0) = true ↔
      ∀ p ∈ box.closed, absDistance plane p < 0 := by
  rw [lt_exact, ofInt_exact, Int.cast_zero, (isGreatest_positive h plane).lt_iff,
    Set.forall_mem_image]

theorem negative_lt_iff (h : box.Valid) (plane : Plane K) :
    FloatLike.lt (absDistance plane (negative plane box)) (FloatLike.ofInt 0) = false ↔
      ∀ p ∈ box.closed, 0 ≤ absDistance plane p := by
  rw [lt_exact_false, ofInt_exact, Int.cast_zero, le_isGLB_iff (isLeast_negative h plane).isGLB,
    mem_lowerBounds, Set.forall_mem_image]

/-! ## All six, and the octree -/

theorem contains_eq_disjoint_iff (f : Frustum K) (h : box.Valid) :
    contains f box = .disjoint ↔ ∃ plane ∈ f.planes, ∀ p ∈ box.closed, absDistance plane p < 0 := by
  rw [contains, containsLoop_eq_disjoint_iff (by decide)]
  simp only [Vector.mem_toList_iff, positive_lt_iff h]

theorem contains_eq_contains_iff (f : Frustum K) (h : box.Valid) :
    contains f box = .contains ↔ ∀ plane ∈ f.planes, ∀ p ∈ box.closed, 0 ≤ absDistance plane p := by
  rw [contains, containsLoop_eq_contains_iff]
  simp only [Vector.mem_toList_iff, negative_lt_iff h, true_and]
  refine forall₂_congr fun plane _ => and_iff_right_of_imp fun hall => ?_
  have hpos := hall _ (AABox.high_mem h plane.norm)
  rw [lt_exact_false, positive_eq, ofInt_exact, Int.cast_zero]
  exact hpos

/-- A larger box is not `disjoint` either. -/
theorem contains_mono (f : Frustum K) {outer : AABox K} (h : box.Valid) (houter : outer.Valid)
    (hsub : box.closed ⊆ outer.closed) (hbox : contains f box ≠ .disjoint) :
    contains f outer ≠ .disjoint := by
  rw [Ne, contains_eq_disjoint_iff f houter]
  rintro ⟨plane, hplane, hbehind⟩
  exact hbox ((contains_eq_disjoint_iff f h).mpr ⟨plane, hplane, fun p hp => hbehind p (hsub hp)⟩)

/-- What is in view stays in view further up, so the search gets to it. -/
theorem relevant_of_atOrAbove (f : Frustum K) (playerBounds : AABox K) (lod : Loc → Int)
    (maxlod : Int) {a b : Loc} (h : a.AtOrAbove b)
    (hb : (view f playerBounds lod maxlod).relevant b = true) :
    (view f playerBounds lod maxlod).relevant a = true := by
  have hin : (b.getBBox : AABox K).Inside a.getBBox := Loc.inside_of_atOrAbove h
  simp only [view, Bool.or_eq_true, decide_eq_true_eq] at hb ⊢
  refine hb.imp ?_ (intersect_mono hin)
  exact contains_mono f b.valid_getBBox a.valid_getBBox hin.closed_subset

/-- The cells above one in view. -/
theorem relevant_of_visible (f : Frustum K) (playerBounds : AABox K) (lod : Loc → Int)
    (maxlod : Int) {a d : Loc} (hanc : Loc.forest.Anc a d)
    (hvisible : contains f (d.getBBox : AABox K) ≠ .disjoint) :
    (view f playerBounds lod maxlod).relevant a = true := by
  refine relevant_of_atOrAbove f playerBounds lod maxlod (Loc.atOrAbove_iff.mpr hanc) ?_
  simp [view, hvisible]

/-- A finest cell that the frustum does not miss has exactly one selected cell above it, unless
nothing is selected at all. -/
theorem covered_of_visible (f : Frustum K) (playerBounds : AABox K) (lod : Loc → Int)
    {maxlod : Int} (hmax : 0 ≤ maxlod) (hne : (view f playerBounds lod maxlod).get [] ≠ [])
    {d : Loc} (hroot : Loc.forest.Anc .root d) (hleaf : d.l = maxlod)
    (hvisible : contains f (d.getBBox : AABox K) ≠ .disjoint) :
    ∃! a, a ∈ (view f playerBounds lod maxlod).get [] ∧ Loc.forest.Anc a d := by
  have hcover := (View.get_cover (v := view f playerBounds lod maxlod) hmax).resolve_left hne
  exact hcover.existsUnique hroot hleaf fun a ha _ =>
    relevant_of_visible f playerBounds lod maxlod ha hvisible

/-- **The test is exact for each plane, errs to the safe side for six, and on the way to a cell in
view the walk leaves nothing out.** -/
theorem frustum_exact (f : Frustum K) (h : box.Valid) :
    (contains f box = .disjoint ↔
      ∃ plane ∈ f.planes, ∀ p ∈ box.closed, absDistance plane p < 0) ∧
    (contains f box = .contains ↔
      ∀ p ∈ box.closed, ∀ plane ∈ f.planes, 0 ≤ absDistance plane p) ∧
    (∀ p ∈ box.closed, (∀ plane ∈ f.planes, 0 ≤ absDistance plane p) →
      contains f box ≠ .disjoint) ∧
    (∀ outer : AABox K, box.closed ⊆ outer.closed → contains f box ≠ .disjoint →
      contains f outer ≠ .disjoint) ∧
    ∀ (playerBounds : AABox K) (lod : Loc → Int) (maxlod : Int) (start d : Loc),
      Loc.forest.Anc start d → contains f (d.getBBox : AABox K) ≠ .disjoint →
      (∀ a, Loc.forest.Anc a d → (view f playerBounds lod maxlod).relevant a = true) ∧
      Loc.forest.Reached ((view f playerBounds lod maxlod).relevant · = true) start d := by
  refine ⟨contains_eq_disjoint_iff f h, ?_, ?_, ?_, ?_⟩
  · rw [contains_eq_contains_iff f h]
    exact ⟨fun hall p hp plane hplane => hall plane hplane p hp,
      fun hall plane hplane p hp => hall p hp plane hplane⟩
  · intro p hp hfront hdisjoint
    obtain ⟨plane, hplane, hbehind⟩ := (contains_eq_disjoint_iff f h).mp hdisjoint
    exact absurd (hfront plane hplane) (not_le_of_gt (hbehind p hp))
  -- a corner of the inner box shows that the outer one is not inside out
  · intro outer hsub
    obtain ⟨hx, hy, hz⟩ := hsub (AABox.high_mem h ⟨0, 0, 0⟩)
    exact contains_mono f h ⟨hx.1.trans hx.2, hy.1.trans hy.2, hz.1.trans hz.2⟩ hsub
  · intro playerBounds lod maxlod start d hanc hvisible
    have hrel : ∀ a, Loc.forest.Anc a d → (view f playerBounds lod maxlod).relevant a = true :=
      fun a ha => relevant_of_visible f playerBounds lod maxlod ha hvisible
    exact ⟨hrel, hanc.reached fun a ha _ => hrel a ha⟩

/-- The cube between -1 and 1, with its inside in front. -/
def cube : Frustum Rat where
  planes := #v[⟨⟨1, 0, 0⟩, 1⟩, ⟨⟨-1, 0, 0⟩, 1⟩, ⟨⟨0, 1, 0⟩, 1⟩, ⟨⟨0, -1, 0⟩, 1⟩, ⟨⟨0, 0, 1⟩, 1⟩,
    ⟨⟨0, 0, -1⟩, 1⟩]

theorem frustum_exact_cube : AABox.Valid (⟨⟨0, 0, 0⟩, ⟨3, 1, 1⟩⟩ : AABox Rat) ∧
    contains cube ⟨⟨0, 0, 0⟩, ⟨3, 1, 1⟩⟩ ≠ .disjoint ∧
    contains cube ⟨⟨0, 0, 0⟩, ⟨3, 1, 1⟩⟩ ≠ .contains := by
  have hvalid : AABox.Valid (⟨⟨0, 0, 0⟩, ⟨3, 1, 1⟩⟩ : AABox Rat) := by
    simp [AABox.Valid]
  obtain ⟨-, hcontains, hseen, -, -⟩ := frustum_exact cube hvalid
  have hmem : ∀ x : Rat, 0 ≤ x → x ≤ 3 →
      (⟨x, 0, 0⟩ : Point3 Rat) ∈ (⟨⟨0, 0, 0⟩, ⟨3, 1, 1⟩⟩ : AABox Rat).closed := fun x hx hx' =>
    ⟨⟨hx, hx'⟩, ⟨le_refl 0, zero_le_one⟩, le_refl 0, zero_le_one⟩
  refine ⟨hvalid, hseen ⟨0, 0, 0⟩ (hmem 0 (by decide) (by decide)) ?_, fun hall => ?_⟩
  · decide +kernel
  · have hout := hcontains.mp hall ⟨3, 0, 0⟩ (hmem 3 (by decide) (by decide)) ⟨⟨-1, 0, 0⟩, 1⟩
      (by simp [cube])
    exact absurd hout (by decide +kernel)

end Exact

end FrustumTiles

end MapBg
