import Mathlib.Algebra.Order.Floor.Ring
import Mathlib.Algebra.Order.Field.Power
import Mathlib.Order.Interval.Set.Basic
import Mathlib.Tactic.FieldSimp
import Mathlib.Tactic.Linarith
import Mathlib.Tactic.Ring
import MapBg.Lib.Extreme
import MapBg.Lib.Grid
import MapBg.Loc.Box

/-!
# Boxes, in exact arithmetic

Some of the geometry is right only if it is not rounded, and is worth proving right then. Exact
arithmetic is any ordered field with a floor, such as the rational or the real numbers. It is
`FloatLike`, so what the model computes in it is an instance of the model, and what is known of
boxes there is the geometry one expects: a cell is a cube of side `extent`.

A box is also a set of points, with or without its faces. gmtl counts the faces in; the boxes of the
octree fill the space without overlap if the upper ones are left out. The distance from a plane and
the depth from the camera are linear in the point, so that over a box they are largest and smallest
at the corners `high` and `low`.
-/

set_option autoImplicit false

namespace MapBg

namespace AABox

section Points

variable {K : Type} [Preorder K]

/-- The box with its faces: what the tests of `gmtl` take a box to be. -/
def closed (box : AABox K) : Set (Point3 K) :=
  {p | p.x ∈ Set.Icc box.min.x box.max.x ∧ p.y ∈ Set.Icc box.min.y box.max.y ∧
    p.z ∈ Set.Icc box.min.z box.max.z}

/-- The box without its upper faces, so that boxes side by side have no point in common. -/
def halfOpen (box : AABox K) : Set (Point3 K) :=
  {p | p.x ∈ Set.Ico box.min.x box.max.x ∧ p.y ∈ Set.Ico box.min.y box.max.y ∧
    p.z ∈ Set.Ico box.min.z box.max.z}

/-- The box without any of its faces. -/
def interior (box : AABox K) : Set (Point3 K) :=
  {p | p.x ∈ Set.Ioo box.min.x box.max.x ∧ p.y ∈ Set.Ioo box.min.y box.max.y ∧
    p.z ∈ Set.Ioo box.min.z box.max.z}

/-- The right way round, so that it is not empty. -/
def Valid (box : AABox K) : Prop :=
  box.min.x ≤ box.max.x ∧ box.min.y ≤ box.max.y ∧ box.min.z ≤ box.max.z

/-- One box in another; the faces may coincide. -/
def Inside (box outer : AABox K) : Prop :=
  (outer.min.x ≤ box.min.x ∧ box.max.x ≤ outer.max.x) ∧
  (outer.min.y ≤ box.min.y ∧ box.max.y ≤ outer.max.y) ∧
  (outer.min.z ≤ box.min.z ∧ box.max.z ≤ outer.max.z)

theorem Inside.closed_subset {box outer : AABox K} (h : box.Inside outer) :
    box.closed ⊆ outer.closed := fun _ hp =>
  ⟨Set.Icc_subset_Icc h.1.1 h.1.2 hp.1, Set.Icc_subset_Icc h.2.1.1 h.2.1.2 hp.2.1,
    Set.Icc_subset_Icc h.2.2.1 h.2.2.2 hp.2.2⟩

end Points

section Corners

variable {K : Type} [Ring K] [LinearOrder K] {box : AABox K}

/-- The corner of the box that is farthest in a direction. -/
def high (box : AABox K) (n : Point3 K) : Point3 K :=
  ⟨Extreme.high n.x box.min.x box.max.x, Extreme.high n.y box.min.y box.max.y,
    Extreme.high n.z box.min.z box.max.z⟩

/-- The corner of a box that is furthest back against the direction `n`. -/
def low (box : AABox K) (n : Point3 K) : Point3 K :=
  ⟨Extreme.low n.x box.min.x box.max.x, Extreme.low n.y box.min.y box.max.y,
    Extreme.low n.z box.min.z box.max.z⟩

theorem high_mem (h : box.Valid) (n : Point3 K) : box.high n ∈ box.closed :=
  ⟨Extreme.high_mem n.x h.1, Extreme.high_mem n.y h.2.1, Extreme.high_mem n.z h.2.2⟩

theorem low_mem (h : box.Valid) (n : Point3 K) : box.low n ∈ box.closed :=
  ⟨Extreme.low_mem n.x h.1, Extreme.low_mem n.y h.2.1, Extreme.low_mem n.z h.2.2⟩

theorem high_mem_corners (box : AABox K) (n : Point3 K) : box.high n ∈ corners box := by
  unfold high Extreme.high
  split_ifs <;> simp [corners]

theorem low_mem_corners (box : AABox K) (n : Point3 K) : box.low n ∈ corners box := by
  unfold low Extreme.low
  split_ifs <;> simp [corners]

end Corners

end AABox

/-- On no axis farther than `b` from the origin of the world. -/
def Point3.Within {K : Type} [AddGroup K] [Lattice K] (b : K) (p : Point3 K) : Prop :=
  |p.x| ≤ b ∧ |p.y| ≤ b ∧ |p.z| ≤ b

section Exact

variable {K : Type} [Field K] [LinearOrder K] [FloorRing K]

/-- The conversion to `int` drops the fraction. -/
instance (priority := low) instFloatLikeExact : FloatLike K where
  lt a b := decide (a < b)
  ofInt n := n
  toInt f := if 0 ≤ f then ⌊f⌋ else ⌈f⌉
  powf2 n := 2 ^ n
  maxVal := (2 ^ 24 - 1) * 2 ^ 104

/-- From here on, what each operation of `FloatLike` is in exact arithmetic. The proofs over fields
rewrite with these and see only field operations. -/
theorem lt_exact {a b : K} : FloatLike.lt a b = true ↔ a < b := decide_eq_true_iff

theorem lt_exact_false {a b : K} : FloatLike.lt a b = false ↔ b ≤ a := by
  rw [← not_lt, ← lt_exact, Bool.not_eq_true]

theorem ofInt_exact (n : Int) : (FloatLike.ofInt n : K) = n := rfl

/-- `(int)f` cuts off towards zero, which is down only for what is not negative. -/
theorem toInt_of_nonneg {f : K} (h : 0 ≤ f) : FloatLike.toInt f = ⌊f⌋ := if_pos h

theorem toInt_intCast [IsStrictOrderedRing K] (n : Int) : FloatLike.toInt (n : K) = n := by
  show (if 0 ≤ (n : K) then ⌊(n : K)⌋ else ⌈(n : K)⌉) = n
  rw [Int.floor_intCast, Int.ceil_intCast, ite_self]

theorem half_exact : (FloatLike.powf2 (-1) : K) = 1 / 2 := by
  show (2 : K) ^ (-1 : Int) = 1 / 2
  rw [zpow_neg_one, one_div]

/-- Without NaN there is no difference between `std::min` and the minimum. -/
theorem stdMin_exact (a b : K) : stdMin a b = min a b := by
  rw [min_comm, min_def_lt]
  exact if_congr lt_exact rfl rfl

theorem stdMax_exact (a b : K) : stdMax a b = max a b := by
  rw [max_def_lt]
  exact if_congr lt_exact rfl rfl

theorem mathAbs_exact [IsStrictOrderedRing K] (v : K) : mathAbs v = |v| := by
  unfold mathAbs
  split
  · next h => exact (abs_of_neg (by simpa [ofInt_exact] using lt_exact.mp h)).symm
  · next h =>
    have h := lt_exact_false.mp (Bool.not_eq_true _ ▸ h)
    exact (abs_of_nonneg (by simpa [ofInt_exact] using h)).symm

/-- No axis separates the boxes. -/
theorem intersect_exact {box1 box2 : AABox K} : intersect box1 box2 = true ↔
    (box1.min.x ≤ box2.max.x ∧ box2.min.x ≤ box1.max.x) ∧
    (box1.min.y ≤ box2.max.y ∧ box2.min.y ≤ box1.max.y) ∧
    (box1.min.z ≤ box2.max.z ∧ box2.min.z ≤ box1.max.z) := by
  simp only [intersect, Bool.if_false_left, Bool.and_true, Bool.and_eq_true, Bool.not_eq_true',
    Bool.decide_eq_true, lt_exact_false]
  tauto

theorem intersect_mono {box1 box outer : AABox K} (h : box.Inside outer)
    (hmeet : intersect box1 box = true) : intersect box1 outer = true := by
  obtain ⟨⟨hx, hx'⟩, ⟨hy, hy'⟩, hz, hz'⟩ := h
  rw [intersect_exact] at hmeet ⊢
  obtain ⟨⟨mx, mx'⟩, ⟨my, my'⟩, mz, mz'⟩ := hmeet
  exact ⟨⟨mx.trans hx', hx.trans mx'⟩, ⟨my.trans hy', hy.trans my'⟩, mz.trans hz', hz.trans mz'⟩

/-- The test of the source takes the faces as part of the box. -/
theorem intersectPoint_exact {box : AABox K} {p : Point3 K} :
    intersectPoint box p = true ↔ p ∈ box.closed := by
  simp only [intersectPoint, Bool.if_false_left, Bool.and_true, Bool.and_eq_true,
    Bool.not_eq_true', Bool.decide_eq_true, lt_exact_false, AABox.closed, Set.mem_ofPred_eq,
    Set.mem_Icc]
  tauto

theorem intersectPoint_of_interior {box : AABox K} {p : Point3 K} (h : p ∈ box.interior) :
    intersectPoint box p = true := by
  obtain ⟨hx, hy, hz⟩ := h
  exact intersectPoint_exact.mpr ⟨Set.Ioo_subset_Icc_self hx, Set.Ioo_subset_Icc_self hy,
    Set.Ioo_subset_Icc_self hz⟩

/-- A length `v` of a whole `e` that is cut into `n` steps: the number of the step it ends in. -/
theorem floor_mul_div [IsStrictOrderedRing K] {v e : K} {n : Nat} (hn : 0 < n) (hv : 0 ≤ v)
    (he : v < e) : 0 ≤ ⌊v * (n / e)⌋ ∧ ⌊v * (n / e)⌋ < n ∧
      ⌊v * (n / e)⌋ * (e / n) ≤ v ∧ v < ⌊v * (n / e)⌋ * (e / n) + e / n := by
  have hn : (0 : K) < n := Nat.cast_pos.mpr hn
  have hstep : 0 < e / n := div_pos (hv.trans_lt he) hn
  have hquot : ⌊v * (n / e)⌋ = Grid.step (e / n) v := by
    rw [Grid.step, div_div_eq_mul_div, mul_div_assoc]
  obtain ⟨hle, hlt⟩ := (Grid.step_eq_iff hstep).mp (rfl : Grid.step (e / n) v = _)
  rw [hquot]
  refine ⟨Int.floor_nonneg.mpr (div_nonneg hv hstep.le), ?_, hle, ?_⟩
  · have hwhole : e = n * (e / n) := by field_simp
    have hbelow := hle.trans_lt (he.trans_eq hwhole)
    exact_mod_cast lt_of_mul_lt_mul_right hbelow hstep.le
  · rw [← add_one_mul]
    exact hlt

/-! ## Linear functions over a box -/

theorem dot_exact (v w : Point3 K) : dot v w = v.z * w.z + (v.y * w.y + v.x * w.x) := rfl

namespace AABox

variable [IsStrictOrderedRing K] {box : AABox K} {p : Point3 K}

/-- Along a direction, no point of a box is further than this corner; a plane or a distance can be
tested there. -/
theorem dot_le_high (h : p ∈ box.closed) (n : Point3 K) : dot n p ≤ dot n (box.high n) := by
  obtain ⟨hx, hy, hz⟩ := h
  rw [dot_exact, dot_exact]
  exact add_le_add (Extreme.mul_le_high hz)
    (add_le_add (Extreme.mul_le_high hy) (Extreme.mul_le_high hx))

theorem low_le_dot (h : p ∈ box.closed) (n : Point3 K) : dot n (box.low n) ≤ dot n p := by
  obtain ⟨hx, hy, hz⟩ := h
  rw [dot_exact, dot_exact]
  exact add_le_add (Extreme.low_le_mul hz)
    (add_le_add (Extreme.low_le_mul hy) (Extreme.low_le_mul hx))

end AABox

namespace Loc

/-- The side of the cell. -/
def extent (a : Loc) : K := 2 ^ (8 - a.l)

theorem extent_pos [IsStrictOrderedRing K] (a : Loc) : 0 < (a.extent : K) := zpow_pos two_pos _

/-- The lower end of the `i`-th of the cells of this size, on any axis. -/
def edge (a : Loc) (i : Int) : K := -128 + i * a.extent

theorem getBBox_exact (a : Loc) : (a.getBBox : AABox K)
    = ⟨⟨a.edge a.x, a.edge a.y, a.edge a.z⟩,
        ⟨a.edge (a.x + 1), a.edge (a.y + 1), a.edge (a.z + 1)⟩⟩ := by
  have horigin : ((origin : Int) : K) = -128 := by norm_num [origin]
  simp only [getBBox, edge, ← horigin]
  rfl

theorem edge_succ (a : Loc) (i : Int) : (a.edge (i + 1) : K) = a.edge i + a.extent := by
  rw [edge, edge, Int.cast_add, Int.cast_one]
  ring

theorem edge_sub (a : Loc) (i : Int) : (a.edge (i + 1) - a.edge i : K) = a.extent := by
  rw [edge_succ, add_sub_cancel_left]

theorem edge_lt (a : Loc) [IsStrictOrderedRing K] (i : Int) : (a.edge i : K) < a.edge (i + 1) := by
  rw [edge_succ]
  exact lt_add_of_pos_right _ (extent_pos a)

/-- The box of a cell is never inside out, at any level. -/
theorem valid_getBBox [IsStrictOrderedRing K] (a : Loc) : (a.getBBox : AABox K).Valid := by
  rw [getBBox_exact]
  exact ⟨(edge_lt a a.x).le, (edge_lt a a.y).le, (edge_lt a a.z).le⟩

end Loc

end Exact

end MapBg
