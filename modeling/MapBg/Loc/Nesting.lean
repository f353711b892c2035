import Mathlib.Data.Set.Lattice
import MapBg.Loc.Address
import MapBg.Loc.Exact

/-!
# Boxes nest as addresses do

On every level the boxes of the cells are the steps of a grid, on each of the three axes, and the
steps of a level are half as long as those of the level above. So without its upper faces a box
holds exactly the points whose cell of that level it is (`mem_halfOpen_iff`), and a point's cell of
a coarser level is the ancestor of its cell of a finer one (`parentAtLevel_cellAt`). Everything else
follows from these two: boxes that have a point in common are boxes of cells above one another, the
box of a descendant lies in that of its ancestor, and the children cut the box of their parent.

None of this needs the cells to be inside the world.
-/

set_option autoImplicit false

namespace MapBg

namespace Loc

variable {K : Type} [Field K] [LinearOrder K] [FloorRing K]

/-- The cell of a level that a point is in, counted from the first. -/
def cellAt (l : Int) (p : Point3 K) : Loc :=
  let first : Loc := ⟨0, 0, 0, l⟩
  ⟨Grid.step first.extent (p.x - first.edge 0), Grid.step first.extent (p.y - first.edge 0),
    Grid.step first.extent (p.z - first.edge 0), l⟩

variable [IsStrictOrderedRing K]

theorem mem_Ico_edge {a : Loc} {i : Int} {v : K} :
    v ∈ Set.Ico (a.edge i) (a.edge (i + 1)) ↔ Grid.step a.extent (v - a.edge 0) = i := by
  rw [Grid.step_eq_iff (extent_pos a), Set.mem_Ico, edge, edge, edge, Int.cast_add, Int.cast_one,
    Int.cast_zero]
  constructor <;> intro h <;> constructor <;> linarith [h.1, h.2]

/-- A point is in the box of exactly one cell of each level. -/
theorem mem_halfOpen_iff {a : Loc} {p : Point3 K} :
    p ∈ (a.getBBox : AABox K).halfOpen ↔ cellAt a.l p = a := by
  obtain ⟨x, y, z, l⟩ := a
  rw [getBBox_exact]
  simp only [AABox.halfOpen, Set.mem_ofPred_eq, mem_Ico_edge, cellAt, Loc.mk.injEq, and_true]
  rfl

/-- The cells that a point is in, level by level, are above one another. -/
theorem parentAtLevel_cellAt {k l : Int} (h : k ≤ l) (p : Point3 K) :
    (cellAt l p).parentAtLevel k = cellAt k p := by
  have hsize : ((⟨0, 0, 0, k⟩ : Loc).extent : K)
      = (⟨0, 0, 0, l⟩ : Loc).extent * (2 ^ (l - k).toNat : Nat) := by
    rw [extent, extent, Nat.cast_pow, Nat.cast_ofNat, ← zpow_natCast,
      Int.toNat_of_nonneg (by omega), ← zpow_add₀ two_ne_zero]
    congr 1
    show 8 - k = 8 - l + (l - k)
    omega
  have hfirst : ((⟨0, 0, 0, k⟩ : Loc).edge 0 : K) = (⟨0, 0, 0, l⟩ : Loc).edge 0 := by
    rw [edge, edge, Int.cast_zero, zero_mul, zero_mul]
  rw [parentAtLevel_eq]
  simp only [cellAt, hsize, hfirst, Grid.step_mul]
  push_cast
  rfl

omit [IsStrictOrderedRing K] in
/-- The world, on each axis. -/
theorem edge_root : (root.edge 0 : K) = -128 ∧ (root.edge (0 + 1) : K) = 128 := by
  have hlow : (root.edge 0 : K) = -128 := by
    rw [edge, Int.cast_zero, zero_mul, add_zero]
  refine ⟨hlow, ?_⟩
  rw [edge_succ, hlow]
  norm_num [extent, root]

/-! ## Boxes with a point in common -/

/-- Every cell has a point, without which nesting would say nothing. -/
theorem halfOpen_nonempty (a : Loc) : (a.getBBox : AABox K).halfOpen.Nonempty := by
  have hmem : ∀ i : Int, (a.edge i : K) ∈ Set.Ico (a.edge i : K) (a.edge (i + 1)) := fun i =>
    ⟨le_refl _, edge_lt a i⟩
  rw [getBBox_exact]
  exact ⟨⟨_, _, _⟩, hmem a.x, hmem a.y, hmem a.z⟩

theorem halfOpen_subset {a b : Loc} (h : a.AtOrAbove b) :
    (b.getBBox : AABox K).halfOpen ⊆ (a.getBBox : AABox K).halfOpen := by
  intro p hp
  rw [mem_halfOpen_iff] at hp ⊢
  rw [← parentAtLevel_cellAt h.1, hp, h.2]

/-- The corners of the box follow from its points: move one coordinate at a time. -/
theorem inside_of_atOrAbove {a b : Loc} (h : a.AtOrAbove b) :
    (b.getBBox : AABox K).Inside a.getBBox := by
  obtain ⟨p, hp⟩ := halfOpen_nonempty (K := K) b
  have hsub := halfOpen_subset (K := K) h
  have hx := (Set.Ico_subset_Ico_iff (hp.1.1.trans_lt hp.1.2)).mp fun v hv =>
    (hsub (show (⟨v, p.y, p.z⟩ : Point3 K) ∈ _ from ⟨hv, hp.2.1, hp.2.2⟩)).1
  have hy := (Set.Ico_subset_Ico_iff (hp.2.1.1.trans_lt hp.2.1.2)).mp fun v hv =>
    (hsub (show (⟨p.x, v, p.z⟩ : Point3 K) ∈ _ from ⟨hp.1, hv, hp.2.2⟩)).2.1
  have hz := (Set.Ico_subset_Ico_iff (hp.2.2.1.trans_lt hp.2.2.2)).mp fun v hv =>
    (hsub (show (⟨p.x, p.y, v⟩ : Point3 K) ∈ _ from ⟨hp.1, hp.2.1, hv⟩)).2.2
  exact ⟨hx, hy, hz⟩

/-- Of two boxes with a point in common, the one of the finer level is inside the other. -/
theorem atOrAbove_of_mem {a b : Loc} {p : Point3 K} (ha : p ∈ (a.getBBox : AABox K).halfOpen)
    (hb : p ∈ (b.getBBox : AABox K).halfOpen) (hl : a.l ≤ b.l) : a.AtOrAbove b := by
  rw [mem_halfOpen_iff] at ha hb
  refine ⟨hl, ?_⟩
  rw [← hb, parentAtLevel_cellAt hl, ha]

/-- Two boxes have a point in common only if one cell is above the other. -/
theorem overlap_iff (a b : Loc) :
    ((a.getBBox : AABox K).halfOpen ∩ (b.getBBox : AABox K).halfOpen).Nonempty ↔
      a.AtOrAbove b ∨ b.AtOrAbove a := by
  constructor
  · rintro ⟨p, ha, hb⟩
    rcases Int.le_total a.l b.l with hl | hl
    · exact Or.inl (atOrAbove_of_mem ha hb hl)
    · exact Or.inr (atOrAbove_of_mem hb ha hl)
  · rintro (h | h)
    · obtain ⟨p, hp⟩ := halfOpen_nonempty (K := K) b
      exact ⟨p, halfOpen_subset h hp, hp⟩
    · obtain ⟨p, hp⟩ := halfOpen_nonempty (K := K) a
      exact ⟨p, hp, halfOpen_subset h hp⟩

/-- A point strictly inside one box and anywhere in the other will do. -/
theorem atOrAbove_of_touching {a b : Loc} {p : Point3 K} (ha : p ∈ (a.getBBox : AABox K).interior)
    (hb : p ∈ (b.getBBox : AABox K).closed) : a.AtOrAbove b ∨ b.AtOrAbove a := by
  rw [← overlap_iff (K := K)]
  rw [getBBox_exact] at ha hb ⊢
  rw [getBBox_exact]
  obtain ⟨hax, hay, haz⟩ := ha
  obtain ⟨hbx, hby, hbz⟩ := hb
  have hx := Grid.max_mem_of_touching hax hbx (edge_lt b _)
  have hy := Grid.max_mem_of_touching hay hby (edge_lt b _)
  have hz := Grid.max_mem_of_touching haz hbz (edge_lt b _)
  exact ⟨⟨_, _, _⟩, ⟨hx.1, hy.1, hz.1⟩, hx.2, hy.2, hz.2⟩

/-! ## The children -/

theorem atOrAbove_child {a c : Loc} (h : c ∈ a.children) : a.AtOrAbove c :=
  atOrAbove_iff.mpr (Forest.anc_of_mem_children (F := forest) h)

/-- A box is made up of the boxes of its children. -/
theorem halfOpen_eq_iUnion (a : Loc) : (a.getBBox : AABox K).halfOpen
    = ⋃ c ∈ a.children, (c.getBBox : AABox K).halfOpen := by
  ext p
  simp only [Set.mem_iUnion, exists_prop]
  constructor
  · intro hp
    have hcell : cellAt a.l p = a := mem_halfOpen_iff.mp hp
    refine ⟨cellAt (a.l + 1) p, mem_children.mpr ?_, mem_halfOpen_iff.mpr rfl⟩
    have hl : a.l ≤ a.l + 1 := by omega
    have hone : (a.l + 1 - a.l).toNat = 1 := by omega
    have hup := parentAtLevel_eq_iterate (c := cellAt (a.l + 1) p) hl
    rw [parentAtLevel_cellAt hl, hcell] at hup
    exact (hup.trans (congrArg (parent^[·] _) hone)).symm
  · rintro ⟨c, hc, hp⟩
    exact halfOpen_subset (atOrAbove_child hc) hp

theorem disjoint_children (a : Loc) : a.children.Pairwise fun c d =>
    (c.getBBox : AABox K).halfOpen ∩ (d.getBBox : AABox K).halfOpen = ∅ := by
  refine a.nodup_children.imp_of_mem fun {c d} hc hd hne => ?_
  have hl := (l_of_mem_children hc).trans (l_of_mem_children hd).symm
  refine Set.eq_empty_iff_forall_notMem.mpr fun p ⟨hpc, hpd⟩ => hne ?_
  rw [mem_halfOpen_iff] at hpc hpd
  rw [← hpc, ← hpd, hl]

end Loc

end MapBg
