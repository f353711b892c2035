import MapBg.Loc.Tree

/-!
# Addresses relative to each other

Five operations of `Loc` go up and down the octree, and no two are written alike. `Parent` shifts by
one and `ParentAtLevel` by the difference of the levels; `GetLocal` subtracts the shifted ancestor,
`GetChild` shifts and adds; `GetChildren` lists eight cells. `address_algebra` says that they agree
at every distance: going up at once is going up step by step, the local address is where the cell
is in the block of its ancestor, and what `GetChildren` reaches in as many steps is that block.

A shift by `d` to the right divides by `2 ^ d` and rounds down, so all of this holds of negative
coordinates as well. A shift by a negative count is undefined in the source; here it is a shift by
zero, and nothing is said of it.
-/

set_option autoImplicit false

namespace MapBg

namespace Loc

/-! ## The code -/

/-- `ParentAtLevel`, with one shift for all the levels in between. -/
def parentAtLevel (c : Loc) (l : Int) : Loc :=
  let d := (c.l - l).toNat
  ⟨c.x >>> d, c.y >>> d, c.z >>> d, l⟩

/-- `GetLocal`: an address as seen from a cell above it. -/
def getLocal (c parent : Loc) : Loc :=
  let d := c.l - parent.l
  ⟨c.x - (parent.x <<< d.toNat), c.y - (parent.y <<< d.toNat), c.z - (parent.z <<< d.toNat), d⟩

/-- `GetChild`: the way back. -/
def getChild (a localLoc : Loc) : Loc :=
  let d := localLoc.l.toNat
  ⟨(a.x <<< d) + localLoc.x, (a.y <<< d) + localLoc.y, (a.z <<< d) + localLoc.z, a.l + localLoc.l⟩

/-! ## Going up -/

theorem two_pow_pos (d : Nat) : (0 : Int) < 2 ^ d := Int.pow_pos (by decide)

/-- Going up level by level divides by two each time. -/
theorem iterate_parent (d : Nat) (c : Loc) :
    parent^[d] c = ⟨c.x / 2 ^ d, c.y / 2 ^ d, c.z / 2 ^ d, c.l - d⟩ := by
  induction d with
  | zero => simp
  | succ d ih =>
    have hhalf : ∀ i : Int, i / 2 ^ d / 2 = i / 2 ^ (d + 1) := fun i => by
      rw [Int.ediv_ediv_of_nonneg (Int.le_of_lt (two_pow_pos d)), Int.pow_succ]
    rw [Function.iterate_succ_apply', ih, parent_eq]
    simp only [hhalf, Loc.mk.injEq, true_and]
    push_cast
    omega

theorem parentAtLevel_eq (c : Loc) (l : Int) : c.parentAtLevel l
    = ⟨c.x / 2 ^ (c.l - l).toNat, c.y / 2 ^ (c.l - l).toNat, c.z / 2 ^ (c.l - l).toNat, l⟩ := by
  simp only [parentAtLevel, Int.shiftRight_eq_div_pow]
  push_cast
  rfl

/-- Going up at once is going up step by step. -/
theorem parentAtLevel_eq_iterate {c : Loc} {k : Int} (h : k ≤ c.l) :
    c.parentAtLevel k = parent^[(c.l - k).toNat] c := by
  rw [parentAtLevel_eq, iterate_parent]
  simp only [Loc.mk.injEq, true_and]
  omega

/-- The cell is at or below the other one, which is what `ParentAtLevel` finds on its level. -/
def AtOrAbove (a b : Loc) : Prop := a.l ≤ b.l ∧ b.parentAtLevel a.l = a

/-- The test of the source is the relation of the library. -/
theorem atOrAbove_iff {a b : Loc} : a.AtOrAbove b ↔ forest.Anc a b := by
  constructor
  · rintro ⟨hl, heq⟩
    exact ⟨(b.l - a.l).toNat, (parentAtLevel_eq_iterate hl).symm.trans heq⟩
  · intro h
    have hl : a.l ≤ b.l := h.level_le
    have hup : forest.Anc (b.parentAtLevel a.l) b :=
      ⟨(b.l - a.l).toNat, (parentAtLevel_eq_iterate hl).symm⟩
    exact ⟨hl, hup.eq_of_level_eq h rfl⟩

/-! ## The block below an ancestor -/

/-- What is left of an address when the part of its ancestor is taken off: the remainders. -/
theorem getLocal_eq {c : Loc} {k : Int} (h : k ≤ c.l) : c.getLocal (c.parentAtLevel k)
    = ⟨c.x % 2 ^ (c.l - k).toNat, c.y % 2 ^ (c.l - k).toNat, c.z % 2 ^ (c.l - k).toNat,
        (c.l - k).toNat⟩ := by
  have hrest : ∀ i : Int, i - i / 2 ^ (c.l - k).toNat * 2 ^ (c.l - k).toNat
      = i % 2 ^ (c.l - k).toNat := fun i => by
    have := Int.ediv_mul_add_emod i (2 ^ (c.l - k).toNat)
    omega
  rw [parentAtLevel_eq]
  simp only [getLocal, Int.shiftLeft_eq, hrest, Loc.mk.injEq, true_and]
  omega

/-- One level up, the local address is the low bits. -/
theorem getLocal_parent (c : Loc) : c.getLocal c.parent = ⟨c.x % 2, c.y % 2, c.z % 2, 1⟩ := by
  have hone : (c.l - (c.l - 1)).toNat = 1 := by omega
  have hup : c.parent = c.parentAtLevel (c.l - 1) := by
    rw [parentAtLevel_eq_iterate (by omega), hone]
    rfl
  rw [hup, getLocal_eq (by omega), hone]
  rfl

/-- Up and down again. -/
theorem getChild_getLocal {c a : Loc} (h : a.l ≤ c.l) : a.getChild (c.getLocal a) = c := by
  simp only [getChild, getLocal, Int.shiftLeft_eq]
  cases c
  simp only [Loc.mk.injEq]
  omega

theorem length_children (a : Loc) : a.children.length = 8 := rfl

theorem parentAtLevel_of_mem_descend {a b : Loc} {d : Nat} (h : b ∈ forest.descend d a) :
    b.parentAtLevel a.l = a := by
  have hanc : forest.Anc a b := ⟨d, Forest.mem_descend.mp h⟩
  exact (atOrAbove_iff.mpr hanc).2

/-- **The address operations agree at every distance.** -/
theorem address_algebra (c : Loc) {k : Int} (hk : k ≤ c.l) :
    let a := c.parentAtLevel k
    let d := (c.l - k).toNat
    let b := c.getLocal a
    a = parent^[d] c ∧
    (b.l = d ∧ (0 ≤ b.x ∧ b.x < 2 ^ d) ∧ (0 ≤ b.y ∧ b.y < 2 ^ d) ∧ 0 ≤ b.z ∧ b.z < 2 ^ d) ∧
    a.getChild b = c ∧
    (forest.descend d a).count c = 1 ∧ (forest.descend d a).length = 8 ^ d ∧
    (forest.descend d a).Nodup ∧ ∀ e ∈ forest.descend d a, e.parentAtLevel k = a := by
  intro a d b
  have hup : a = parent^[d] c := parentAtLevel_eq_iterate hk
  have hb : b = ⟨c.x % 2 ^ d, c.y % 2 ^ d, c.z % 2 ^ d, d⟩ := getLocal_eq hk
  have hrest : ∀ i : Int, 0 ≤ i % 2 ^ d ∧ i % 2 ^ d < 2 ^ d := fun i =>
    ⟨Int.emod_nonneg i (Int.ne_of_gt (two_pow_pos d)), Int.emod_lt_of_pos i (two_pow_pos d)⟩
  -- the cell is found on the way down from the cell it came from
  have hmem : c ∈ forest.descend d a := Forest.mem_descend.mpr hup.symm
  have hnodup := Forest.nodup_descend (F := forest) d a
  refine ⟨hup, ?_, getChild_getLocal hk, List.count_eq_one_of_mem hnodup hmem,
    Forest.length_descend length_children d a, hnodup, fun e he => ?_⟩
  · rw [hb]
    exact ⟨rfl, hrest c.x, hrest c.y, hrest c.z⟩
  · exact parentAtLevel_of_mem_descend he

/-- The cell (5, 2, 7) of level 3, seen from level 1. -/
theorem address_algebra_three : ((⟨5, 2, 7, 3⟩ : Loc).parentAtLevel 1) = ⟨1, 0, 1, 1⟩ ∧
    (⟨1, 0, 1, 1⟩ : Loc).getChild ((⟨5, 2, 7, 3⟩ : Loc).getLocal ⟨1, 0, 1, 1⟩) = ⟨5, 2, 7, 3⟩ ∧
    (forest.descend 2 ⟨1, 0, 1, 1⟩).length = 64 := by
  obtain ⟨-, -, hdown, -, hlen, -⟩ := address_algebra ⟨5, 2, 7, 3⟩ (k := 1) (by decide)
  exact ⟨rfl, hdown, hlen⟩

end Loc

end MapBg
