import MapBg.Lib.Forest
import MapBg.Loc.Basic

/-!
# The octree of `Loc`s

`GetChildren` lists the eight cells a cell is cut into; `Parent` halves the coordinates by an
arithmetic shift. The two are written independently in the source. `Loc.forest` states that they
fit: the children of a cell are exactly the cells it is the parent of, on the whole integer
grid, so that the general facts about forests apply to what the selection walks over.
-/

set_option autoImplicit false

namespace MapBg

namespace Loc

/-- `GetChildren`, in the order of its three loops. -/
def children (a : Loc) : List Loc := [
  ⟨a.x * 2, a.y * 2, a.z * 2, a.l + 1⟩,
  ⟨a.x * 2, a.y * 2, a.z * 2 + 1, a.l + 1⟩,
  ⟨a.x * 2, a.y * 2 + 1, a.z * 2, a.l + 1⟩,
  ⟨a.x * 2, a.y * 2 + 1, a.z * 2 + 1, a.l + 1⟩,
  ⟨a.x * 2 + 1, a.y * 2, a.z * 2, a.l + 1⟩,
  ⟨a.x * 2 + 1, a.y * 2, a.z * 2 + 1, a.l + 1⟩,
  ⟨a.x * 2 + 1, a.y * 2 + 1, a.z * 2, a.l + 1⟩,
  ⟨a.x * 2 + 1, a.y * 2 + 1, a.z * 2 + 1, a.l + 1⟩]

/-- `Parent`. The shift rounds down, also for negative coordinates. -/
def parent (a : Loc) : Loc := ⟨a.x >>> (1 : Nat), a.y >>> (1 : Nat), a.z >>> (1 : Nat), a.l - 1⟩

theorem parent_eq (a : Loc) : a.parent = ⟨a.x / 2, a.y / 2, a.z / 2, a.l - 1⟩ := by
  simp only [parent, Int.shiftRight_eq_div_pow]
  rfl

/-- Every child is given by its three low bits, and every choice of them occurs. -/
theorem mem_children_iff_bits {c a : Loc} : c ∈ a.children ↔
    (c.x = a.x * 2 ∨ c.x = a.x * 2 + 1) ∧ (c.y = a.y * 2 ∨ c.y = a.y * 2 + 1) ∧
      (c.z = a.z * 2 ∨ c.z = a.z * 2 + 1) ∧ c.l = a.l + 1 := by
  obtain ⟨x, y, z, l⟩ := c
  constructor
  · intro h
    simp only [children, List.mem_cons, Loc.mk.injEq, List.not_mem_nil, or_false] at h
    rcases h with h | h | h | h | h | h | h | h <;> simp [h]
  · rintro ⟨rfl | rfl, rfl | rfl, rfl | rfl, rfl⟩ <;> simp [children]

/-- Two functions of the source that nothing there compares are inverse to each other: the children
of a cell are the cells that have it as their parent. -/
theorem mem_children {c a : Loc} : c ∈ a.children ↔ c.parent = a := by
  rw [mem_children_iff_bits, parent_eq]
  cases a
  simp only [Loc.mk.injEq]
  omega

theorem nodup_children (a : Loc) : a.children.Nodup := by
  have heven : ∀ i : Int, i * 2 ≠ i * 2 + 1 := fun i => by omega
  simp [children, heven, (heven _).symm]

/-- The octree as an instance of the library's forests. -/
def forest : Forest Loc where
  parent := parent
  level := Loc.l
  children := children
  mem_children := mem_children
  nodup_children := nodup_children
  level_parent _ := rfl

theorem l_of_mem_children {c a : Loc} (h : c ∈ a.children) : c.l = a.l + 1 :=
  (mem_children_iff_bits.mp h).2.2.2

/-- On the ground the parent comes first: its `x` is smaller, or 0 as well, and then its level
is. -/
theorem parent_before {a : Loc} (hy : a.y = 0) (hx : 0 ≤ a.x) : cmp a.parent a = .lt := by
  have hless : a.parent.less a = true := by
    rw [parent_eq, less]
    rw [if_neg (show ¬ a.y / 2 ≠ a.y by omega)]
    by_cases hpos : a.x = 0
    · rw [if_neg (show ¬ a.x / 2 ≠ a.x by omega), if_pos (show a.l - 1 ≠ a.l by omega)]
      exact decide_eq_true (show a.l - 1 < a.l by omega)
    · rw [if_pos (show a.x / 2 ≠ a.x by omega)]
      exact decide_eq_true (show a.x / 2 < a.x by omega)
  rw [cmp, if_pos hless]

/-! The root's descendants of level `l` have coordinates below `2 ^ l`. -/

/-- The cells inside the root cell. -/
def InGrid (a : Loc) : Prop :=
  0 ≤ a.l ∧ (0 ≤ a.x ∧ a.x < 2 ^ a.l.toNat) ∧ (0 ≤ a.y ∧ a.y < 2 ^ a.l.toNat) ∧
    0 ≤ a.z ∧ a.z < 2 ^ a.l.toNat

instance : DecidablePred InGrid := fun _ => inferInstanceAs (Decidable (_ ∧ _))

theorem InGrid.child {a c : Loc} (h : a.InGrid) (hc : c ∈ a.children) : c.InGrid := by
  obtain ⟨hl, hx, hy, hz⟩ := h
  obtain ⟨hcx, hcy, hcz, hcl⟩ := mem_children_iff_bits.mp hc
  have hpow : (2 : Int) ^ c.l.toNat = 2 ^ a.l.toNat * 2 := by
    rw [hcl, Int.toNat_add hl (by decide)]
    exact Int.pow_succ ..
  unfold InGrid
  rw [hpow]
  omega

/-- What a search from the root finds is inside, whatever it tests. -/
theorem inGrid_of_reached {rel : Loc → Prop} {a : Loc} (h : forest.Reached rel root a) :
    a.InGrid := by
  induction h with
  | start => exact ⟨by decide, by decide, by decide, by decide⟩
  | child _ hc _ ih => exact ih.child hc

end Loc

end MapBg
