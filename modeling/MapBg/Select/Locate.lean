import Mathlib.Data.Rat.Floor
import MapBg.Lib.Map
import MapBg.Loc.Nesting
import MapBg.Select.Update
import MapBg.Select.View

/-!
# `OctTileSelection::TileFromPos`: the tile a position is in

The loop goes through `m_tiles` and takes the first tile whose box holds the position, faces
included. Whether it is the right one depends on what is selected: a tile and one of its ancestors
would both do. If there are no such two, a position that is not on a face is in one box at most
(`boxes_nest`). There never are after an `Update`, whatever was in the table before
(`tileFromPos_update`), since `GetLocsInView` does not select a cell and one above it.
-/

set_option autoImplicit false

namespace MapBg

namespace OctTileSelection

/-- `TileFromPos`: the first tile, in the order of the table, whose box has the point. -/
def tileFromPos {F α : Type} [FloatLike F] (tiles : Std.TreeMap Loc α Loc.cmp) (pos : Point3 F) :
    Option α :=
  (tiles.toList.find? fun pair => intersectPoint pair.1.getBBox pos).map Prod.snd

/-- No cell is above another one. -/
def Unnested {α : Type} (tiles : Std.TreeMap Loc α Loc.cmp) : Prop :=
  ∀ a ∈ tiles, ∀ b ∈ tiles, a.AtOrAbove b → a = b

/-- A cell and one above it are never selected together. -/
theorem Updated.unnested {F : Type} {s s' : OctTileSelection F} {v : View} (hmax : 0 ≤ v.maxlod)
    (h : Updated s (v.get []) s') : Unnested s'.tiles := by
  intro a ha b hb hab
  exact View.eq_of_anc_get hmax ((h.keys a).mp ha) ((h.keys b).mp hb) (Loc.atOrAbove_iff.mp hab)

variable {K α : Type} [Field K] [LinearOrder K] [FloorRing K] [IsStrictOrderedRing K]

theorem Unnested.eq_of_intersectPoint {tiles : Std.TreeMap Loc α Loc.cmp} (h : Unnested tiles)
    {a b : Loc} (ha : a ∈ tiles) (hb : b ∈ tiles) {p : Point3 K}
    (hp : p ∈ (a.getBBox : AABox K).interior) (hin : intersectPoint b.getBBox p = true) :
    b = a := by
  rcases Loc.atOrAbove_of_touching hp (intersectPoint_exact.mp hin) with hab | hba
  · exact (h a ha b hb hab).symm
  · exact h b hb a ha hba

/-- Inside a tile, away from its faces, there is no other tile to be found. -/
theorem Unnested.tileFromPos_eq {tiles : Std.TreeMap Loc α Loc.cmp} (h : Unnested tiles)
    {a : Loc} (ha : a ∈ tiles) {p : Point3 K} (hp : p ∈ (a.getBBox : AABox K).interior) :
    tileFromPos tiles p = tiles[a]? := by
  obtain ⟨tile, htile⟩ := Map.exists_entry ha
  unfold tileFromPos
  cases hfound : tiles.toList.find? fun pair => intersectPoint pair.1.getBBox p with
  | none =>
    have hmem := Std.TreeMap.mem_toList_iff_getElem?_eq_some.mpr htile
    exact absurd (intersectPoint_of_interior hp) (List.find?_eq_none.mp hfound _ hmem)
  | some pair =>
    have hentry := Std.TreeMap.mem_toList_iff_getElem?_eq_some.mp (List.mem_of_find?_eq_some hfound)
    have hin := List.find?_some hfound
    have heq : pair.1 = a := h.eq_of_intersectPoint ha (Map.mem_of_entry hentry) hp hin
    rw [← heq, hentry]
    rfl

/-- **Boxes nest as addresses do**: they overlap only if the cells are above one another, the
children cut the box of their parent, and a tile is found from any position inside it. -/
theorem boxes_nest (a b : Loc) :
    (((a.getBBox : AABox K).halfOpen ∩ (b.getBBox : AABox K).halfOpen).Nonempty ↔
      a.AtOrAbove b ∨ b.AtOrAbove a) ∧
    (a.AtOrAbove b → (b.getBBox : AABox K).halfOpen ⊆ (a.getBBox : AABox K).halfOpen) ∧
    ((a.getBBox : AABox K).halfOpen = ⋃ c ∈ a.children, (c.getBBox : AABox K).halfOpen) ∧
    (a.children.Pairwise fun c d =>
      (c.getBBox : AABox K).halfOpen ∩ (d.getBBox : AABox K).halfOpen = ∅) ∧
    (∀ c ∈ a.children, (c.getBBox : AABox K).halfOpen.Nonempty) ∧
    ∀ tiles : Std.TreeMap Loc α Loc.cmp, Unnested tiles → a ∈ tiles →
      ∀ p ∈ (a.getBBox : AABox K).interior, tileFromPos tiles p = tiles[a]? ∧
        ∀ c ∈ tiles, intersectPoint c.getBBox p = true → c = a :=
  ⟨Loc.overlap_iff a b, Loc.halfOpen_subset, Loc.halfOpen_eq_iUnion a, Loc.disjoint_children a,
    fun c _ => Loc.halfOpen_nonempty c, fun _ h ha _ hp =>
      ⟨h.tileFromPos_eq ha hp, fun _ hc hin => h.eq_of_intersectPoint ha hc hp hin⟩⟩

/-- Two of the root's children, and a position in the second. -/
def twoTiles : Std.TreeMap Loc Nat Loc.cmp :=
  ((∅ : Std.TreeMap Loc Nat Loc.cmp).insert ⟨0, 0, 0, 1⟩ 7).insert ⟨1, 0, 0, 1⟩ 8

theorem mem_twoTiles {a : Loc} (h : a ∈ twoTiles) : a = ⟨1, 0, 0, 1⟩ ∨ a = ⟨0, 0, 0, 1⟩ := by
  simp only [twoTiles, Std.TreeMap.mem_insert, Std.LawfulEqCmp.compare_eq_iff_eq,
    Std.TreeMap.not_mem_emptyc, or_false] at h
  exact h.imp Eq.symm Eq.symm

theorem boxes_nest_twoTiles : Unnested twoTiles ∧
    ((⟨1, -1, -1⟩ : Point3 Rat) ∈ ((⟨1, 0, 0, 1⟩ : Loc).getBBox : AABox Rat).interior) ∧
    tileFromPos twoTiles (⟨1, -1, -1⟩ : Point3 Rat) = some 8 := by
  have hunnested : Unnested twoTiles := by
    intro a ha b hb hab
    rcases mem_twoTiles ha with rfl | rfl <;> rcases mem_twoTiles hb with rfl | rfl <;>
      first | rfl | exact absurd hab.2 (by decide)
  have hin : (⟨1, -1, -1⟩ : Point3 Rat) ∈ ((⟨1, 0, 0, 1⟩ : Loc).getBBox : AABox Rat).interior := by
    rw [Loc.getBBox_exact]
    simp only [AABox.interior, Set.mem_ofPred_eq, Set.mem_Ioo, Loc.edge, Loc.extent]
    norm_num
  have hmem : (⟨1, 0, 0, 1⟩ : Loc) ∈ twoTiles := Std.TreeMap.mem_insert_self
  refine ⟨hunnested, hin, ?_⟩
  rw [((boxes_nest (K := Rat) ⟨1, 0, 0, 1⟩ ⟨0, 0, 0, 1⟩).2.2.2.2.2 twoTiles hunnested hmem _ hin).1]
  exact Std.TreeMap.getElem?_insert_self

/-! ## After an update -/

theorem tileFromPos_update {s : OctTileSelection K} (h : Inv s) (campos camdir : Point3 K)
    {v : View} (hmax : 0 ≤ v.maxlod) :
    ∃ s', update campos camdir (v.get []) s = some s' ∧
      ∀ a ∈ v.get [], ∀ p ∈ (a.getBBox : AABox K).interior,
        ∃ tile, s'.tiles[a]? = some tile ∧ tileFromPos s'.tiles p = some tile := by
  obtain ⟨s', hs', -, hupdated⟩ := h.update campos camdir (v.get [])
  refine ⟨s', hs', fun a ha p hp => ?_⟩
  have hmem : a ∈ s'.tiles := (hupdated.keys a).mpr ha
  obtain ⟨tile, htile⟩ := Map.exists_entry hmem
  exact ⟨tile, htile, ((hupdated.unnested hmax).tileFromPos_eq hmem hp).trans htile⟩

end OctTileSelection

end MapBg
