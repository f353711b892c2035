import MapBg.Select.Update

/-!
# What the selection lets go of

`~OctTile` throws, with nothing to rethrow, unless the tile was decommissioned. A tile dies with
the last pointer to it, and the selection lets go of its pointers at two places: `Update` erases
entries of `m_tiles` and swaps the loader's queue for a new one, and when `~OctTileSelection` has
joined the loader the members are destroyed with what is left in them.

`Update` decommissions what it erases, and a tile in the queue is an entry of `m_tiles` as well.
So as long as the selection lives, every tile it no longer holds is decommissioned. The destructor
decommissions nothing: what is left then is what the last frame showed, and every one of these
tiles throws (`released_iff_last_empty`).
-/

set_option autoImplicit false

namespace MapBg

/-- `~OctTile`: `false` where it throws. -/
def OctTile.destruct {F : Type} (o : OctTile F) : Bool :=
  if !o.isdecommissioned then false else true

namespace OctTileSelection

variable {F : Type}

/-- The selection has a pointer to the tile. When `~OctTileSelection` completes it lets go of
exactly these. -/
def Holds (s : OctTileSelection F) (p : Nat) : Prop :=
  (∃ loc : Loc, s.tiles[loc]? = some p) ∨ p ∈ s.loaderTiles

/-- The tiles that satisfy `P` may all be destroyed. -/
def MayDestroy (s : OctTileSelection F) (P : Nat → Prop) : Prop :=
  ∀ (p : Nat) (o : OctTile F), s.heap[p]? = some o → P p → o.destruct = true

/-- A run, with the selection of its last `Update`. The loader does not change the selection. -/
inductive Run [FloatRep F] : List Loc → OctTileSelection F → Prop
  | start : Run [] initial
  | update {last : List Loc} {s s' : OctTileSelection F} (campos camdir : Point3 F)
      (locs : List Loc) :
      Run last s → update campos camdir locs s = some s' → Run locs s'
  | loader {last : List Loc} {s s' : OctTileSelection F} : Run last s → LoaderStep s s' →
      Run last s'

theorem Run.reachable [FloatRep F] {last : List Loc} {s : OctTileSelection F} (h : Run last s) :
    Reachable s := by
  induction h with
  | start => exact .refl
  | update campos camdir locs _ hs' ih => exact ih.tail (.update campos camdir locs hs')
  | loader _ hload ih => exact ih.tail (.loader hload)

/-- The active tiles are those of the last frame; the loader does not change them. -/
theorem Run.active [FloatRep F] {last : List Loc} {s : OctTileSelection F} (h : Run last s)
    (loc : Loc) : loc ∈ s.activeTiles ↔ loc ∈ last := by
  induction h with
  | start => simp [initial]
  | update campos camdir locs hrun hs' _ =>
    obtain ⟨s', hs, -, hupdated⟩ :=
      (inv_of_reachable hrun.reachable).update campos camdir locs
    rw [hs'] at hs
    cases hs
    exact hupdated.active loc
  | loader _ hload ih => cases hload <;> exact ih

/-- The queue of the loader has only tiles that the table has too. -/
theorem Inv.holds_iff {s : OctTileSelection F} (h : Inv s) (p : Nat) :
    s.Holds p ↔ ∃ loc : Loc, s.tiles[loc]? = some p :=
  or_iff_left_of_imp (h.loader p)

/-- A tile is safe to destroy exactly when the selection holds it no longer. -/
theorem Inv.destruct_iff {s : OctTileSelection F} (h : Inv s) {p : Nat} {o : OctTile F}
    (ho : s.heap[p]? = some o) : o.destruct = true ↔ ¬ s.Holds p := by
  rw [h.holds_iff]
  rcases h.toTable.lives ho with ⟨hentry, hflag, -⟩ | ⟨hgone, hflag, -⟩
  · simp only [OctTile.destruct, hflag]
    exact ⟨fun hd => absurd hd (by simp), fun hno => absurd ⟨o.l, hentry⟩ hno⟩
  · simp only [OctTile.destruct, hflag]
    exact ⟨fun _ ⟨loc, hloc⟩ => hgone loc hloc, fun _ => by simp⟩

theorem Inv.holds_nothing_iff {s : OctTileSelection F} (h : Inv s) :
    (∀ p, ¬ s.Holds p) ↔ ∀ loc, loc ∉ s.activeTiles := by
  constructor
  · intro hno loc hloc
    obtain ⟨p, hp⟩ := Map.exists_entry ((h.keys loc).mpr hloc)
    exact hno p (.inl ⟨loc, hp⟩)
  · intro hno p hp
    obtain ⟨loc, hloc⟩ := (h.holds_iff p).mp hp
    exact hno loc ((h.keys loc).mp (Map.mem_of_entry hloc))

/-- **Nothing the selection lets go of throws while it lives; when it is destroyed something does,
unless its last frame showed nothing.** -/
theorem released_iff_last_empty [FloatRep F] {last : List Loc} {s : OctTileSelection F}
    (h : Run last s) :
    s.MayDestroy (fun p => ¬ s.Holds p) ∧ (s.MayDestroy s.Holds ↔ last = []) := by
  have hinv := inv_of_reachable h.reachable
  have hlast : last = [] ↔ ∀ p, ¬ s.Holds p := by
    rw [hinv.holds_nothing_iff, List.eq_nil_iff_forall_not_mem]
    exact forall_congr' fun loc => not_congr (h.active loc).symm
  refine ⟨fun p o ho hno => (hinv.destruct_iff ho).mpr hno, ?_⟩
  rw [hlast]
  constructor
  · intro hall p hp
    obtain ⟨loc, hloc⟩ := (hinv.holds_iff p).mp hp
    obtain ⟨o, ho, -⟩ := hinv.entries loc p hloc
    exact (hinv.destruct_iff ho).mp (hall p o ho hp) hp
  · intro hno p o _ hp
    exact absurd hp (hno p)

/-- The root is shown in one frame and in the next one no longer. -/
theorem released_iff_last_empty_root : ∃ s₁ s₂ : OctTileSelection Int32,
    Run [Loc.root] s₁ ∧ Run [] s₂ ∧ ¬ s₁.MayDestroy s₁.Holds ∧ s₂.MayDestroy s₂.Holds := by
  let o : Point3 Int32 := ⟨0, 0, 0⟩
  obtain ⟨s₁, hs₁, hinv, -⟩ := inv_initial.update o o [Loc.root]
  have h₁ : Run [Loc.root] s₁ := .update o o [Loc.root] .start hs₁
  obtain ⟨s₂, hs₂, -, -⟩ := hinv.update o o []
  have h₂ : Run [] s₂ := .update o o [] h₁ hs₂
  exact ⟨s₁, s₂, h₁, h₂, fun hall => absurd ((released_iff_last_empty h₁).2.mp hall) (by simp),
    (released_iff_last_empty h₂).2.mpr rfl⟩

/-- One frame shows the root, and the selection is destroyed. -/
theorem destroyed_root_throws : ∃ s : OctTileSelection Int32,
    update ⟨0, 0, 0⟩ ⟨0, 0, 0⟩ [Loc.root] initial = some s ∧
    ∃ (p : Nat) (o : OctTile Int32), s.Holds p ∧ s.heap[p]? = some o ∧ o.l = Loc.root ∧
      o.destruct = false := by
  obtain ⟨s, hs, hinv, hupdated⟩ := inv_initial.update (F := Int32) ⟨0, 0, 0⟩ ⟨0, 0, 0⟩ [Loc.root]
  obtain ⟨p, hp⟩ := Map.exists_entry ((hupdated.keys Loc.root).mpr (by simp))
  obtain ⟨o, ho, hl⟩ := hinv.entries _ p hp
  have hholds : s.Holds p := .inl ⟨_, hp⟩
  refine ⟨s, hs, p, o, hholds, ho, hl, ?_⟩
  rw [← Bool.not_eq_true, hinv.destruct_iff ho]
  exact fun hno => hno hholds

end OctTileSelection

end MapBg
