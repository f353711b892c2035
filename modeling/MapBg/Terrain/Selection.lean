import Mathlib.Logic.Relation
import Mathlib.Tactic.Common
import MapBg.Lib.Map
import MapBg.Loc.Tree
import MapBg.Terrain.Tile

/-!
# `TerrainTileSelection`: requesting, building and evicting terrain tiles

Three containers refer to the terrain tiles at once. `m_tiles` maps a `Loc` to its current tile;
`m_requestTiles` holds the `Loc`s that were asked for and not found (nothing ever leaves it); and
`m_buildingTiles` holds the tiles whose data is not ready, by pointer, whether or not `m_tiles`
still has them. A tile under construction moreover holds a pointer to its parent.

`RequestTile` answers from `m_tiles` or from the database, and otherwise asks for the parent and
notes the request. `Update`, once a frame, evicts twenty tiles if there are more than a hundred,
creates a tile for each request that has none (and whose parent has one), builds each new tile
and each tile left over from the last frame once, and keeps those that are not ready.

Two orders are not determined by the source: which tiles `std::sort` puts first among those with
equal last use, and the order of the addresses in a `std::set` of pointers. A `Frame` brings both
along, and `Orders` says that they are orders of the right things.

The invariant that carries everything is that `m_buildingTiles` is the set of all tiles, evicted
ones included, whose data is not ready (`Inv.building`). With it, "the parent is being built" is
no more than "the parent is not ready", which `TerrainTile.Ok` keeps track of.
-/

set_option autoImplicit false

namespace MapBg

/-- The class `TerrainTileSelection`. The tiles are shared pointers into `heap`, and stay there when
they are erased from the map: others may still hold them. `sNumTiles` is the static counter. -/
structure TerrainTileSelection (F : Type) where
  heap : List (TerrainTile F)
  tiles : Std.TreeMap Loc Nat Loc.cmp
  requestTiles : Std.TreeSet Loc Loc.cmp
  buildingTiles : List Nat
  sNumTiles : UInt64

/-- What a call of `Update` depends on besides the state: the GPU, the order that `std::sort` leaves
the tiles in, and the order in which the set of tiles being built is visited. -/
structure Frame (F : Type) extends Gpu F where
  sorted : List Loc
  visit : List Nat

/-- The variables of `Update` between its loops. -/
structure UpdateState (F : Type) extends BuildState F where
  tiles : Std.TreeMap Loc Nat Loc.cmp
  nextBuildingTiles : List Nat
  sNumTiles : UInt64

namespace TerrainTileSelection

variable {F : Type}

/-- At the start of the program. -/
def initial : TerrainTileSelection F := ⟨[], ∅, ∅, [], 0⟩

section Code

variable [FloatRep F]

/-! ## `RequestTile`

The answer is the tile, or nothing. The recursion goes up the levels and ends at level 0; what the
recursive call answers is thrown away. -/

/-- `RequestTile`, by recursion on the number of levels above the tile. -/
def requestTileAt : Nat → Level → Loc → TerrainTileSelection F →
    Option Nat × TerrainTileSelection F
  | depth, level, tileLoc, s =>
    let tl : Loc := { tileLoc with y := 0 }
    match s.tiles[tl]? with
    | some p => (if TerrainTile.isDataReady s.heap p then some p else none, s)
    | none =>
      match level.getTerrainChunk tl with
      | some val =>
        let p := s.heap.length
        -- the tile is not counted in `sNumTiles`, as one that `Update` creates is
        (some p, { s with
          heap := s.heap ++ [.ofChunk tl val]
          tiles := s.tiles.insertIfNew tl p })
      | none =>
        -- the answer of the request for the parent is not used
        let s := match depth with
          | 0 => s
          | depth + 1 => (requestTileAt depth level tl.parent s).2
        (none, { s with requestTiles := s.requestTiles.insert tl })

/-- `TerrainTileSelection::RequestTile`. A tile that is there is returned if it is ready; one that
is in the database is made from its chunk; otherwise the request is noted, and so is one for the
parent. -/
def requestTile (level : Level) (tileLoc : Loc) (s : TerrainTileSelection F) :
    Option Nat × TerrainTileSelection F :=
  requestTileAt tileLoc.l.toNat level tileLoc s

/-- The source's recursion, with its test `tl.m_l > 0`. -/
theorem requestTile_eq (level : Level) (tileLoc : Loc) (s : TerrainTileSelection F) :
    requestTile level tileLoc s =
      let tl : Loc := { tileLoc with y := 0 }
      match s.tiles[tl]? with
      | some p => (if TerrainTile.isDataReady s.heap p then some p else none, s)
      | none =>
        match level.getTerrainChunk tl with
        | some val =>
          let p := s.heap.length
          (some p, { s with
            heap := s.heap ++ [.ofChunk tl val]
            tiles := s.tiles.insertIfNew tl p })
        | none =>
          let s := if tl.l > 0 then (requestTile level tl.parent s).2 else s
          (none, { s with requestTiles := s.requestTiles.insert tl }) := by
  unfold requestTile
  by_cases hpos : tileLoc.l > 0
  · obtain ⟨n, hn⟩ : ∃ n : Nat, tileLoc.l.toNat = n + 1 := ⟨(tileLoc.l - 1).toNat, by omega⟩
    have hparent : ({ tileLoc with y := 0 } : Loc).parent.l.toNat = n := by
      show (tileLoc.l - 1).toNat = n
      omega
    rw [hn]
    simp only [requestTileAt, hpos, if_true, hparent]
  · have hzero : tileLoc.l.toNat = 0 := by omega
    rw [hzero]
    simp only [requestTileAt, hpos, if_false]

/-- Whatever the answer, the address asked for has a tile or its request is noted. -/
theorem requestTile_asked (level : Level) (tileLoc : Loc) (s : TerrainTileSelection F) :
    ({ tileLoc with y := 0 } : Loc) ∈ (requestTile level tileLoc s).2.tiles ∨
      ({ tileLoc with y := 0 } : Loc) ∈ (requestTile level tileLoc s).2.requestTiles := by
  rw [requestTile_eq]
  simp only
  split
  · rename_i p hp
    exact .inl (Map.mem_of_entry hp)
  · split
    · exact .inl (Std.TreeMap.mem_insertIfNew_self)
    · exact .inr (Std.TreeSet.mem_insert_self)

/-- A call makes changes of two kinds only: it takes a chunk from the database, or it notes a
request. Both are for addresses on the ground, the one asked for or one above it; a request is
noted after that for the address above. -/
theorem requestTile_induct {P : TerrainTileSelection F → Prop} {Q : Loc → Prop} {level : Level}
    (hground : ∀ loc : Loc, Q loc → Q { loc with y := 0 })
    (hparent : ∀ loc : Loc, Q loc → 0 < loc.l → Q loc.parent)
    (hchunk : ∀ s tl val, Q tl → level.getTerrainChunk tl = some val → P s → P { s with
      heap := s.heap ++ [.ofChunk tl val]
      tiles := s.tiles.insertIfNew tl s.heap.length })
    (hrequest : ∀ s tl, Q tl → tl.y = 0 →
      (tl.l ≤ 0 ∨ tl.parent ∈ s.tiles ∨ tl.parent ∈ s.requestTiles) → P s →
      P { s with requestTiles := s.requestTiles.insert tl })
    {tileLoc : Loc} (hloc : Q tileLoc) {s : TerrainTileSelection F} (hs : P s) :
    P (requestTile level tileLoc s).2 := by
  obtain ⟨depth, hdepth⟩ : ∃ depth, tileLoc.l.toNat = depth := ⟨_, rfl⟩
  -- on the number of levels above, by which the source recurses
  induction depth generalizing tileLoc with
  | zero =>
    rw [requestTile_eq]
    simp only
    split
    · exact hs
    · split
      · exact hchunk s _ _ (hground _ hloc) ‹_› hs
      · rw [if_neg (by omega)]
        exact hrequest s _ (hground _ hloc) rfl (.inl (show tileLoc.l ≤ 0 by omega)) hs
  | succ depth ih =>
    rw [requestTile_eq]
    simp only
    split
    · exact hs
    · split
      · exact hchunk s _ _ (hground _ hloc) ‹_› hs
      · rw [if_pos (by omega)]
        -- the request for the parent comes first, and is a smaller case
        refine hrequest _ _ (hground _ hloc) rfl (.inr ?_) (ih (hparent _ (hground _ hloc) ?_) ?_)
        · exact requestTile_asked level ({ tileLoc with y := 0 } : Loc).parent s
        · show 0 < tileLoc.l
          omega
        · show (tileLoc.l - 1).toNat = depth
          omega

/-! ## `Update` -/

/-- One turn of the loop that erases. -/
def evictOne (u : UpdateState F) (loc : Loc) : UpdateState F :=
  { u with tiles := u.tiles.erase loc, sNumTiles := u.sNumTiles - 1 }

/-- `Build` on a tile, which goes into the next building set unless its data is ready. -/
def buildTile (g : Gpu F) (u : UpdateState F) (p : Nat) : UpdateState F :=
  let (ready, c) := TerrainTile.build g p u.toBuildState
  { u with
    toBuildState := c
    nextBuildingTiles := if ready then u.nextBuildingTiles else u.nextBuildingTiles.insert p }

/-- A tile is created and built at once, and is in `nextBuildingTiles` if it is not ready then. -/
def addTile (g : Gpu F) (u : UpdateState F) (loc : Loc) (parent : Option Nat) : UpdateState F :=
  let p := u.heap.length
  let u := buildTile g { u with heap := u.heap ++ [.create loc parent] } p
  { u with tiles := u.tiles.insertIfNew loc p, sNumTiles := u.sNumTiles + 1 }

/-- One turn of the loop over the requests. A request whose parent has no tile is passed over, and
is served in a later frame. -/
def requestStep (g : Gpu F) (u : UpdateState F) (loc : Loc) : UpdateState F :=
  match u.tiles[loc]? with
  | some _ => u
  | none =>
    if loc.l > 0 then
      match u.tiles[loc.parent]? with
      | some q => addTile g u loc (some q)
      | none => u
    else addTile g u loc none

/-- The state before the first loop. -/
def updateStart (level : Level) (s : TerrainTileSelection F) : UpdateState F :=
  ⟨⟨s.heap, level, 0⟩, s.tiles, [], s.sNumTiles⟩

/-- The first part of `Update`: with more than a hundred tiles, the first twenty of the sorted ones
are erased from the map. -/
def evict (fr : Frame F) (u : UpdateState F) : UpdateState F :=
  if u.tiles.size > 100 then (fr.sorted.take 20).foldl evictOne u else u

/-- The loops of `Update`, in order: those that are erased, those that were requested, and those
that are being built. -/
def updateLoops (fr : Frame F) (level : Level) (s : TerrainTileSelection F) : UpdateState F :=
  let u := evict fr (updateStart level s)
  let u := s.requestTiles.toList.foldl (requestStep fr.toGpu) u
  fr.visit.foldl (buildTile fr.toGpu) u

/-- `TerrainTileSelection::Update`. The requests are never removed from their set. -/
def update (fr : Frame F) (level : Level) (s : TerrainTileSelection F) :
    Level × TerrainTileSelection F :=
  let u := updateLoops fr level s
  (u.level, { s with
    heap := u.heap
    tiles := u.tiles
    buildingTiles := u.nextBuildingTiles
    sNumTiles := u.sNumTiles })

/-- What every turn of the three loops preserves holds after them; the rule by which everything
about `Update` is proved. -/
theorem updateLoops_induct {P : UpdateState F → Prop} {fr : Frame F} {level : Level}
    {s : TerrainTileSelection F} (hstart : P (updateStart level s))
    (hevict : ∀ u loc, P u → P (evictOne u loc))
    (hadd : ∀ u, ∀ loc ∈ s.requestTiles, P u → P (requestStep fr.toGpu u loc))
    (hbuild : ∀ u p, P u → P (buildTile fr.toGpu u p)) : P (updateLoops fr level s) := by
  refine List.foldlRecOn _ _ (List.foldlRecOn _ _ ?_ fun u hu loc hloc =>
    hadd u loc (Std.TreeSet.mem_toList.mp hloc) hu) fun u hu p _ => hbuild u p hu
  unfold evict
  split
  · exact List.foldlRecOn _ _ hstart fun u hu loc _ => hevict u loc hu
  · exact hstart

end Code

/-! ## Runs

A step is a call of one of the two functions. The database may have been changed by anyone since
the last call, so each call comes with its own. -/

/-- The key that the tiles are sorted by. -/
def lastUsedFrame (s : TerrainTileSelection F) (loc : Loc) : Int :=
  match s.tiles[loc]?.bind (s.heap[·]?) with
  | some t => t.lastUsedframeIdx
  | none => 0

/-- The two orders are possible: `std::sort` may put tiles of the same stamp in any order, and the
set of tiles being built is ordered by their addresses in memory, which is any order too. -/
structure Orders (fr : Frame F) (s : TerrainTileSelection F) : Prop where
  sorted_perm : fr.sorted.Perm s.tiles.keys
  sorted_lastUsed : fr.sorted.Pairwise fun a b => s.lastUsedFrame a ≤ s.lastUsedFrame b
  visit_perm : fr.visit.Perm s.buildingTiles

/-- What happens to the selection: a request, from any part of the program, and a frame. -/
inductive Step [FloatRep F] : TerrainTileSelection F → TerrainTileSelection F → Prop
  | request (s : TerrainTileSelection F) (level : Level) (loc : Loc) :
      Step s (requestTile level loc s).2
  | update (s : TerrainTileSelection F) (level : Level) (fr : Frame F) :
      Orders fr s → Step s (update fr level s).2

def Reachable [FloatRep F] (s : TerrainTileSelection F) : Prop :=
  Relation.ReflTransGen Step initial s

/-! ## The invariant -/

/-- The pointer is to a tile that is being built. -/
def Unready (heap : List (TerrainTile F)) (p : Nat) : Prop :=
  ∃ t, heap[p]? = some t ∧ t.dataready = false

/-- Every entry of the map is a tile, and the tile is for its key. -/
def TilesOk (heap : List (TerrainTile F)) (tiles : Std.TreeMap Loc Nat Loc.cmp) : Prop :=
  ∀ (loc : Loc) (p : Nat), tiles[loc]? = some p → ∃ t, heap[p]? = some t ∧ t.l = loc

/-- The invariant. What is being built is what is not ready, also of tiles that are no longer in the
map. -/
structure Inv (s : TerrainTileSelection F) : Prop where
  heap : TerrainTile.HeapOk s.heap
  tiles : TilesOk s.heap s.tiles
  building : ∀ p, p ∈ s.buildingTiles ↔ Unready s.heap p
  nodup : s.buildingTiles.Nodup

theorem TilesOk.evolves {heap heap' : List (TerrainTile F)} {tiles : Std.TreeMap Loc Nat Loc.cmp}
    (h : TilesOk heap tiles) (he : Heap.Evolves TerrainTile.Keeps heap heap') :
    TilesOk heap' tiles := by
  intro loc p hp
  obtain ⟨t, ht, hl⟩ := h loc p hp
  obtain ⟨t', ht', hl', -⟩ := he p t ht
  exact ⟨t', ht', hl'.trans hl⟩

theorem TilesOk.insert {heap : List (TerrainTile F)} {tiles : Std.TreeMap Loc Nat Loc.cmp}
    {p : Nat} {t : TerrainTile F} (h : TilesOk heap tiles) (hp : heap[p]? = some t) :
    TilesOk heap (tiles.insertIfNew t.l p) := by
  intro loc q hq
  rw [Std.TreeMap.getElem?_insertIfNew] at hq
  split at hq
  · rename_i hnew
    cases hq
    exact ⟨t, hp, Loc.cmp_eq_iff.mp hnew.1⟩
  · exact h loc q hq

theorem TilesOk.erase {heap : List (TerrainTile F)} {tiles : Std.TreeMap Loc Nat Loc.cmp}
    (h : TilesOk heap tiles) (loc : Loc) : TilesOk heap (tiles.erase loc) := by
  intro loc' p hp
  rw [Std.TreeMap.getElem?_erase] at hp
  split at hp
  · exact absurd hp (by simp)
  · exact h loc' p hp

theorem inv_initial : Inv (initial : TerrainTileSelection F) where
  heap p t hp := absurd hp (by simp [initial])
  tiles loc p hp := absurd hp (by simp [initial])
  building p := by simp [initial, Unready]
  nodup := List.nodup_nil

/-- A tile from the database has nothing to be built. -/
theorem unready_alloc_ready {heap : List (TerrainTile F)} {t : TerrainTile F}
    (hr : t.dataready = true) (p : Nat) : Unready (heap ++ [t]) p ↔ Unready heap p := by
  constructor
  · rintro ⟨u, hu, hf⟩
    rcases Heap.getElem?_alloc_iff.mp hu with hu | ⟨-, rfl⟩
    · exact ⟨u, hu, hf⟩
    · exact absurd hr (by simp [hf])
  · rintro ⟨u, hu, hf⟩
    exact ⟨u, Heap.getElem?_alloc_iff.mpr (.inl hu), hf⟩

/-- A tile read from the database is ready, so nothing has to be built. -/
theorem Inv.ofChunk [FloatRep F] {s : TerrainTileSelection F} (h : Inv s) (tl : Loc)
    (val : Bytes) : Inv { s with
      heap := s.heap ++ [.ofChunk tl val]
      tiles := s.tiles.insertIfNew tl s.heap.length } where
  heap := h.heap.alloc (TerrainTile.ok_ofChunk _ _ tl val)
  tiles := (h.tiles.evolves (.alloc s.heap (.ofChunk tl val))).insert
    (Heap.getElem?_alloc_iff.mpr (.inr ⟨rfl, rfl⟩))
  building p := (h.building p).trans (unready_alloc_ready rfl p).symm
  nodup := h.nodup

/-- Of the two things a request can do, one adds a tile that is ready and the other leaves the tiles
alone. -/
theorem Inv.requestTile [FloatRep F] {s : TerrainTileSelection F} (h : Inv s) (level : Level)
    (tileLoc : Loc) : Inv (requestTile level tileLoc s).2 :=
  requestTile_induct (Q := fun _ => True) (fun _ _ => trivial) (fun _ _ _ => trivial)
    (fun _ tl val _ _ hs => hs.ofChunk tl val)
    (fun _ _ _ _ _ hs => ⟨hs.heap, hs.tiles, hs.building, hs.nodup⟩) trivial h

theorem requestTile_evolves [FloatRep F] (level : Level) (tileLoc : Loc)
    (s : TerrainTileSelection F) :
    Heap.Evolves TerrainTile.Keeps s.heap (requestTile level tileLoc s).2.heap :=
  requestTile_induct (P := fun s' => Heap.Evolves TerrainTile.Keeps s.heap s'.heap)
    (Q := fun _ => True) (fun _ _ => trivial) (fun _ _ _ => trivial)
    (fun _ _ _ _ _ hs => hs.trans (.alloc _ _)) (fun _ _ _ _ _ hs => hs) trivial (.refl _)

/-- The tile handed out is ready, and is for the ground address asked for. -/
theorem Inv.requestTile_some [FloatRep F] {s : TerrainTileSelection F} (h : Inv s) {level : Level}
    {tileLoc : Loc} {p : Nat} {s' : TerrainTileSelection F}
    (hreq : TerrainTileSelection.requestTile level tileLoc s = (some p, s')) :
    ∃ t, s'.heap[p]? = some t ∧ t.dataready = true ∧ t.l = { tileLoc with y := 0 } := by
  rw [requestTile_eq] at hreq
  simp only at hreq
  split at hreq
  -- from the map, if it is ready
  · rename_i q hq
    obtain ⟨hp, rfl⟩ := Prod.mk.inj hreq
    split at hp
    · rename_i hready
      cases hp
      obtain ⟨t, ht, hl⟩ := h.tiles _ _ hq
      obtain ⟨t', ht', hr⟩ := TerrainTile.isDataReady_iff.mp hready
      rw [ht] at ht'
      cases ht'
      exact ⟨t, ht, hr, hl⟩
    · exact absurd hp (by simp)
  · split at hreq
    · obtain ⟨hp, rfl⟩ := Prod.mk.inj hreq
      -- from the database, where a tile is ready from the start
      cases hp
      exact ⟨_, Heap.getElem?_alloc_iff.mpr (.inr ⟨rfl, rfl⟩), rfl, rfl⟩
    · exact absurd (Prod.mk.inj hreq).1 (by simp)

/-! ### Inside `Update`

Between two iterations the tiles that are not ready are those already moved to the next building
set and those of the old one that are still to be visited. `before` is the heap at the start. -/

/-- The invariant inside `Update`, between two turns of a loop. The tiles that are not ready are
those noted for the next frame and those of `todo`, which are still to be visited in this one. -/
structure Mid (before : List (TerrainTile F)) (todo : List Nat) (u : UpdateState F) : Prop where
  heap : TerrainTile.HeapOk u.heap
  evolves : Heap.Evolves TerrainTile.Keeps before u.heap
  tiles : TilesOk u.heap u.tiles
  pending : ∀ p, p ∈ u.nextBuildingTiles ∨ p ∈ todo ↔ Unready u.heap p
  nodup : (u.nextBuildingTiles ++ todo).Nodup

section Mid

variable {before : List (TerrainTile F)} {todo : List Nat} {u : UpdateState F}

theorem Mid.evictOne (h : Mid before todo u) (loc : Loc) : Mid before todo (evictOne u loc) :=
  ⟨h.heap, h.evolves, h.tiles.erase loc, h.pending, h.nodup⟩

/-- A tile that is visited is noted for the next frame, unless it is ready now. -/
theorem Mid.buildTile [FloatRep F] (g : Gpu F) {p : Nat} (h : Mid before (p :: todo) u) :
    Mid before todo (buildTile g u p) := by
  obtain ⟨t, ht, -⟩ := (h.pending p).mp (.inr (List.mem_cons_self ..))
  have hb := TerrainTile.built_build g h.heap ht
  have hnodup := List.nodup_middle.mp h.nodup
  obtain ⟨hnext, htodo⟩ : p ∉ u.nextBuildingTiles ∧ p ∉ todo := by
    simpa using (List.nodup_cons.mp hnodup).1
  unfold TerrainTileSelection.buildTile
  generalize TerrainTile.build g p u.toBuildState = result at hb ⊢
  obtain ⟨ready, c⟩ := result
  obtain ⟨t', ht', hanswer⟩ := hb.answer
  -- the others are as they were; whether this one goes on to be built is what `Build` answered
  have hother : ∀ q, q ≠ p →
      (Unready c.heap q ↔ q ∈ u.nextBuildingTiles ∨ q ∈ todo) := by
    intro q hq
    have hsame : Unready c.heap q ↔ Unready u.heap q := by
      rw [Unready, hb.frame q hq, Unready]
    rw [hsame, ← h.pending q, List.mem_cons]
    simp [hq]
  have hself : Unready c.heap p ↔ ready = false := by
    have hanswer : ready = t'.dataready := hanswer
    rw [Unready, ht', hanswer]
    simp
  cases ready with
  | true =>
    refine ⟨hb.heapOk, h.evolves.trans hb.evolves, h.tiles.evolves hb.evolves, fun q => ?_,
      (List.nodup_cons.mp hnodup).2⟩
    by_cases hq : q = p
    · simp [hq, hself, hnext, htodo]
    · simp [hother q hq]
  | false =>
    refine ⟨hb.heapOk, h.evolves.trans hb.evolves, h.tiles.evolves hb.evolves, fun q => ?_, ?_⟩
    · by_cases hq : q = p
      · simp [hq, hself]
      · simp [hother q hq, hq]
    · simpa [List.insert_of_not_mem hnext] using hnodup

/-- A new tile is not ready, so it has to be visited. -/
theorem Mid.alloc [FloatRep F] (h : Mid before todo u) {loc : Loc} {parent : Option Nat}
    (hparent : ∀ q, parent = some q → ∃ t, u.heap[q]? = some t ∧ t.l.l = loc.l - 1) :
    Mid before (u.heap.length :: todo) { u with heap := u.heap ++ [.create loc parent] } := by
  have hfresh : ¬ Unready u.heap u.heap.length := by
    rintro ⟨t, ht, -⟩
    exact absurd (Heap.lt_length ht) (Nat.lt_irrefl _)
  -- the new tile is the only one that has become unready
  have hnew : ∀ p, Unready (u.heap ++ [TerrainTile.create loc parent]) p ↔
      Unready u.heap p ∨ p = u.heap.length := by
    intro p
    unfold Unready
    simp only [Heap.getElem?_alloc_iff]
    constructor
    · rintro ⟨t, ht | ⟨hp, -⟩, hr⟩
      · exact .inl ⟨t, ht, hr⟩
      · exact .inr hp
    · rintro (⟨t, ht, hr⟩ | hp)
      · exact ⟨t, .inl ht, hr⟩
      · exact ⟨_, .inr ⟨hp, rfl⟩, rfl⟩
  refine ⟨h.heap.alloc (TerrainTile.ok_create hparent), h.evolves.trans (.alloc _ _),
    h.tiles.evolves (.alloc _ _), ?_, ?_⟩
  · intro p
    rw [hnew, ← h.pending p, List.mem_cons]
    tauto
  · rw [← h.pending] at hfresh
    exact List.nodup_middle.mpr (List.nodup_cons.mpr ⟨by simpa using hfresh, h.nodup⟩)

theorem Mid.addTile [FloatRep F] (g : Gpu F) (h : Mid before todo u) {loc : Loc}
    {parent : Option Nat}
    (hparent : ∀ q, parent = some q → ∃ t, u.heap[q]? = some t ∧ t.l.l = loc.l - 1) :
    Mid before todo (addTile g u loc parent) := by
  have halloc := h.alloc hparent
  have hbuilt := halloc.buildTile g
  refine ⟨hbuilt.heap, hbuilt.evolves, ?_, hbuilt.pending, hbuilt.nodup⟩
  have hnew : (u.heap ++ [TerrainTile.create loc parent])[u.heap.length]?
      = some (TerrainTile.create (F := F) loc parent) := by simp
  obtain ⟨t, ht, hl, -⟩ := (TerrainTile.built_build g halloc.heap hnew).evolves _ _ hnew
  have hinsert := hbuilt.tiles.insert ht
  rw [hl] at hinsert
  exact hinsert

theorem Mid.requestStep [FloatRep F] (g : Gpu F) (h : Mid before todo u) (loc : Loc) :
    Mid before todo (requestStep g u loc) := by
  unfold TerrainTileSelection.requestStep
  split
  · exact h
  · split
    · split
      · rename_i q hq
        obtain ⟨t, ht, hl⟩ := h.tiles _ q hq
        refine h.addTile g fun q' hq' => ?_
        cases hq'
        exact ⟨t, ht, by rw [hl]; rfl⟩
      · exact h
    · exact h.addTile g fun q' hq' => absurd hq' (by simp)

/-- After the last loop nothing is left to visit. -/
theorem Mid.visit [FloatRep F] (g : Gpu F) (h : Mid before todo u) :
    Mid before [] (todo.foldl (TerrainTileSelection.buildTile g) u) := by
  induction todo generalizing u with
  | nil => exact h
  | cons p todo ih => exact ih (h.buildTile g)

end Mid

theorem Inv.updateLoops [FloatRep F] {fr : Frame F} {s : TerrainTileSelection F} (h : Inv s)
    (hfr : Orders fr s) (level : Level) : Mid s.heap [] (updateLoops fr level s) := by
  have hstart : Mid s.heap fr.visit (updateStart level s) := by
    refine ⟨h.heap, .refl _, h.tiles, fun p => ?_, hfr.visit_perm.nodup_iff.mpr h.nodup⟩
    simpa [updateStart, hfr.visit_perm.mem_iff] using h.building p
  have hevicted : Mid s.heap fr.visit (evict fr (updateStart level s)) := by
    unfold evict
    split
    · exact List.foldlRecOn _ _ hstart fun u hu loc _ => hu.evictOne loc
    · exact hstart
  have hrequested := List.foldlRecOn s.requestTiles.toList
    (TerrainTileSelection.requestStep fr.toGpu) hevicted fun u hu loc _ => hu.requestStep _ loc
  exact hrequested.visit fr.toGpu

theorem Inv.update_evolves [FloatRep F] {fr : Frame F} {s : TerrainTileSelection F} (h : Inv s)
    (hfr : Orders fr s) (level : Level) :
    Heap.Evolves TerrainTile.Keeps s.heap (update fr level s).2.heap :=
  (h.updateLoops hfr level).evolves

/-- With nothing to visit, what is noted is what is not ready: the invariant again. -/
theorem Inv.update [FloatRep F] {fr : Frame F} {s : TerrainTileSelection F} (h : Inv s)
    (hfr : Orders fr s) (level : Level) : Inv (update fr level s).2 := by
  have hdone := h.updateLoops hfr level
  refine ⟨hdone.heap, hdone.tiles, fun p => ?_, ?_⟩
  · exact (or_iff_left (List.not_mem_nil)).symm.trans (hdone.pending p)
  · have hnodup := hdone.nodup
    rw [List.append_nil] at hnodup
    exact hnodup

theorem inv_of_reachable [FloatRep F] {s : TerrainTileSelection F} (h : Reachable s) : Inv s := by
  induction h with
  | refl => exact inv_initial
  | tail _ hstep ih =>
    cases hstep with
    | request level loc => exact ih.requestTile level loc
    | update level fr hfr => exact ih.update hfr level

/-! ## One dispatch per frame

`Moved before after p`: the tile is in build step 0 before, or does not exist yet, and is past it
after. The budget counter is zero only as long as no tile has moved. -/

/-- The tile has left step 0, or was created and has. -/
def Moved (before after : List (TerrainTile F)) (p : Nat) : Prop :=
  (∀ t, before[p]? = some t → t.buildStep = 0) ∧ ∃ t, after[p]? = some t ∧ t.buildStep ≠ 0

/-- At most one tile leaves step 0 in a frame: as long as nothing is dispatched none has, and after
that the budget is spent. -/
structure Budget (before : List (TerrainTile F)) (c : BuildState F) : Prop where
  nonneg : 0 ≤ c.numGpuCalcs
  unspent : c.numGpuCalcs = 0 → ∀ p, ¬ Moved before c.heap p
  unique : ∀ p q, Moved before c.heap p → Moved before c.heap q → p = q

theorem moved_write {before heap : List (TerrainTile F)} {p q : Nat} {t t' : TerrainTile F}
    (hp : heap[p]? = some t) (hm : Moved before (heap.set p t') q) :
    q = p ∨ Moved before heap q := by
  obtain ⟨hzero, u, hu, hne⟩ := hm
  rw [Heap.getElem?_write hp] at hu
  split at hu
  · exact .inl ‹_›
  · exact .inr ⟨hzero, u, hu, hne⟩

/-- A tile that is already past step 0 moves no more. -/
theorem moved_write_of_started {before heap : List (TerrainTile F)} {p q : Nat}
    {t t' : TerrainTile F} (hp : heap[p]? = some t) (hstarted : t.buildStep ≠ 0)
    (hm : Moved before (heap.set p t') q) : Moved before heap q := by
  rcases moved_write hp hm with rfl | h
  · exact ⟨hm.1, t, hp, hstarted⟩
  · exact h

theorem Budget.of_moved {before : List (TerrainTile F)} {c c' : BuildState F}
    (h : Budget before c) (hcalcs : c'.numGpuCalcs = c.numGpuCalcs)
    (hback : ∀ q, Moved before c'.heap q → Moved before c.heap q) : Budget before c' where
  nonneg := by
    rw [hcalcs]
    exact h.nonneg
  unspent hz q hq := h.unspent (hcalcs.symm.trans hz) q (hback q hq)
  unique q r hq hr := h.unique q r (hback q hq) (hback r hr)

/-- The only outcome that moves a tile finds the budget unspent and spends it. -/
theorem Budget.build [FloatRep F] (g : Gpu F) {before : List (TerrainTile F)} {c : BuildState F}
    (h : Budget before c) (p : Nat) : Budget before (TerrainTile.build g p c).2 := by
  cases hp : c.heap[p]? with
  | none =>
    unfold TerrainTile.build
    rw [hp]
    exact h
  | some t =>
    have hout := TerrainTile.build_outcome g hp
    generalize TerrainTile.build g p c = result at hout ⊢
    cases hout with
    | blocked _ => exact h
    | idle => exact h
    | dispatched _ _ hcalcs =>
      -- nothing was dispatched before in this frame, so this is the one
      have honly : ∀ q, Moved before (c.heap.set p (t.dispatched g)) q → q = p := fun q hq =>
        (moved_write hp hq).resolve_right (h.unspent hcalcs q)
      refine ⟨?_, ?_, fun q r hq hr => (honly q hq).trans (honly r hr).symm⟩
      · show 0 ≤ c.numGpuCalcs + 10
        omega
      · intro hzero
        have hzero : c.numGpuCalcs + 10 = 0 := hzero
        omega
    | readBack _ hstep =>
      exact h.of_moved rfl fun q hq => moved_write_of_started hp (by omega) hq
    | finished _ hstep =>
      exact h.of_moved rfl fun q hq => moved_write_of_started hp (by omega) hq

theorem Budget.create [FloatRep F] {before : List (TerrainTile F)} {c : BuildState F}
    (h : Budget before c) (loc : Loc) (parent : Option Nat) :
    Budget before { c with heap := c.heap ++ [.create loc parent] } := by
  refine h.of_moved rfl ?_
  rintro q ⟨hzero, u, hu, hne⟩
  rcases Heap.getElem?_alloc_iff.mp hu with hu | ⟨-, rfl⟩
  · exact ⟨hzero, u, hu, hne⟩
  · exact absurd rfl hne

theorem Budget.requestStep [FloatRep F] (g : Gpu F) {before : List (TerrainTile F)}
    {u : UpdateState F} (h : Budget before u.toBuildState) (loc : Loc) :
    Budget before (requestStep g u loc).toBuildState := by
  unfold TerrainTileSelection.requestStep
  split
  · exact h
  · split
    · split
      · exact (h.create loc _).build g _
      · exact h
    · exact (h.create loc _).build g _

theorem update_moves_one [FloatRep F] (fr : Frame F) (level : Level)
    (s : TerrainTileSelection F) (p q : Nat) (hp : Moved s.heap (update fr level s).2.heap p)
    (hq : Moved s.heap (update fr level s).2.heap q) : p = q := by
  have hstart : Budget s.heap (updateStart level s).toBuildState := by
    have hnone : ∀ p, ¬ Moved s.heap (updateStart level s).heap p :=
      fun _ ⟨hzero, t, ht, hne⟩ => hne (hzero t ht)
    exact ⟨Int.le_refl 0, fun _ => hnone, fun p _ hp => absurd hp (hnone p)⟩
  have hdone : Budget s.heap (updateLoops fr level s).toBuildState :=
    @updateLoops_induct _ _ (fun u => Budget s.heap u.toBuildState) _ _ _ hstart
      (fun _ _ h => h) (fun _ loc _ h => h.requestStep _ loc) (fun _ p h => h.build _ p)
  exact hdone.unique p q hp hq

/-! ## The build graph -/

/-- A parent that is not ready is being built, one level up. -/
theorem Inv.parent_cases {s : TerrainTileSelection F} (h : Inv s) {p : Nat} {t : TerrainTile F}
    (ht : s.heap[p]? = some t) : t.parent = none ∨ ∃ q u, t.parent = some q ∧
      s.heap[q]? = some u ∧ (u.dataready = true ∨ u.l.l = t.l.l - 1 ∧ q ∈ s.buildingTiles) := by
  cases hparent : t.parent with
  | none => exact .inl rfl
  | some q =>
    obtain ⟨-, u, hu, hl⟩ := (h.heap p t ht).parent q hparent
    refine .inr ⟨q, u, rfl, hu, ?_⟩
    cases hr : u.dataready with
    | true => exact .inl rfl
    | false => exact .inr ⟨hl, (h.building q).mpr ⟨u, hu, hr⟩⟩

/-- Parents are older than their children, so following blocked parents comes to an end. -/
theorem Inv.exists_unblocked {s : TerrainTileSelection F} (h : Inv s) {p : Nat}
    (hp : p ∈ s.buildingTiles) :
    ∃ q ∈ s.buildingTiles, ∃ t, s.heap[q]? = some t ∧ TerrainTile.blocked s.heap t = false := by
  -- a parent is earlier on the heap, so going from parent to parent comes to an end
  induction p using Nat.strongRecOn with
  | ind p ih =>
    obtain ⟨t, ht, -⟩ := (h.building p).mp hp
    cases hb : TerrainTile.blocked s.heap t with
    | false => exact ⟨p, hp, t, ht, hb⟩
    | true =>
      cases hparent : t.parent with
      | none =>
        rw [TerrainTile.blocked, hparent] at hb
        exact absurd hb (by simp)
      | some q =>
        obtain ⟨hlt, u, hu, -⟩ := (h.heap p t ht).parent q hparent
        rw [TerrainTile.blocked, hparent] at hb
        have hr : u.dataready = false := by
          simpa [TerrainTile.isDataReady, hu] using hb
        exact ih q hlt ((h.building q).mpr ⟨u, hu, hr⟩)

/-- **The terrain build graph cannot deadlock.** -/
theorem build_graph_live [FloatRep F] {s : TerrainTileSelection F} (h : Reachable s) :
    (∀ loc p, s.tiles[loc]? = some p → ∃ t, s.heap[p]? = some t ∧ t.l = loc ∧
      (t.dataready = false → p ∈ s.buildingTiles)) ∧
    (∀ p ∈ s.buildingTiles, ∃ t, s.heap[p]? = some t ∧ (t.parent = none ∨
      ∃ q u, t.parent = some q ∧ s.heap[q]? = some u ∧
        (u.dataready = true ∨ u.l.l = t.l.l - 1 ∧ q ∈ s.buildingTiles))) ∧
    (s.buildingTiles ≠ [] → ∃ p ∈ s.buildingTiles, ∃ t, s.heap[p]? = some t ∧
      TerrainTile.blocked s.heap t = false) ∧
    (∀ (p : Nat) (t : TerrainTile F), s.heap[p]? = some t →
      (t.buildStep = 1 ∨ t.buildStep = 2 → t.parent = none ∨
        ∃ q u, t.parent = some q ∧ s.heap[q]? = some u ∧ u.dataready = true) ∧
      (t.dataready = true ↔ t.buildStep = -1)) ∧
    (∀ (fr : Frame F) (level : Level) (p q : Nat), Orders fr s →
      Moved s.heap (update fr level s).2.heap p → Moved s.heap (update fr level s).2.heap q →
      p = q) := by
  have hinv := inv_of_reachable h
  refine ⟨?_, ?_, ?_, ?_, fun fr level p q _ => update_moves_one fr level s p q⟩
  · intro loc p hp
    obtain ⟨t, ht, hl⟩ := hinv.tiles loc p hp
    exact ⟨t, ht, hl, fun hr => (hinv.building p).mpr ⟨t, ht, hr⟩⟩
  · intro p hp
    obtain ⟨t, ht, -⟩ := (hinv.building p).mp hp
    exact ⟨t, ht, hinv.parent_cases ht⟩
  · intro hne
    obtain ⟨p, hp⟩ := List.exists_mem_of_ne_nil _ hne
    exact hinv.exists_unblocked hp
  · intro p t ht
    refine ⟨fun hstep => ?_, (hinv.heap p t ht).ready_iff⟩
    have hfree := TerrainTile.blocked_eq_false_iff.mp ((hinv.heap p t ht).unblocked hstep)
    cases hparent : t.parent with
    | none => exact .inl rfl
    | some q =>
      obtain ⟨u, hu, hr⟩ := TerrainTile.isDataReady_iff.mp (hfree q hparent)
      exact .inr ⟨q, u, rfl, hu, hr⟩

/-- A tile of level 1 was requested on an empty database, and one frame has passed: the root's
shaders are dispatched and the tile waits for it. -/
def twoLevels : TerrainTileSelection Int32 :=
  (update ⟨⟨0, fun _ => 2, fun _ _ => []⟩, [], []⟩ Level.empty
    (requestTile Level.empty ⟨0, 0, 0, 1⟩ initial).2).2

theorem reachable_twoLevels : Reachable twoLevels := by
  refine (Relation.ReflTransGen.refl.tail (.request _ Level.empty ⟨0, 0, 0, 1⟩)).tail
    (.update _ Level.empty _ ⟨?_, ?_, ?_⟩)
  · decide
  · exact List.Pairwise.nil
  · decide

theorem build_graph_live_twoLevels : Reachable twoLevels ∧ twoLevels.buildingTiles = [1, 0] ∧
    ∃ p ∈ twoLevels.buildingTiles, ∃ t, twoLevels.heap[p]? = some t ∧
      TerrainTile.blocked twoLevels.heap t = false :=
  ⟨reachable_twoLevels, by decide, (build_graph_live reachable_twoLevels).2.2.1 (by decide)⟩

end TerrainTileSelection

end MapBg
