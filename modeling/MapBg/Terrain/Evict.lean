import MapBg.Terrain.Tiles

/-!
# Evicting terrain tiles

With more than a hundred tiles, `Update` erases the twenty it considers least recently used, and
then goes on to its two other loops. Three things about that do not hold.

* *The tiles are gone.* `m_requestTiles` is never emptied, and the next loop creates a tile for
  every request in it that has none. A tile that was ever requested comes back in the same call,
  as long as its parent has a tile then (`evicts_iff`).
* *Nothing is built twice.* `m_buildingTiles` holds tiles by pointer. A tile that is erased before
  it is ready stays there, next to the new one for the same address. It takes that no tile is
  evicted before it is ready (`built_once_of_patient`).
* *The least recently used go first.* Nobody calls `SetLastUseFrame`. All stamps are equal, so the
  sort may put any twenty tiles first, and whether they are the right ones is left to chance
  (`lru_iff`).

The runs that show it have to be crowded. `crowded` is reached by requesting 101 cells of level 7
that are not in the database and waiting for one frame.
-/

set_option autoImplicit false

namespace MapBg

namespace TerrainTileSelection

variable {F : Type}

/-! ## The stamps

No step writes `m_lastUsedframeIdx`, so the comparison of `std::sort` never tells two tiles apart
and any order of the entries is one it may produce. -/

section Stamps

variable [FloatRep F]

theorem build_length (g : Gpu F) (p : Nat) (c : BuildState F) :
    (TerrainTile.build g p c).2.heap.length = c.heap.length := by
  cases hp : c.heap[p]? with
  | none => rw [TerrainTile.build, hp]
  | some t =>
    have hout := TerrainTile.build_outcome g hp
    generalize TerrainTile.build g p c = result at hout ⊢
    cases hout with
    | blocked _ => rfl
    | idle => rfl
    | dispatched _ _ _ => exact List.length_set
    | readBack _ _ => exact List.length_set
    | finished _ _ => exact List.length_set

/-- What a tile was before a build: the same address and stamp, and not ready if it is not. -/
theorem build_back (g : Gpu F) {p q : Nat} {c : BuildState F} {t' : TerrainTile F}
    (h : (TerrainTile.build g p c).2.heap[q]? = some t') :
    ∃ t, c.heap[q]? = some t ∧ t'.l = t.l ∧ t'.lastUsedframeIdx = t.lastUsedframeIdx ∧
      (t'.dataready = false → t.dataready = false) := by
  cases hp : c.heap[p]? with
  | none =>
    rw [TerrainTile.build, hp] at h
    exact ⟨t', h, rfl, rfl, id⟩
  | some t =>
    have hout := TerrainTile.build_outcome g hp
    generalize TerrainTile.build g p c = result at hout h
    -- each step writes one tile, and keeps its address and its stamp
    have hset : ∀ u : TerrainTile F, (c.heap.set p u)[q]? = some t' → u.l = t.l →
        u.lastUsedframeIdx = t.lastUsedframeIdx → (u.dataready = false → t.dataready = false) →
        ∃ t, c.heap[q]? = some t ∧ t'.l = t.l ∧ t'.lastUsedframeIdx = t.lastUsedframeIdx ∧
          (t'.dataready = false → t.dataready = false) := by
      intro u hu hl hstamp hready
      rw [Heap.getElem?_write hp] at hu
      split at hu
      · rename_i hqp
        cases hu
        exact ⟨t, by rw [hqp]; exact hp, hl, hstamp, hready⟩
      · exact ⟨t', hu, rfl, rfl, id⟩
    cases hout with
    | blocked _ => exact ⟨t', h, rfl, rfl, id⟩
    | idle => exact ⟨t', h, rfl, rfl, id⟩
    | dispatched _ _ _ => exact hset _ h rfl rfl id
    | readBack _ _ => exact hset _ h rfl rfl id
    | finished _ _ => exact hset _ h rfl rfl fun hf => absurd hf (by simp [TerrainTile.finished])

theorem addTile_length (g : Gpu F) (u : UpdateState F) (loc : Loc) (parent : Option Nat) :
    (addTile g u loc parent).heap.length = u.heap.length + 1 := by
  have hlen := build_length g u.heap.length
    { u.toBuildState with heap := u.heap ++ [.create loc parent] }
  rw [List.length_append, List.length_singleton] at hlen
  exact hlen

/-- No tile has a stamp: the member is set to 0 by the constructors, and by nothing else. -/
def Unstamped (heap : List (TerrainTile F)) : Prop := ∀ t ∈ heap, t.lastUsedframeIdx = 0

theorem Unstamped.build (g : Gpu F) {c : BuildState F} (h : Unstamped c.heap) (p : Nat) :
    Unstamped (TerrainTile.build g p c).2.heap := by
  intro t' ht'
  obtain ⟨q, hq⟩ := List.mem_iff_getElem?.mp ht'
  obtain ⟨t, ht, -, hstamp, -⟩ := build_back g hq
  exact hstamp.trans (h t (List.mem_of_getElem? ht))

/-- In no run does `m_lastUsedframeIdx` become anything but 0. -/
theorem unstamped_of_reachable {s : TerrainTileSelection F} (h : Reachable s) :
    Unstamped s.heap := by
  induction h with
  | refl => exact fun t ht => absurd ht (by simp [initial])
  | tail _ hstep ih =>
    cases hstep with
    | request level loc =>
      exact requestTile_induct (P := fun s => Unstamped s.heap) (Q := fun _ => True)
        (fun _ _ => trivial) (fun _ _ _ => trivial)
        (fun _ _ _ _ _ hs => Heap.forall_mem_alloc hs rfl) (fun _ _ _ _ _ hs => hs) trivial ih
    | update level fr _ =>
      exact update_heap_induct ih (fun _ _ _ hheap => Heap.forall_mem_alloc hheap rfl)
        fun _ p hc => hc.build _ p

theorem lastUsedFrame_eq_zero {s : TerrainTileSelection F} (h : Reachable s) (loc : Loc) :
    s.lastUsedFrame loc = 0 := by
  unfold lastUsedFrame
  split
  · rename_i t ht
    obtain ⟨p, -, hp⟩ := Option.bind_eq_some_iff.mp ht
    exact unstamped_of_reachable h t (List.mem_of_getElem? hp)
  · rfl

/-- Since all stamps are 0, any order of the tiles is one that `std::sort` may leave. -/
theorem orders_of_perm {s : TerrainTileSelection F} (h : Reachable s) (g : Gpu F)
    {sorted : List Loc} (hperm : sorted.Perm s.tiles.keys) :
    Orders ⟨g, sorted, s.buildingTiles⟩ s where
  sorted_perm := hperm
  sorted_lastUsed := List.pairwise_of_forall fun a b =>
    Int.le_of_eq ((lastUsedFrame_eq_zero h a).trans (lastUsedFrame_eq_zero h b).symm)
  visit_perm := .refl _

end Stamps

/-! ## What comes back -/

/-- The tiles that are left when the twenty are erased. -/
def Kept (fr : Frame F) (s : TerrainTileSelection F) (loc : Loc) : Prop :=
  loc ∈ s.tiles ∧ loc ∉ fr.sorted.take 20

section Kept

variable {fr : Frame F} {s : TerrainTileSelection F} (level : Level)

theorem evict_eq (hsize : s.tiles.size > 100) :
    evict fr (updateStart level s) = (fr.sorted.take 20).foldl evictOne (updateStart level s) :=
  if_pos hsize

theorem evict_toBuildState :
    (evict fr (updateStart level s)).toBuildState = ⟨s.heap, level, 0⟩ := by
  unfold evict
  split
  · exact evictAll_toBuildState ..
  · rfl

theorem mem_evict (hsize : s.tiles.size > 100) (loc : Loc) :
    loc ∈ (evict fr (updateStart level s)).tiles ↔ Kept fr s loc := by
  rw [evict_eq level hsize]
  exact evictAll_mem ..

/-- Twenty are erased, and no fewer. -/
theorem size_evict (hfr : Orders fr s) (hsize : s.tiles.size > 100) :
    (evict fr (updateStart level s)).tiles.size + 20 = s.tiles.size := by
  have hlen : (fr.sorted.take 20).length = 20 := by
    rw [List.length_take, hfr.sorted_perm.length_eq, Std.TreeMap.length_keys]
    omega
  have hleft := evictAll_size (u := updateStart level s) (hfr.take 20).1 (hfr.take 20).2
  rw [hlen] at hleft
  rw [evict_eq level hsize]
  exact hleft

end Kept

section Effect

variable [FloatRep F]

/-- The loop leaves the map alone if there is nothing it could serve. -/
theorem requestLoop_idle (g : Gpu F) {locs : List Loc} {u : UpdateState F}
    (h : ∀ loc ∈ locs, loc ∉ u.tiles → 0 < loc.l ∧ loc.parent ∉ u.tiles) :
    locs.foldl (requestStep g) u = u := by
  induction locs with
  | nil => rfl
  | cons a locs ih =>
    -- the state does not change, so the hypothesis is still about it
    have hidle : requestStep g u a = u := by
      rcases requestStep_cases g u a with ⟨heq, -⟩ | ⟨hnone, hservable, -⟩
      · exact heq
      · obtain ⟨hl, hparent⟩ := h a List.mem_cons_self (Map.not_mem_of_none hnone)
        rcases hservable with hle | hmem
        · omega
        · exact absurd hmem hparent
    rw [List.foldl_cons, hidle]
    exact ih fun loc hloc => h loc (List.mem_cons_of_mem _ hloc)

theorem requestStep_size (g : Gpu F) (u : UpdateState F) (loc : Loc) :
    u.tiles.size ≤ (requestStep g u loc).tiles.size := by
  rcases requestStep_cases g u loc with ⟨heq, -⟩ | ⟨hnone, -, parent, heq⟩
  · rw [heq]
  · rw [heq, addTile_tiles, Map.size_insertIfNew_of_none hnone]
    exact Nat.le_succ _

theorem requestLoop_size (g : Gpu F) (locs : List Loc) (u : UpdateState F) :
    u.tiles.size ≤ (locs.foldl (requestStep g) u).tiles.size := by
  induction locs generalizing u with
  | nil => exact Nat.le_refl _
  | cons a locs ih => exact Nat.le_trans (requestStep_size g u a) (ih _)

/-- A request that can be served when the loop starts gets a new tile. -/
theorem requestLoop_grows (g : Gpu F) {locs : List Loc} {u : UpdateState F} {loc : Loc}
    (hloc : loc ∈ locs) (hno : loc ∉ u.tiles) (hservable : loc.l ≤ 0 ∨ loc.parent ∈ u.tiles) :
    loc ∈ (locs.foldl (requestStep g) u).tiles ∧
      u.tiles.size < (locs.foldl (requestStep g) u).tiles.size := by
  induction locs generalizing u with
  | nil => exact absurd hloc (by simp)
  | cons a locs ih =>
    -- it is served now, or it is still to come and its parent is still there
    by_cases hstep : loc ∈ (requestStep g u a).tiles
    · refine ⟨requestLoop_mem g locs hstep, Nat.lt_of_lt_of_le ?_ (requestLoop_size g locs _)⟩
      rcases requestStep_cases g u a with ⟨heq, -⟩ | ⟨hnone, -, parent, heq⟩
      · rw [heq] at hstep
        exact absurd hstep hno
      · rw [heq, addTile_tiles, Map.size_insertIfNew_of_none hnone]
        exact Nat.lt_succ_self _
    · rcases List.mem_cons.mp hloc with rfl | hloc
      · exact absurd (requestStep_mem g hservable) hstep
      · obtain ⟨hmem, hlt⟩ := ih hloc hstep
          (hservable.imp_right (requestLoop_mem g [a]))
        exact ⟨hmem, Nat.lt_of_le_of_lt (requestStep_size g u a) hlt⟩

/-- **Eviction takes effect exactly when there is nothing the next loop could serve**: no request
without a tile is for level 0 or has its parent among the tiles that were kept. -/
theorem evicts_iff {s : TerrainTileSelection F} {fr : Frame F} (hfr : Orders fr s)
    (hsize : s.tiles.size > 100) (level : Level) :
    ((∀ loc ∈ fr.sorted.take 20, loc ∉ (update fr level s).2.tiles) ∧
      (update fr level s).2.tiles.size + 20 = s.tiles.size) ↔
    ∀ loc ∈ s.requestTiles, ¬ Kept fr s loc → 0 < loc.l ∧ ¬ Kept fr s loc.parent := by
  have hmem : ∀ a, a ∈ (evict fr (updateStart level s)).tiles ↔ Kept fr s a := fun a =>
    mem_evict level hsize a
  have hevicted := size_evict level hfr hsize
  rw [update_tiles, afterRequests]
  constructor
  · rintro ⟨-, htwenty⟩ loc hloc hno
    rw [← hmem] at hno ⊢
    -- otherwise the request would be served, and the map would grow again
    by_contra hnot
    have hservable : loc.l ≤ 0 ∨ loc.parent ∈ (evict fr (updateStart level s)).tiles := by
      rcases Int.lt_or_le 0 loc.l with hl | hl
      · exact .inr (by_contra fun hparent => hnot ⟨hl, hparent⟩)
      · exact .inl hl
    have hgrows := (requestLoop_grows fr.toGpu (Std.TreeSet.mem_toList.mpr hloc) hno hservable).2
    omega
  · intro hnone
    rw [requestLoop_idle fr.toGpu fun loc hloc hno => ?_]
    · refine ⟨fun loc hloc hkept => ?_, hevicted⟩
      exact ((hmem loc).mp hkept).2 hloc
    · rw [hmem] at hno ⊢
      exact hnone loc (Std.TreeSet.mem_toList.mp hloc) hno

end Effect

/-! ### An order of one's choice

With all stamps equal, `std::sort` may put any tile first and any other last. -/

section Evicting

variable {s : TerrainTileSelection F} {a b : Loc}

/-- A frame that evicts `a` and keeps `b`. -/
def evicting (g : Gpu F) (s : TerrainTileSelection F) (a b : Loc) : Frame F :=
  ⟨g, a :: ((s.tiles.keys.erase a).erase b ++ [b]), s.buildingTiles⟩

theorem evicting_perm (ha : a ∈ s.tiles) (hb : b ∈ s.tiles) (hne : b ≠ a) :
    (a :: ((s.tiles.keys.erase a).erase b ++ [b])).Perm s.tiles.keys := by
  have ha' : a ∈ s.tiles.keys := Std.TreeMap.mem_keys.mpr ha
  have hb' : b ∈ s.tiles.keys.erase a :=
    (List.mem_erase_of_ne hne).mpr (Std.TreeMap.mem_keys.mpr hb)
  calc (a :: ((s.tiles.keys.erase a).erase b ++ [b])).Perm
        (a :: b :: (s.tiles.keys.erase a).erase b) := (List.perm_append_singleton ..).cons a
    _ |>.Perm (a :: s.tiles.keys.erase a) := (List.perm_cons_erase hb').symm.cons a
    _ |>.Perm s.tiles.keys := (List.perm_cons_erase ha').symm

theorem orders_evicting [FloatRep F] (h : Reachable s) (g : Gpu F) (ha : a ∈ s.tiles)
    (hb : b ∈ s.tiles) (hne : b ≠ a) : Orders (evicting g s a b) s :=
  orders_of_perm h g (evicting_perm ha hb hne)

theorem evicting_first (g : Gpu F) : a ∈ (evicting g s a b).sorted.take 20 := by
  rw [evicting, List.take_succ_cons]
  exact List.mem_cons_self

/-- With more than a hundred tiles, the last one is never among the first twenty. -/
theorem evicting_last (g : Gpu F) (hsize : s.tiles.size > 100) (ha : a ∈ s.tiles)
    (hb : b ∈ s.tiles) (hne : b ≠ a) : Kept (evicting g s a b) s b := by
  refine ⟨hb, fun hmem => ?_⟩
  have hperm := evicting_perm ha hb hne
  have hlen := hperm.length_eq
  have hnodup := hperm.nodup_iff.mpr (Map.nodup_keys s.tiles)
  rw [← List.cons_append] at hlen hnodup
  rw [List.length_append, Std.TreeMap.length_keys, List.length_singleton] at hlen
  -- the twenty are taken before the last
  rw [evicting, ← List.cons_append, List.take_append_of_le_length (by omega)] at hmem
  exact (List.nodup_append.mp hnodup).2.2 b (List.mem_of_mem_take hmem) b
    (List.mem_singleton_self b) rfl

end Evicting

/-! ### A crowded state

The database has the chunk of one cell, which is far from where the requests are. -/

/-- A cell far from all others. -/
def far : Loc := ⟨200, 0, 0, 7⟩

/-- A database with its chunk, and no other. -/
def stored : Level := Level.empty.writeTerrainChunk far []

/-- A hundred and one cells of level 7, in a row. -/
def crowd : List Loc := (List.range 101).map fun i : Nat => ⟨(i : Int), 0, 0, 7⟩

def requestAll [FloatRep F] (level : Level) (locs : List Loc) (s : TerrainTileSelection F) :
    TerrainTileSelection F :=
  locs.foldl (fun s loc => (requestTile level loc s).2) s

/-- All of the crowd has been requested, and no frame has come yet. -/
def asking : TerrainTileSelection Int32 := requestAll stored crowd initial

/-- The first frame, with nothing to sort and nothing to visit. -/
def firstFrame : Frame Int32 := ⟨⟨0, fun _ => 2, fun _ _ => []⟩, [], []⟩

/-- All of the crowd has a tile, and so has everything above it. -/
def crowded : TerrainTileSelection Int32 := (update firstFrame stored asking).2

theorem asking_eq : asking = requestAll stored crowd initial := rfl

theorem crowded_eq : crowded = (update firstFrame stored asking).2 := rfl

-- the two are large terms, which nothing below should compute
attribute [irreducible] asking crowded

/-- Where the requested cells and the cells above them are. -/
structure Near (loc : Loc) : Prop where
  x_nonneg : 0 ≤ loc.x
  x_le : loc.x ≤ 100
  y_eq : loc.y = 0
  z_eq : loc.z = 0
  l_nonneg : 0 ≤ loc.l
  l_le : loc.l ≤ 7

theorem near_crowd : ∀ loc ∈ crowd, Near loc := by
  intro loc hloc
  obtain ⟨i, hi, rfl⟩ := List.mem_map.mp hloc
  rw [List.mem_range] at hi
  refine ⟨Int.natCast_nonneg i, ?_, rfl, rfl, Int.natCast_nonneg 7, Int.le_refl 7⟩
  simp only
  omega

theorem Near.ground {loc : Loc} (h : Near loc) : ({ loc with y := 0 } : Loc) = loc := by
  rw [← h.y_eq]

theorem Near.parent {loc : Loc} (h : Near loc) (hl : 0 < loc.l) : Near loc.parent := by
  obtain ⟨hx, hx', hy, hz, -, hl'⟩ := h
  rw [Loc.parent_eq]
  exact ⟨by simp only; omega, by simp only; omega, by simp only; omega, by simp only; omega,
    by simp only; omega, by simp only; omega⟩

theorem Near.not_stored {loc : Loc} (h : Near loc) : stored.getTerrainChunk loc = none := by
  obtain ⟨hx, hx', hy, hz, hl, hl'⟩ := h
  rw [stored, Level.getTerrainChunk, Level.writeTerrainChunk, Level.db_put, if_neg]
  · rfl
  · intro hkey
    have hfar : ({ far with l := -far.l } : Loc).Fits := by decide
    have hloc : ({ loc with l := -loc.l } : Loc).Fits := by
      refine ⟨?_, ?_, ?_, ?_⟩ <;> simp only [Word.Fits] <;> omega
    have heq : loc.x = 200 := congrArg Loc.x (Loc.bytes_injOn hloc hfar hkey)
    omega

/-- What holds while near cells are requested and there are no tiles. -/
structure Asking (s : TerrainTileSelection F) : Prop where
  heap : s.heap = []
  tiles : s.tiles = ∅
  building : s.buildingTiles = []
  near : ∀ a ∈ s.requestTiles, Near a
  asked : Asked s.tiles s.requestTiles

theorem asking_initial : Asking (initial : TerrainTileSelection F) :=
  ⟨rfl, rfl, rfl, by simp [initial], ⟨by simp [initial], by simp [initial]⟩⟩

section RequestAll

variable [FloatRep F]

/-- A request near by is noted, together with those above it, and nothing else happens. -/
theorem requestTile_near {loc : Loc} (hloc : Near loc) (s : TerrainTileSelection F) :
    (requestTile stored loc s).2.heap = s.heap ∧
      (requestTile stored loc s).2.tiles = s.tiles ∧
      (requestTile stored loc s).2.buildingTiles = s.buildingTiles :=
  requestTile_induct (P := fun s' => s'.heap = s.heap ∧ s'.tiles = s.tiles ∧
      s'.buildingTiles = s.buildingTiles) (Q := Near)
    (fun a ha => ha.ground.symm ▸ ha) (fun _ ha hl => ha.parent hl)
    (fun _ _ _ ha hget _ => absurd (ha.not_stored.symm.trans hget) (by simp))
    (fun _ _ _ _ _ hs => hs) hloc ⟨rfl, rfl, rfl⟩

theorem requestTile_near_none {loc : Loc} (hloc : Near loc) {s : TerrainTileSelection F}
    (hno : s.tiles[loc]? = none) : (requestTile stored loc s).1 = none := by
  rw [requestTile_eq, hloc.ground]
  simp only [hno, hloc.not_stored]

theorem requestTile_requests_near {loc : Loc} (hloc : Near loc) {s : TerrainTileSelection F}
    (h : ∀ a ∈ s.requestTiles, Near a) : ∀ a ∈ (requestTile stored loc s).2.requestTiles, Near a :=
  requestTile_induct (P := fun s => ∀ a ∈ s.requestTiles, Near a) (Q := Near)
    (fun a ha => ha.ground.symm ▸ ha) (fun _ ha hl => ha.parent hl) (fun _ _ _ _ _ hs => hs)
    (fun _ tl htl _ _ hs a ha => by
      rcases Std.TreeSet.mem_insert.mp ha with heq | ha
      · exact Loc.cmp_eq_iff.mp heq ▸ htl
      · exact hs a ha)
    hloc h

theorem requestTile_requests_mono (level : Level) (loc : Loc) {s : TerrainTileSelection F} {a : Loc}
    (h : a ∈ s.requestTiles) : a ∈ (requestTile level loc s).2.requestTiles :=
  requestTile_induct (P := fun s => a ∈ s.requestTiles) (Q := fun _ => True)
    (fun _ _ => trivial) (fun _ _ _ => trivial) (fun _ _ _ _ _ hs => hs)
    (fun _ _ _ _ _ hs => Std.TreeSet.mem_insert.mpr (.inr hs)) trivial h

theorem Asking.requestTile {s : TerrainTileSelection F} (h : Asking s) {loc : Loc}
    (hloc : Near loc) : Asking (requestTile stored loc s).2 ∧
      (TerrainTileSelection.requestTile stored loc s).1 = none ∧
      loc ∈ (TerrainTileSelection.requestTile stored loc s).2.requestTiles := by
  obtain ⟨hheap, htiles, hbuilding⟩ := requestTile_near hloc s
  have hasked := requestTile_asked stored loc s
  rw [hloc.ground] at hasked
  refine ⟨⟨hheap.trans h.heap, htiles.trans h.tiles, hbuilding.trans h.building,
    requestTile_requests_near hloc h.near, h.asked.requestTile stored hloc.x_nonneg⟩,
    requestTile_near_none hloc (by rw [h.tiles]; rfl), hasked.resolve_left ?_⟩
  rw [htiles, h.tiles]
  exact Std.TreeMap.not_mem_emptyc

theorem Asking.requestAll {s : TerrainTileSelection F} (h : Asking s) {locs : List Loc}
    (hlocs : ∀ loc ∈ locs, Near loc) : Asking (requestAll stored locs s) ∧
      (∀ a ∈ s.requestTiles, a ∈ (TerrainTileSelection.requestAll stored locs s).requestTiles) ∧
      ∀ a ∈ locs, a ∈ (TerrainTileSelection.requestAll stored locs s).requestTiles := by
  induction locs generalizing s with
  | nil => exact ⟨h, fun _ ha => ha, by simp⟩
  | cons loc locs ih =>
    obtain ⟨hnext, -, hmem⟩ := h.requestTile (hlocs loc List.mem_cons_self)
    obtain ⟨hall, hmono, hlater⟩ := ih hnext fun a ha => hlocs a (List.mem_cons_of_mem _ ha)
    refine ⟨hall, fun a ha => hmono a (requestTile_requests_mono stored loc ha), fun a ha => ?_⟩
    rcases List.mem_cons.mp ha with rfl | ha
    · exact hmono a hmem
    · exact hlater a ha

theorem reachable_requestAll {s : TerrainTileSelection F} (h : Reachable s) (level : Level)
    (locs : List Loc) : Reachable (requestAll level locs s) := by
  induction locs generalizing s with
  | nil => exact h
  | cons a locs ih => exact ih (h.tail (.request s level a))

end RequestAll

theorem asking_asking : Asking asking := by
  have hall := (asking_initial (F := Int32)).requestAll near_crowd
  rw [asking_eq]
  exact hall.1

theorem reachable_asking : Reachable asking := by
  rw [asking_eq]
  exact reachable_requestAll .refl _ _

theorem orders_firstFrame : Orders firstFrame asking where
  sorted_perm := by
    rw [asking_asking.tiles]
    exact .refl _
  sorted_lastUsed := List.Pairwise.nil
  visit_perm := by
    rw [asking_asking.building]
    exact .refl _

theorem reachable_crowded : Reachable crowded := by
  rw [crowded_eq]
  exact reachable_asking.tail (.update _ _ _ orders_firstFrame)

/-- The requests of `crowded` are closed under parents, so that they are served from scratch. -/
theorem asked_crowded : Asked ∅ crowded.requestTiles := by
  have hasked := asking_asking.asked
  rw [asking_asking.tiles] at hasked
  rw [crowded_eq, update_requestTiles]
  exact hasked

theorem mem_requests_crowded {loc : Loc} (h : loc ∈ crowd) : loc ∈ crowded.requestTiles := by
  have hall := (asking_initial (F := Int32)).requestAll near_crowd
  rw [crowded_eq, update_requestTiles, asking_eq]
  exact hall.2.2 loc h

theorem mem_crowded {loc : Loc} (h : loc ∈ crowd) : loc ∈ crowded.tiles := by
  have hrequest := mem_requests_crowded h
  have hasked := asked_crowded
  rw [crowded_eq, update_requestTiles] at hrequest hasked
  rw [crowded_eq]
  exact (hasked.mono (by simp)).served loc hrequest

theorem crowded_size : crowded.tiles.size > 100 := by
  have hnodup : crowd.Nodup := List.nodup_range.map fun i j hij =>
    Int.ofNat_inj.mp (congrArg Loc.x hij)
  have hlen := Map.length_le_size hnodup fun loc hloc => mem_crowded hloc
  rw [crowd, List.length_map, List.length_range] at hlen
  exact hlen

/-- Whatever is evicted from `crowded`, everything requested is there again at the end. -/
theorem mem_update_crowded {loc : Loc} (h : loc ∈ crowd) (fr : Frame Int32) (level : Level) :
    loc ∈ (update fr level crowded).2.tiles :=
  (asked_crowded.mono (by simp)).served loc (mem_requests_crowded h)

def corner : Loc := ⟨0, 0, 0, 7⟩

def next : Loc := ⟨1, 0, 0, 7⟩

theorem corner_mem : corner ∈ crowd := List.mem_map.mpr ⟨0, by simp, rfl⟩

theorem next_mem : next ∈ crowd := List.mem_map.mpr ⟨1, by simp, rfl⟩

/-- The frame after `crowded`, with the corner cell among the evicted. -/
def secondFrame : Frame Int32 := evicting ⟨1, fun _ => 3, fun _ _ => []⟩ crowded corner next

theorem orders_secondFrame : Orders secondFrame crowded :=
  orders_evicting reachable_crowded _ (mem_crowded corner_mem) (mem_crowded next_mem) (by decide)

theorem corner_evicted : corner ∈ secondFrame.sorted.take 20 := evicting_first _

/-- With the corner evicted from `crowded` there is something to serve, and it is served. -/
theorem evicts_iff_crowded : Orders secondFrame crowded ∧ crowded.tiles.size > 100 ∧
    ¬ ∀ loc ∈ crowded.requestTiles, ¬ Kept secondFrame crowded loc →
      0 < loc.l ∧ ¬ Kept secondFrame crowded loc.parent :=
  ⟨orders_secondFrame, crowded_size, fun hnone =>
    ((evicts_iff orders_secondFrame crowded_size stored).mpr hnone).1 corner corner_evicted
      (mem_update_crowded corner_mem _ _)⟩

/-- The corner is erased and comes back, in a frame before which nothing was requested. -/
theorem evicted_corner_comes_back : Reachable asking ∧ Orders firstFrame asking ∧
    crowded = (update firstFrame stored asking).2 ∧
    Orders secondFrame crowded ∧ crowded.tiles.size > 100 ∧
    corner ∈ secondFrame.sorted.take 20 ∧
    corner ∈ (update secondFrame stored crowded).2.tiles :=
  ⟨reachable_asking, orders_firstFrame, crowded_eq, orders_secondFrame, crowded_size,
    corner_evicted, mem_update_crowded corner_mem _ _⟩

/-! ## What is built twice

A tile that is not ready is the entry for its address, unless it was evicted. -/

/-- A tile that is being built is the entry for its address. If it is evicted this fails, and the
address may get another tile, which is then built as well. -/
def Current (heap : List (TerrainTile F)) (tiles : Std.TreeMap Loc Nat Loc.cmp) : Prop :=
  ∀ (p : Nat) (t : TerrainTile F), heap[p]? = some t → t.dataready = false →
    tiles[t.l]? = some p

/-- The frame evicts only tiles whose data is ready. -/
def EvictsReady (fr : Frame F) (s : TerrainTileSelection F) : Prop :=
  s.tiles.size > 100 → ∀ loc ∈ fr.sorted.take 20, ∀ p, s.tiles[loc]? = some p → ¬ Unready s.heap p

/-- Where it could fail: the entry is erased, which the hypothesis excludes for a tile that is not
ready. -/
theorem Current.evict {fr : Frame F} {s : TerrainTileSelection F} (h : Current s.heap s.tiles)
    (hready : EvictsReady fr s) (level : Level) :
    Current (evict fr (updateStart level s)).heap (evict fr (updateStart level s)).tiles := by
  by_cases hsize : s.tiles.size > 100
  · intro p t ht hr
    rw [evict_eq level hsize] at ht ⊢
    rw [evictAll_toBuildState] at ht
    have hentry := h p t ht hr
    rw [evictAll_entry, if_neg]
    · exact hentry
    · intro hevicted
      exact hready hsize t.l hevicted p hentry ⟨t, ht, hr⟩
  · rw [evict_of_le (u := updateStart level s) (Nat.not_lt.mp hsize)]
    exact h

section Twice

variable [FloatRep F]

theorem Current.build (g : Gpu F) {c : BuildState F} {tiles : Std.TreeMap Loc Nat Loc.cmp}
    (h : Current c.heap tiles) (p : Nat) : Current (TerrainTile.build g p c).2.heap tiles := by
  intro q t' ht' hr
  obtain ⟨t, ht, hl, -, hback⟩ := build_back g ht'
  rw [hl]
  exact h q t ht (hback hr)

/-- A new tile takes the place of none, since its address has no entry. -/
theorem Current.requestStep (g : Gpu F) {u : UpdateState F} (h : Current u.heap u.tiles)
    (loc : Loc) : Current (requestStep g u loc).heap (requestStep g u loc).tiles := by
  rcases requestStep_cases g u loc with ⟨heq, -⟩ | ⟨hnone, -, parent, heq⟩
  · rw [heq]
    exact h
  · have halloc : Current (u.heap ++ [.create loc parent])
        (u.tiles.insertIfNew loc u.heap.length) := by
      intro p t ht hr
      rw [Map.entry_insertIfNew hnone]
      rcases Heap.getElem?_alloc_iff.mp ht with ht | ⟨rfl, rfl⟩
      · have hentry := h p t ht hr
        -- a tile that is being built has its entry, so the new address is not its own
        rw [if_neg]
        · exact hentry
        · rintro rfl
          exact absurd (hnone.symm.trans hentry) (by simp)
      · exact if_pos rfl
    rw [heq]
    exact Current.build g (c := { u.toBuildState with heap := u.heap ++ [.create loc parent] })
      halloc _

theorem Current.update {fr : Frame F} {s : TerrainTileSelection F} (h : Current s.heap s.tiles)
    (hready : EvictsReady fr s) (level : Level) :
    Current (update fr level s).2.heap (update fr level s).2.tiles := by
  have hrequested := List.foldlRecOn s.requestTiles.toList
    (TerrainTileSelection.requestStep fr.toGpu)
    (motive := fun u => Current u.heap u.tiles) (h.evict hready level)
    fun u hu loc _ => hu.requestStep _ loc
  exact List.foldlRecOn fr.visit (buildTile fr.toGpu)
    (motive := fun u => Current u.heap u.tiles) hrequested fun u hu p _ => hu.build _ p

theorem Current.requestTile {s : TerrainTileSelection F} (h : Current s.heap s.tiles)
    (level : Level) (loc : Loc) :
    Current (requestTile level loc s).2.heap (requestTile level loc s).2.tiles := by
  refine requestTile_induct (P := fun s => Current s.heap s.tiles) (Q := fun _ => True)
    (fun _ _ => trivial) (fun _ _ _ => trivial) (fun s tl val _ _ hs => ?_)
    (fun _ _ _ _ _ hs => hs) trivial h
  intro p t ht hr
  rcases Heap.getElem?_alloc_iff.mp ht with ht | ⟨-, rfl⟩
  · rw [Std.TreeMap.getElem?_insertIfNew, if_neg]
    · exact hs p t ht hr
    · rintro ⟨heq, hnot⟩
      rw [Loc.cmp_eq_iff] at heq
      exact hnot (heq ▸ Map.mem_of_entry (hs p t ht hr))
  · exact absurd hr (by simp [TerrainTile.ofChunk])

/-- What is being built keeps its entry, if only what is ready is evicted. -/
theorem Current.entry_update {fr : Frame F} {s : TerrainTileSelection F}
    (h : Current s.heap s.tiles) (hready : EvictsReady fr s) (level : Level) {p : Nat}
    {t : TerrainTile F} (ht : s.heap[p]? = some t) (hr : t.dataready = false) :
    (TerrainTileSelection.update fr level s).2.tiles[t.l]? = some p := by
  have hkept : (TerrainTileSelection.evict fr (updateStart level s)).tiles[t.l]? = some p := by
    refine h.evict hready level p t ?_ hr
    rw [evict_toBuildState]
    exact ht
  rw [update_tiles]
  exact requestLoop_kept _ _ hkept

/-- A run in which no eviction takes a tile before its data is ready. -/
def PatientStep (s s' : TerrainTileSelection F) : Prop :=
  (∃ level loc, s' = (TerrainTileSelection.requestTile level loc s).2) ∨
  ∃ fr level, Orders fr s ∧ EvictsReady fr s ∧ s' = (TerrainTileSelection.update fr level s).2

/-- A run of such steps. -/
def Patient (s : TerrainTileSelection F) : Prop := Relation.ReflTransGen PatientStep initial s

theorem reachable_of_patient {s : TerrainTileSelection F} (h : Patient s) : Reachable s := by
  refine Relation.ReflTransGen.mono (fun s s' hstep => ?_) _ _ h
  rcases hstep with ⟨level, loc, rfl⟩ | ⟨fr, level, hfr, -, rfl⟩
  · exact .request s level loc
  · exact .update s level fr hfr

theorem current_of_patient {s : TerrainTileSelection F} (h : Patient s) :
    Current s.heap s.tiles := by
  induction h with
  | refl => exact fun p t ht => absurd ht (by simp [initial])
  | tail _ hstep ih =>
    rcases hstep with ⟨level, loc, rfl⟩ | ⟨fr, level, -, hready, rfl⟩
    · exact ih.requestTile level loc
    · exact ih.update hready level

/-- **Nothing is built twice in a run that evicts only what is ready**: the tiles being built are
for different addresses, each is the entry for its address, and still is when it is finished. -/
theorem built_once_of_patient {s : TerrainTileSelection F} (h : Patient s) :
    (∀ p ∈ s.buildingTiles, ∀ q ∈ s.buildingTiles, ∀ t u, s.heap[p]? = some t →
      s.heap[q]? = some u → t.l = u.l → p = q) ∧
    (∀ p ∈ s.buildingTiles, ∀ t, s.heap[p]? = some t → s.tiles[t.l]? = some p) ∧
    ∀ (fr : Frame F) (level : Level), Orders fr s → EvictsReady fr s →
      ∀ p ∈ s.buildingTiles, ∀ t, (update fr level s).2.heap[p]? = some t → t.dataready = true →
        (update fr level s).2.tiles[t.l]? = some p := by
  have hcurrent := current_of_patient h
  have hinv := inv_of_reachable (reachable_of_patient h)
  have hentry : ∀ p ∈ s.buildingTiles, ∀ t, s.heap[p]? = some t → s.tiles[t.l]? = some p := by
    intro p hp t ht
    obtain ⟨t', ht', hr⟩ := (hinv.building p).mp hp
    rw [ht] at ht'
    cases ht'
    exact hcurrent p t ht hr
  refine ⟨fun p hp q hq t u ht hu hl => ?_, hentry, fun fr level hfr hready p hp t' ht' _ => ?_⟩
  -- two tiles of one address have one entry between them
  · have heq := hentry p hp t ht
    rw [hl, hentry q hq u hu] at heq
    cases heq
    rfl
  · obtain ⟨t, ht, hr⟩ := (hinv.building p).mp hp
    obtain ⟨t'', ht'', hl, -⟩ := hinv.update_evolves hfr level p t ht
    rw [show t' = t'' from Option.some.inj (ht'.symm.trans ht''), hl]
    exact hcurrent.entry_update hready level ht hr

end Twice

/-! ### A full shelf

In this database every chunk is there but the one of the root: the cells of `crowd` are answered
with tiles that are ready, which are all there is to evict, and the root has to be built. -/

def root : Loc := ⟨0, 0, 0, 0⟩

def shelf : Level := ⟨fun key => if key = Level.terrainKey root then none else some []⟩

/-- All of the crowd is requested and found, and then the root. -/
def shelved : TerrainTileSelection Int32 :=
  (requestTile shelf root (requestAll shelf crowd initial)).2

/-- The next frame, which takes the tiles in the order of their addresses. -/
def shelfFrame : Frame Int32 := ⟨⟨0, fun _ => 2, fun _ _ => []⟩, shelved.tiles.keys, []⟩

theorem patient_requestAll [FloatRep F] {s : TerrainTileSelection F} (h : Patient s)
    (level : Level) (locs : List Loc) : Patient (requestAll level locs s) := by
  induction locs generalizing s with
  | nil => exact h
  | cons a locs ih => exact ih (h.tail (.inl ⟨level, a, rfl⟩))

theorem patient_shelved : Patient shelved :=
  (patient_requestAll .refl shelf crowd).tail (.inl ⟨shelf, root, rfl⟩)

theorem shelved_full : shelved.tiles.size = 101 ∧ shelved.buildingTiles = [] ∧
    ∀ t ∈ shelved.heap, t.dataready = true := by
  decide +kernel

theorem evictsReady_shelfFrame : EvictsReady shelfFrame shelved := by
  rintro - loc - p - ⟨t, ht, hr⟩
  rw [shelved_full.2.2 t (List.mem_of_getElem? ht)] at hr
  exact absurd hr (by decide)

theorem orders_shelfFrame : Orders shelfFrame shelved := by
  have h := orders_of_perm (reachable_of_patient patient_shelved) shelfFrame.toGpu (.refl _)
  rwa [shelved_full.2.1] at h

def unshelved : TerrainTileSelection Int32 := (update shelfFrame shelf shelved).2

/-- Twenty tiles are evicted, all of them ready, in the frame in which the root is added. -/
theorem unshelved_root : unshelved.tiles.size = 82 ∧ unshelved.buildingTiles = [101] := by
  decide +kernel

/-- The root is being built once, though twenty tiles of the 101 were evicted. -/
theorem built_once_of_patient_shelved : Patient unshelved ∧
    shelved.tiles.size = 101 ∧ unshelved.tiles.size = 82 ∧ unshelved.buildingTiles = [101] ∧
    ∀ p ∈ unshelved.buildingTiles, ∀ t, unshelved.heap[p]? = some t →
      unshelved.tiles[t.l]? = some p := by
  have hpatient : Patient unshelved := patient_shelved.tail
    (.inr ⟨shelfFrame, shelf, orders_shelfFrame, evictsReady_shelfFrame, rfl⟩)
  exact ⟨hpatient, shelved_full.1, unshelved_root.1, unshelved_root.2,
    (built_once_of_patient hpatient).2.1⟩

/-! ### The corner is built twice

It takes three frames to build a tile, so after two of them no tile is ready: neither the one that
was evicted, nor the one that took its place. -/

/-- No tile is ready, and none will be in the frames 0 and 1. -/
def Underway (heap : List (TerrainTile F)) : Prop :=
  ∀ t ∈ heap, t.dataready = false ∧ (t.buildStep = 2 → 1 < t.buildFrame)

section Underway

variable [FloatRep F] {g : Gpu F}

/-- A tile gets to step 2 in frame 1 at the earliest, and its heights arrive after that. -/
theorem Underway.build (hframe : g.frameIdx ≤ 1) (hread : ∀ p, 1 < g.readTexture p)
    {c : BuildState F} (h : Underway c.heap) (p : Nat) :
    Underway (TerrainTile.build g p c).2.heap := by
  unfold TerrainTile.build
  split
  · exact h
  · rename_i t ht
    obtain ⟨hr, hstep⟩ := h t (List.mem_of_getElem? ht)
    split
    · exact h
    · split
      · split
        · exact Heap.forall_mem_write h ⟨hr, fun h2 => absurd h2 (by simp [TerrainTile.dispatched])⟩
        · exact h
      · split
        · exact Heap.forall_mem_write h ⟨hr, fun _ => hread p⟩
        · split
          · rename_i hdue
            -- the texture is not there before frame 2, so step 2 is not taken
            have := hstep hdue.1
            omega
          · exact h

theorem Underway.update {fr : Frame F} (hframe : fr.frameIdx ≤ 1)
    (hread : ∀ p, 1 < fr.readTexture p) {s : TerrainTileSelection F} (h : Underway s.heap)
    (level : Level) : Underway (update fr level s).2.heap :=
  update_heap_induct h
    (fun _ _ _ hheap => Heap.forall_mem_alloc hheap
      ⟨rfl, fun h2 => absurd h2 (by simp [TerrainTile.create])⟩)
    fun _ p hc => hc.build hframe hread p

/-- What the request loop adds is new. -/
theorem requestLoop_fresh (g : Gpu F) {locs : List Loc} {u : UpdateState F} {n : Nat}
    (hn : n ≤ u.heap.length) {a : Loc} (hno : u.tiles[a]? = none) {q : Nat}
    (hq : (locs.foldl (TerrainTileSelection.requestStep g) u).tiles[a]? = some q) : n ≤ q := by
  induction locs generalizing u with
  | nil => exact absurd (hno.symm.trans hq) (by simp)
  | cons loc locs ih =>
    rcases requestStep_cases g u loc with ⟨heq, -⟩ | ⟨hnone, -, parent, heq⟩
    · rw [List.foldl_cons, heq] at hq
      exact ih hn hno hq
    · rw [List.foldl_cons, heq] at hq
      -- the tile for `a` is the one created here, behind all others, or a later one
      by_cases hloc : loc = a
      · subst hloc
        have hnew : (addTile g u loc parent).tiles[loc]? = some u.heap.length := by
          rw [addTile_tiles, Map.entry_insertIfNew hnone, if_pos rfl]
        rw [requestLoop_kept g locs hnew] at hq
        cases hq
        exact hn
      · refine ih ?_ ?_ hq
        · rw [addTile_length]
          exact Nat.le_succ_of_le hn
        · rw [addTile_tiles, Map.entry_insertIfNew hnone, if_neg hloc]
          exact hno

/-- An address that is evicted and comes back has two tiles, which are both being built if no tile
is ready. -/
theorem twoBuilt_of_back {fr : Frame F} {s : TerrainTileSelection F} (h : Reachable s)
    (hfr : Orders fr s) (level : Level) (hsize : s.tiles.size > 100) {a : Loc}
    (hevicted : a ∈ fr.sorted.take 20) (hback : a ∈ (update fr level s).2.tiles)
    (hnone : ∀ t ∈ (update fr level s).2.heap, t.dataready = false) :
    ∃ p q t u, p ≠ q ∧ p ∈ (update fr level s).2.buildingTiles ∧
      q ∈ (update fr level s).2.buildingTiles ∧ (update fr level s).2.heap[p]? = some t ∧
      t.l = a ∧ (update fr level s).2.heap[q]? = some u ∧ u.l = a ∧
      (update fr level s).2.tiles[a]? = some q := by
  have hold := inv_of_reachable h
  have hnew := hold.update hfr level
  have hbuilding : ∀ p t, (update fr level s).2.heap[p]? = some t →
      p ∈ (update fr level s).2.buildingTiles := fun p t ht =>
    (hnew.building p).mpr ⟨t, ht, hnone t (List.mem_of_getElem? ht)⟩
  obtain ⟨p, hp⟩ := Map.exists_entry ((hfr.take 20).2 a hevicted)
  obtain ⟨q, hq⟩ := Map.exists_entry hback
  obtain ⟨t, ht, hl⟩ := hold.tiles a p hp
  obtain ⟨t', ht', hl', -⟩ := hold.update_evolves hfr level p t ht
  obtain ⟨u, hu, hul⟩ := hnew.tiles a q hq
  refine ⟨p, q, t', u, ?_, hbuilding p t' ht', hbuilding q u hu, ht', hl'.trans hl, hu, hul, hq⟩
  -- the entry was erased, so what is there now was created after it
  have hfresh : s.heap.length ≤ q := by
    rw [update_tiles] at hq
    refine requestLoop_fresh _ ?_ ?_ hq
    · rw [evict_toBuildState]
    · rw [evict_eq level hsize, evictAll_entry, if_pos hevicted]
  have hlt := Heap.lt_length ht
  omega

end Underway

theorem underway_crowded : Underway crowded.heap := by
  rw [crowded_eq]
  refine Underway.update (Int.zero_le_ofNat 1) (fun _ => show (1 : Int) < 2 by decide)
    (fun t ht => ?_) stored
  rw [asking_asking.heap] at ht
  exact absurd ht (by simp)

/-- The second frame: the corner is evicted, and requested still. -/
def twice : TerrainTileSelection Int32 := (update secondFrame stored crowded).2

/-- The evicted tile and the new one are both being built, and only one can be the entry. -/
theorem corner_built_twice : Reachable twice ∧ ∃ p q t u, p ≠ q ∧ p ∈ twice.buildingTiles ∧
    q ∈ twice.buildingTiles ∧ twice.heap[p]? = some t ∧ t.l = corner ∧
    twice.heap[q]? = some u ∧ u.l = corner ∧ twice.tiles[corner]? = some q := by
  refine ⟨reachable_crowded.tail (.update _ _ _ orders_secondFrame), ?_⟩
  refine twoBuilt_of_back reachable_crowded orders_secondFrame stored crowded_size corner_evicted
    (mem_update_crowded corner_mem _ _) fun t ht => ?_
  exact (underway_crowded.update (Int.le_refl 1) (fun _ => show (1 : Int) < 3 by decide) stored
    t ht).1

/-! ## Who goes first

A run with its history: the number of the frame, and for each tile the last frame in which
`RequestTile` answered with it, 0 if it never did. -/

/-- The history after an answer. -/
def handOut (answer : Option Nat) (frame : Nat) (last : Nat → Nat) : Nat → Nat :=
  match answer with
  | some p => Function.update last p frame
  | none => last

/-- The runs, with their history. -/
inductive Traced [FloatRep F] : TerrainTileSelection F → Nat → (Nat → Nat) → Prop
  | start : Traced initial 1 fun _ => 0
  | request {s : TerrainTileSelection F} {frame : Nat} {last : Nat → Nat} (level : Level)
      (loc : Loc) : Traced s frame last →
      Traced (requestTile level loc s).2 frame (handOut (requestTile level loc s).1 frame last)
  | update {s : TerrainTileSelection F} {frame : Nat} {last : Nat → Nat} {fr : Frame F}
      (level : Level) : Traced s frame last → Orders fr s →
      Traced (update fr level s).2 (frame + 1) last

theorem reachable_of_traced [FloatRep F] {s : TerrainTileSelection F} {frame : Nat}
    {last : Nat → Nat} (h : Traced s frame last) : Reachable s := by
  induction h with
  | start => exact .refl
  | request level loc _ ih => exact ih.tail (.request _ level loc)
  | update level _ hfr ih => exact ih.tail (.update _ level _ hfr)

/-- **The least recently used go first, whatever the sort does with equal stamps, exactly when no
tile was used more recently than another.** -/
theorem lru_iff [FloatRep F] {s : TerrainTileSelection F} {frame : Nat} {last : Nat → Nat}
    (h : Traced s frame last) (hsize : s.tiles.size > 100) :
    (∀ fr, Orders fr s → ∀ a ∈ fr.sorted.take 20, ∀ b, Kept fr s b → ∀ p q,
      s.tiles[a]? = some p → s.tiles[b]? = some q → last p ≤ last q) ↔
    ∀ (a b : Loc) (p q : Nat), s.tiles[a]? = some p → s.tiles[b]? = some q →
      last p = last q := by
  have hreach := reachable_of_traced h
  constructor
  · intro hlru
    have hle : ∀ (a b : Loc) (p q : Nat), s.tiles[a]? = some p → s.tiles[b]? = some q →
        last p ≤ last q := by
      intro a b p q hp hq
      have ha := Map.mem_of_entry hp
      have hb := Map.mem_of_entry hq
      by_cases hab : b = a
      · subst hab
        rw [Option.some.inj (hp.symm.trans hq)]
      -- an order is possible in which `a` is evicted and `b` is kept, as no stamp tells them apart
      · exact hlru _ (orders_evicting hreach ⟨0, fun _ => 0, fun _ _ => []⟩ ha hb hab) a
          (evicting_first _) b (evicting_last _ hsize ha hb hab) p q hp hq
    exact fun a b p q hp hq => Nat.le_antisymm (hle a b p q hp hq) (hle b a q p hq hp)
  · intro heq fr _ a _ b _ p q hp hq
    exact Nat.le_of_eq (heq a b p q hp hq)

/-! ### The far cell

It is in the database, so a request for it is answered at once. -/

theorem traced_requestAll [FloatRep F] {s : TerrainTileSelection F} {frame : Nat}
    {last : Nat → Nat} (h : Traced s frame last) (hs : Asking s) {locs : List Loc}
    (hlocs : ∀ loc ∈ locs, Near loc) : Traced (requestAll stored locs s) frame last := by
  induction locs generalizing s with
  | nil => exact h
  | cons loc locs ih =>
    obtain ⟨hnext, hnone, -⟩ := hs.requestTile (hlocs loc List.mem_cons_self)
    have hone := h.request stored loc
    rw [hnone] at hone
    exact ih hone hnext fun a ha => hlocs a (List.mem_cons_of_mem _ ha)

theorem traced_crowded : Traced crowded 2 fun _ => 0 := by
  have hasking : Traced asking 1 fun _ => 0 := by
    have hall := traced_requestAll (F := Int32) .start asking_initial near_crowd
    rw [asking_eq]
    exact hall
  rw [crowded_eq]
  exact hasking.update stored orders_firstFrame

/-- Whatever is created is near. -/
theorem Asking.near_update [FloatRep F] {fr : Frame F} {s : TerrainTileSelection F} (h : Asking s)
    (level : Level) : ∀ a ∈ (update fr level s).2.tiles, Near a := by
  intro a ha
  rw [update_tiles] at ha
  have hempty : (updateStart level s).tiles = ∅ := h.tiles
  have hstart : ∀ a ∈ (evict fr (updateStart level s)).tiles, Near a := by
    rw [evict_of_le (by rw [hempty]; exact Nat.zero_le _), hempty]
    simp
  -- from an empty map, the loop over the requests enters requested addresses only
  refine List.foldlRecOn s.requestTiles.toList (requestStep fr.toGpu)
    (motive := fun u => ∀ a ∈ u.tiles, Near a) hstart (fun u hu loc hloc a ha => ?_) a ha
  rcases requestStep_cases fr.toGpu u loc with ⟨heq, -⟩ | ⟨-, -, parent, heq⟩
  · rw [heq] at ha
    exact hu a ha
  · rw [heq, addTile_tiles] at ha
    rcases Std.TreeMap.mem_insertIfNew.mp ha with heq | ha
    · rw [← Loc.cmp_eq_iff.mp heq]
      exact h.near loc (Std.TreeSet.mem_toList.mp hloc)
    · exact hu a ha

theorem far_not_crowded : crowded.tiles[far]? = none := by
  rw [crowded_eq]
  refine Map.none_of_not_mem fun hmem => ?_
  exact absurd (asking_asking.near_update stored far hmem).x_le (by decide)

theorem requestTile_far [FloatRep F] {s : TerrainTileSelection F} (hno : s.tiles[far]? = none) :
    requestTile stored far s = (some s.heap.length, { s with
      heap := s.heap ++ [.ofChunk far []]
      tiles := s.tiles.insertIfNew far s.heap.length }) := by
  have hchunk : stored.getTerrainChunk far = some [] := by
    rw [stored, Level.getTerrainChunk, Level.writeTerrainChunk, Level.db_put, if_pos rfl]
  have hground : ({ far with y := 0 } : Loc) = far := rfl
  rw [requestTile_eq, hground]
  simp only [hno, hchunk]

/-- The far cell is handed out, and may be evicted in the same frame in favour of any other. -/
theorem far_evicted [FloatRep F] {s : TerrainTileSelection F} {frame : Nat} {last : Nat → Nat}
    (h : Traced s frame last) (hsize : s.tiles.size > 100) (hno : s.tiles[far]? = none) {b : Loc}
    {q : Nat} (hq : s.tiles[b]? = some q) (g : Gpu F) :
    let s' := (requestTile stored far s).2
    ∃ last', Traced s' frame last' ∧ s'.tiles.size > 100 ∧
      ∃ fr, Orders fr s' ∧ far ∈ fr.sorted.take 20 ∧ Kept fr s' b ∧
        ∃ p, s'.tiles[far]? = some p ∧ s'.tiles[b]? = some q ∧ last' p = frame ∧
          last' q = last q := by
  intro s'
  have htraced := h.request stored far
  have htiles : s'.tiles = s.tiles.insertIfNew far s.heap.length := by
    rw [show s' = _ from congrArg Prod.snd (requestTile_far hno)]
  have hne : b ≠ far := by
    rintro rfl
    exact absurd (hno.symm.trans hq) (by simp)
  have hfar : s'.tiles[far]? = some s.heap.length := by
    rw [htiles, Map.entry_insertIfNew hno, if_pos rfl]
  have hb : s'.tiles[b]? = some q := by
    rw [htiles, Map.entry_insertIfNew hno, if_neg hne.symm]
    exact hq
  have hsize' : s'.tiles.size > 100 := by
    rw [htiles, Map.size_insertIfNew_of_none hno]
    exact Nat.lt_succ_of_lt hsize
  obtain ⟨t, ht, -⟩ := (inv_of_reachable (reachable_of_traced h)).tiles b q hq
  have hlt := Heap.lt_length ht
  have hfar' := Map.mem_of_entry hfar
  have hb' := Map.mem_of_entry hb
  -- the tile that was just handed out is put first, the other one last
  refine ⟨_, htraced, hsize', _, orders_evicting (reachable_of_traced htraced) g hfar' hb' hne,
    evicting_first _, evicting_last _ hsize' hfar' hb' hne, _, hfar, hb, ?_, ?_⟩
  · rw [requestTile_far hno, handOut, Function.update_self]
  · rw [requestTile_far hno, handOut, Function.update_of_ne (Nat.ne_of_lt hlt)]

theorem far_evicted_crowded :
    let s := (requestTile stored far crowded).2
    ∃ last, Traced s 2 last ∧ s.tiles.size > 100 ∧
      ∃ fr, Orders fr s ∧ far ∈ fr.sorted.take 20 ∧ Kept fr s corner ∧
        ∃ p q, s.tiles[far]? = some p ∧ s.tiles[corner]? = some q ∧ last p = 2 ∧ last q = 0 := by
  obtain ⟨q, hq⟩ := Map.exists_entry (mem_crowded corner_mem)
  obtain ⟨last, htraced, hsize, fr, hfr, hfar, hkept, p, hp, hq', hlast, hnever⟩ :=
    far_evicted traced_crowded crowded_size far_not_crowded hq ⟨1, fun _ => 3, fun _ _ => []⟩
  exact ⟨last, htraced, hsize, fr, hfr, hfar, hkept, p, q, hp, hq', hlast, hnever⟩

/-- The far cell was handed out and the corner was not, so the order cannot be left to chance. -/
theorem lru_iff_far :
    let s := (requestTile stored far crowded).2
    ∃ last, Traced s 2 last ∧ s.tiles.size > 100 ∧
      ¬ ∀ fr, Orders fr s → ∀ a ∈ fr.sorted.take 20, ∀ b, Kept fr s b → ∀ p q,
        s.tiles[a]? = some p → s.tiles[b]? = some q → last p ≤ last q := by
  obtain ⟨last, htraced, hsize, -, -, -, -, p, q, hp, hq, hlast, hnever⟩ := far_evicted_crowded
  refine ⟨last, htraced, hsize, fun hlru => ?_⟩
  have heq := (lru_iff htraced hsize).mp hlru far corner p q hp hq
  rw [hlast, hnever] at heq
  exact absurd heq (by decide)

/-- A tile handed out in the second frame is evicted in it, while one that was never handed out
is kept. -/
theorem recently_used_evicted :
    let s := (requestTile stored far crowded).2
    ∃ last, Traced s 2 last ∧ s.tiles.size > 100 ∧
      ∃ fr, Orders fr s ∧ far ∈ fr.sorted.take 20 ∧ Kept fr s corner ∧
        ∃ p q, s.tiles[far]? = some p ∧ s.tiles[corner]? = some q ∧ last q < last p := by
  obtain ⟨last, htraced, hsize, fr, hfr, hfar, hkept, p, q, hp, hq, hlast, hnever⟩ :=
    far_evicted_crowded
  refine ⟨last, htraced, hsize, fr, hfr, hfar, hkept, p, q, hp, hq, ?_⟩
  rw [hlast, hnever]
  exact Nat.zero_lt_two

end TerrainTileSelection

end MapBg
