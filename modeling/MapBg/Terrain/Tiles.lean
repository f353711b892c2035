import MapBg.Terrain.Selection

/-!
# The map of terrain tiles

What each loop of `Update` and each branch of `RequestTile` does to `m_tiles`, and two consequences.

The counter `sNumTiles` is static and only displayed; nobody reads it back. `Update` adjusts it
where it creates and where it erases a tile. `RequestTile` inserts the tiles it reads from the
database and does not count them (`count_of_guarded`): from then on the counter is behind, and it
wraps when enough of the uncounted tiles are evicted.

The loop over `m_requestTiles` runs in the order of the set, which compares the level third. It
creates a tile only if the parent's tile is there, so it serves all requests in one pass only
because a parent comes before its children in that order. On the ground, with coordinates that are
not negative, it does (`Loc.parent_before`), and `RequestTile` notes the parent's request with the
child's (`requests_served`).
-/

set_option autoImplicit false

namespace MapBg

namespace TerrainTileSelection

variable {F : Type}

/-! ## The loops of `Update` -/

section Loops

variable [FloatRep F]

/-- A request is served exactly if it has no tile yet and is for level 0 or has a parent in the map;
otherwise nothing happens. -/
theorem requestStep_cases (g : Gpu F) (u : UpdateState F) (loc : Loc) :
    (requestStep g u loc = u ∧ (loc ∈ u.tiles ∨ 0 < loc.l ∧ loc.parent ∉ u.tiles)) ∨
    (u.tiles[loc]? = none ∧ (loc.l ≤ 0 ∨ loc.parent ∈ u.tiles) ∧
      ∃ parent, requestStep g u loc = addTile g u loc parent) := by
  unfold requestStep
  cases hloc : u.tiles[loc]? with
  | some p => exact .inl ⟨rfl, .inl (Map.mem_of_entry hloc)⟩
  | none =>
    simp only
    by_cases hl : loc.l > 0
    · rw [if_pos hl]
      cases hparent : u.tiles[loc.parent]? with
      | some q => exact .inr ⟨trivial, .inr (Map.mem_of_entry hparent), some q, rfl⟩
      | none => exact .inl ⟨rfl, .inr ⟨hl, Map.not_mem_of_none hparent⟩⟩
    · rw [if_neg hl]
      exact .inr ⟨trivial, .inl (by omega), none, rfl⟩

theorem addTile_tiles (g : Gpu F) (u : UpdateState F) (loc : Loc) (parent : Option Nat) :
    (addTile g u loc parent).tiles = u.tiles.insertIfNew loc u.heap.length := rfl

theorem addTile_sNumTiles (g : Gpu F) (u : UpdateState F) (loc : Loc) (parent : Option Nat) :
    (addTile g u loc parent).sNumTiles = u.sNumTiles + 1 := rfl

/-- What holds of the heap, if creating a tile and building one keep it, holds after `Update`. -/
theorem update_heap_induct {P : List (TerrainTile F) → Prop} {fr : Frame F} {level : Level}
    {s : TerrainTileSelection F} (hstart : P s.heap)
    (hcreate : ∀ (heap : List (TerrainTile F)) (loc : Loc) (parent : Option Nat), P heap →
      P (heap ++ [.create loc parent]))
    (hbuild : ∀ (c : BuildState F) (p : Nat), P c.heap →
      P (TerrainTile.build fr.toGpu p c).2.heap) : P (update fr level s).2.heap := by
  refine updateLoops_induct (P := fun u => P u.heap) hstart (fun _ _ hu => hu)
    (fun u loc _ hu => ?_) (fun u p hu => hbuild u.toBuildState p hu)
  rcases requestStep_cases fr.toGpu u loc with ⟨heq, -⟩ | ⟨-, -, parent, heq⟩
  · rw [heq]
    exact hu
  · rw [heq]
    exact hbuild { u.toBuildState with heap := u.heap ++ [.create loc parent] } _
      (hcreate u.heap loc parent hu)

theorem visit_tiles (g : Gpu F) (ps : List Nat) (u : UpdateState F) :
    (ps.foldl (buildTile g) u).tiles = u.tiles ∧
      (ps.foldl (buildTile g) u).sNumTiles = u.sNumTiles := by
  induction ps generalizing u with
  | nil => exact ⟨rfl, rfl⟩
  | cons p ps ih => exact ih (buildTile g u p)

/-- Where `Update` is after its second loop. The third leaves the map alone. -/
def afterRequests (fr : Frame F) (level : Level) (s : TerrainTileSelection F) : UpdateState F :=
  s.requestTiles.toList.foldl (requestStep fr.toGpu) (evict fr (updateStart level s))

/-- So the map after a frame is the one after the loop over the requests. -/
theorem update_tiles (fr : Frame F) (level : Level) (s : TerrainTileSelection F) :
    (update fr level s).2.tiles = (afterRequests fr level s).tiles :=
  (visit_tiles fr.toGpu fr.visit (afterRequests fr level s)).1

theorem update_sNumTiles (fr : Frame F) (level : Level) (s : TerrainTileSelection F) :
    (update fr level s).2.sNumTiles = (afterRequests fr level s).sNumTiles :=
  (visit_tiles fr.toGpu fr.visit (afterRequests fr level s)).2

theorem update_requestTiles (fr : Frame F) (level : Level) (s : TerrainTileSelection F) :
    (update fr level s).2.requestTiles = s.requestTiles := rfl

/-- The request loop never changes an entry that is there. -/
theorem requestStep_kept (g : Gpu F) {u : UpdateState F} (loc : Loc) {a : Loc} {p : Nat}
    (h : u.tiles[a]? = some p) : (requestStep g u loc).tiles[a]? = some p := by
  rcases requestStep_cases g u loc with ⟨heq, -⟩ | ⟨hnone, -, parent, heq⟩
  · rw [heq]
    exact h
  · rw [heq, addTile_tiles, Map.entry_insertIfNew hnone, if_neg]
    · exact h
    · rintro rfl
      exact absurd (hnone.symm.trans h) (by simp)

theorem requestLoop_kept (g : Gpu F) (locs : List Loc) {u : UpdateState F} {a : Loc} {p : Nat}
    (h : u.tiles[a]? = some p) : (locs.foldl (requestStep g) u).tiles[a]? = some p := by
  induction locs generalizing u with
  | nil => exact h
  | cons loc locs ih => exact ih (requestStep_kept g loc h)

theorem requestLoop_mem (g : Gpu F) (locs : List Loc) {u : UpdateState F} {a : Loc}
    (h : a ∈ u.tiles) : a ∈ (locs.foldl (requestStep g) u).tiles := by
  obtain ⟨p, hp⟩ := Map.exists_entry h
  exact Map.mem_of_entry (requestLoop_kept g locs hp)

/-- A request that can be served is. -/
theorem requestStep_mem (g : Gpu F) {u : UpdateState F} {loc : Loc}
    (h : loc.l ≤ 0 ∨ loc.parent ∈ u.tiles) : loc ∈ (requestStep g u loc).tiles := by
  rcases requestStep_cases g u loc with ⟨heq, hmem | ⟨hl, hparent⟩⟩ | ⟨-, -, parent, heq⟩
  · rw [heq]
    exact hmem
  · rcases h with h | h
    · omega
    · exact absurd h hparent
  · rw [heq, addTile_tiles]
    exact Std.TreeMap.mem_insertIfNew_self

end Loops

section Evict

variable (es : List Loc) (u : UpdateState F)

theorem evictAll_toBuildState : (es.foldl evictOne u).toBuildState = u.toBuildState := by
  induction es generalizing u with
  | nil => rfl
  | cons e es ih => exact ih (evictOne u e)

theorem evictAll_entry (a : Loc) :
    (es.foldl evictOne u).tiles[a]? = if a ∈ es then none else u.tiles[a]? := by
  induction es generalizing u with
  | nil => simp
  | cons e es ih =>
    rw [List.foldl_cons, ih, evictOne, Map.entry_erase]
    by_cases hes : a ∈ es
    · simp [hes]
    · by_cases hae : e = a
      · simp [hae]
      · simp [hes, hae, Ne.symm hae]

theorem evictAll_mem (a : Loc) : a ∈ (es.foldl evictOne u).tiles ↔ a ∈ u.tiles ∧ a ∉ es := by
  rw [Std.TreeMap.mem_iff_isSome_getElem?, evictAll_entry, Std.TreeMap.mem_iff_isSome_getElem?]
  by_cases ha : a ∈ es <;> simp [ha]

variable {es u}

/-- Evicting one tile leaves those that are to follow. -/
theorem mem_evictOne {e : Loc} (hnot : e ∉ es) (hmem : ∀ a ∈ e :: es, a ∈ u.tiles) :
    ∀ a ∈ es, a ∈ (evictOne u e).tiles := by
  intro a ha
  refine Std.TreeMap.mem_erase.mpr ⟨fun heq => ?_, hmem a (List.mem_cons_of_mem _ ha)⟩
  exact hnot (Loc.cmp_eq_iff.mp heq ▸ ha)

/-- Each of them counts for one, if they are different and are all there. -/
theorem evictAll_size (hnodup : es.Nodup) (hmem : ∀ e ∈ es, e ∈ u.tiles) :
    (es.foldl evictOne u).tiles.size + es.length = u.tiles.size := by
  induction es generalizing u with
  | nil => rfl
  | cons e es ih =>
    obtain ⟨hnot, hnodup⟩ := List.nodup_cons.mp hnodup
    have hsize := ih hnodup (mem_evictOne hnot hmem)
    have hone := Map.size_erase_add_one (hmem e List.mem_cons_self)
    rw [List.foldl_cons, List.length_cons]
    rw [show (evictOne u e).tiles = u.tiles.erase e from rfl] at hsize
    omega

end Evict

theorem evict_of_le {fr : Frame F} {u : UpdateState F} (h : u.tiles.size ≤ 100) :
    evict fr u = u := by
  rw [evict, if_neg (by omega)]

/-- The tiles that come first are different ones, and are there. -/
theorem Orders.take {fr : Frame F} {s : TerrainTileSelection F} (h : Orders fr s) (k : Nat) :
    (fr.sorted.take k).Nodup ∧ ∀ e ∈ fr.sorted.take k, e ∈ s.tiles := by
  have hnodup : fr.sorted.Nodup := h.sorted_perm.nodup_iff.mpr (Map.nodup_keys s.tiles)
  refine ⟨hnodup.sublist (List.take_sublist ..), fun e he => ?_⟩
  rw [← Std.TreeMap.mem_keys, ← h.sorted_perm.mem_iff]
  exact List.mem_of_mem_take he

/-! ## The counter -/

/-- The counter is the number of tiles in the map, in 64 bits. -/
def Counted (sNumTiles : UInt64) (tiles : Std.TreeMap Loc Nat Loc.cmp) : Prop :=
  sNumTiles = UInt64.ofNat tiles.size

theorem Counted.evictAll {es : List Loc} {u : UpdateState F} (h : Counted u.sNumTiles u.tiles)
    (hnodup : es.Nodup) (hmem : ∀ e ∈ es, e ∈ u.tiles) :
    Counted (es.foldl evictOne u).sNumTiles (es.foldl evictOne u).tiles := by
  induction es generalizing u with
  | nil => exact h
  | cons e es ih =>
    obtain ⟨hnot, hnodup⟩ := List.nodup_cons.mp hnodup
    refine ih (u := evictOne u e) ?_ hnodup (mem_evictOne hnot hmem)
    show u.sNumTiles - 1 = UInt64.ofNat (u.tiles.erase e).size
    rw [show u.sNumTiles = _ from h, Map.ofNat_size_erase (hmem e List.mem_cons_self)]

/-- The counter is positive at each of the decrements, for as many tiles as a `size_t` can
count. -/
theorem Counted.evict_ne_zero {s : TerrainTileSelection F} (h : Counted s.sNumTiles s.tiles)
    {fr : Frame F} (hfr : Orders fr s) (level : Level) (hsize : s.tiles.size > 100)
    (hword : s.tiles.size < 2 ^ 64) {k : Nat} (hk : k < 20) :
    ((fr.sorted.take k).foldl evictOne (updateStart level s)).sNumTiles ≠ 0 := by
  obtain ⟨hnodup, hmem⟩ := hfr.take k
  have hcount : _ = UInt64.ofNat _ := Counted.evictAll (u := updateStart level s) h hnodup hmem
  have hleft := evictAll_size (u := updateStart level s) hnodup hmem
  have hlen : (fr.sorted.take k).length ≤ k := List.length_take_le ..
  rw [hcount]
  intro hzero
  have hstart : (updateStart level s).tiles.size = s.tiles.size := rfl
  -- there are more than a hundred tiles and fewer than 2⁶⁴, so the word does not hide a wrap
  have hlt : ((fr.sorted.take k).foldl evictOne (updateStart level s)).tiles.size < 2 ^ 64 := by
    omega
  have hnat := (UInt64.toNat_ofNat' ..).symm.trans (congrArg UInt64.toNat hzero)
  rw [Nat.mod_eq_of_lt hlt, UInt64.toNat_zero] at hnat
  omega

section Counted

variable [FloatRep F]

theorem Counted.requestStep (g : Gpu F) {u : UpdateState F} (h : Counted u.sNumTiles u.tiles)
    (loc : Loc) : Counted (requestStep g u loc).sNumTiles (requestStep g u loc).tiles := by
  rcases requestStep_cases g u loc with ⟨heq, -⟩ | ⟨hnone, -, parent, heq⟩
  · rw [heq]
    exact h
  · rw [heq, addTile_tiles, addTile_sNumTiles, show u.sNumTiles = _ from h]
    exact Map.ofNat_size_insertIfNew hnone _

/-- A frame counts correctly: one down for each tile that is erased, one up for each that is added.
-/
theorem Counted.update {fr : Frame F} {s : TerrainTileSelection F}
    (h : Counted s.sNumTiles s.tiles) (hfr : Orders fr s) (level : Level) :
    Counted (update fr level s).2.sNumTiles (update fr level s).2.tiles := by
  have hevicted : Counted (evict fr (updateStart level s)).sNumTiles
      (evict fr (updateStart level s)).tiles := by
    unfold evict
    split
    · exact Counted.evictAll h (hfr.take 20).1 (hfr.take 20).2
    · exact h
  rw [update_tiles, update_sNumTiles]
  exact List.foldlRecOn s.requestTiles.toList (TerrainTileSelection.requestStep fr.toGpu)
    (motive := fun u => Counted u.sNumTiles u.tiles) hevicted fun u hu loc _ => hu.requestStep _ loc

/-- A request for `loc` comes to an address that has no tile and finds its chunk in the
database. -/
inductive ReadsStore (level : Level) (s : TerrainTileSelection F) : Loc → Prop
  | here {loc : Loc} : s.tiles[({ loc with y := 0 } : Loc)]? = none →
      level.getTerrainChunk { loc with y := 0 } ≠ none → ReadsStore level s loc
  | above {loc : Loc} : s.tiles[({ loc with y := 0 } : Loc)]? = none → 0 < loc.l →
      ReadsStore level s ({ loc with y := 0 } : Loc).parent → ReadsStore level s loc

theorem requestTile_sNumTiles (level : Level) (loc : Loc) (s : TerrainTileSelection F) :
    (requestTile level loc s).2.sNumTiles = s.sNumTiles :=
  requestTile_induct (P := fun s' => s'.sNumTiles = s.sNumTiles) (Q := fun _ => True)
    (fun _ _ => trivial) (fun _ _ _ => trivial) (fun _ _ _ _ _ hs => hs)
    (fun _ _ _ _ _ hs => hs) trivial rfl

/-- At most one chunk is read, by the topmost of the recursive calls. -/
theorem requestTile_tiles (level : Level) (loc : Loc) (s : TerrainTileSelection F) :
    (ReadsStore level s loc → (requestTile level loc s).2.tiles.size = s.tiles.size + 1) ∧
    (¬ ReadsStore level s loc → (requestTile level loc s).2.tiles = s.tiles) := by
  -- on the levels above: the recursion ends where there is a tile or a chunk, which adds a tile
  induction hdepth : loc.l.toNat using Nat.strongRecOn generalizing loc with
  | ind depth ih =>
    rw [requestTile_eq]
    simp only
    cases htile : s.tiles[({ loc with y := 0 } : Loc)]? with
    | some p =>
      refine ⟨fun hread => ?_, fun _ => rfl⟩
      cases hread with
      | here hnone _ => exact absurd (htile.symm.trans hnone) (by simp)
      | above hnone _ _ => exact absurd (htile.symm.trans hnone) (by simp)
    | none =>
      cases hchunk : level.getTerrainChunk { loc with y := 0 } with
      | some val =>
        refine ⟨fun _ => Map.size_insertIfNew_of_none htile _, fun hno => ?_⟩
        exact absurd (.here htile (by simp [hchunk])) hno
      | none =>
        simp only
        by_cases hl : loc.l > 0
        · rw [if_pos hl]
          have habove := ih (loc.l - 1).toNat (by omega) ({ loc with y := 0 } : Loc).parent rfl
          refine ⟨fun hread => ?_, fun hno => habove.2 fun hread => hno (.above htile hl hread)⟩
          cases hread with
          | here _ hsome => exact absurd hchunk hsome
          | above _ _ hread => exact habove.1 hread
        · rw [if_neg hl]
          refine ⟨fun hread => ?_, fun _ => rfl⟩
          cases hread with
          | here _ hsome => exact absurd hchunk hsome
          | above _ hl' _ => exact absurd hl' hl

/-- A step that does not make a tile from the database. -/
def GuardedStep (s s' : TerrainTileSelection F) : Prop :=
  (∃ level loc, ¬ ReadsStore level s loc ∧ s' = (requestTile level loc s).2) ∨
  ∃ fr level, Orders fr s ∧ s' = (TerrainTileSelection.update fr level s).2

/-- A run without such a step. -/
def Guarded (s : TerrainTileSelection F) : Prop := Relation.ReflTransGen GuardedStep initial s

theorem counted_of_guarded {s : TerrainTileSelection F} (h : Guarded s) :
    Counted s.sNumTiles s.tiles := by
  induction h with
  | refl => rfl
  | tail _ hstep ih =>
    rcases hstep with ⟨level, loc, hno, rfl⟩ | ⟨fr, level, hfr, rfl⟩
    · rw [(requestTile_tiles level loc _).2 hno, requestTile_sNumTiles]
      exact ih
    · exact ih.update hfr level

/-- Such a step adds a tile that is not counted. -/
theorem Counted.ne_of_reads {s : TerrainTileSelection F} (h : Counted s.sNumTiles s.tiles)
    {level : Level} {loc : Loc} (hread : ReadsStore level s loc) :
    ¬ Counted (requestTile level loc s).2.sNumTiles (requestTile level loc s).2.tiles := by
  intro hafter
  unfold Counted at h hafter
  rw [requestTile_sNumTiles, (requestTile_tiles level loc s).1 hread, h, UInt64.ofNat_add] at hafter
  exact absurd hafter (by simp)

/-- **The counter is right, and never wraps, in every run in which no request reads a chunk from
the database**; the first one that does makes it wrong. -/
theorem count_of_guarded {s : TerrainTileSelection F} (h : Guarded s) :
    s.sNumTiles = UInt64.ofNat s.tiles.size ∧
    (∀ (fr : Frame F) (level : Level), Orders fr s → s.tiles.size > 100 →
      s.tiles.size < 2 ^ 64 → ∀ k < 20,
        ((fr.sorted.take k).foldl evictOne (updateStart level s)).sNumTiles ≠ 0) ∧
    ∀ (level : Level) (loc : Loc), ReadsStore level s loc →
      (requestTile level loc s).2.sNumTiles ≠
        UInt64.ofNat (requestTile level loc s).2.tiles.size := by
  have hcount := counted_of_guarded h
  exact ⟨hcount, fun fr level hfr hsize hword k hk => hcount.evict_ne_zero hfr level hsize hword hk,
    fun level loc hread => hcount.ne_of_reads hread⟩

end Counted

theorem not_readsStore_empty (s : TerrainTileSelection F) (loc : Loc) :
    ¬ ReadsStore Level.empty s loc := by
  intro h
  induction h with
  | here _ hsome => exact hsome rfl
  | above _ _ _ ih => exact ih

theorem count_of_guarded_twoLevels : Guarded twoLevels ∧ twoLevels.sNumTiles = 2 ∧
    twoLevels.sNumTiles = UInt64.ofNat twoLevels.tiles.size := by
  have hguarded : Guarded twoLevels := by
    refine (Relation.ReflTransGen.refl.tail (.inl ⟨Level.empty, ⟨0, 0, 0, 1⟩,
      not_readsStore_empty _ _, rfl⟩)).tail (.inr ⟨_, Level.empty, ⟨?_, ?_, ?_⟩, rfl⟩)
    · decide
    · exact List.Pairwise.nil
    · decide
  exact ⟨hguarded, by decide, (count_of_guarded hguarded).1⟩

/-- The database has a chunk for the root, and the root is requested. -/
theorem store_tile_not_counted :
    let level := Level.empty.writeTerrainChunk Loc.root []
    let s := (requestTile level Loc.root (initial : TerrainTileSelection Int32)).2
    Reachable s ∧ s.tiles.size = 1 ∧ s.sNumTiles = 0 := by
  refine ⟨Relation.ReflTransGen.refl.tail (.request _ _ _), ?_, ?_⟩
  · refine (requestTile_tiles _ _ _).1 (.here rfl ?_)
    simp [Level.getTerrainChunk, Level.writeTerrainChunk, Level.put, Loc.root]
  · exact requestTile_sNumTiles ..

/-! ## One pass over the requests -/

section Serve

variable [FloatRep F]

/-- By induction on the requests, in the order of the set. The parent of a request comes before it,
so when its turn comes the parent has a tile. -/
theorem requestLoop_serves (g : Gpu F) {locs : List Loc} {u : UpdateState F}
    (hsorted : locs.Pairwise fun a b => Loc.cmp a b = .lt)
    (hasked : ∀ loc ∈ locs, loc.l ≤ 0 ∨ loc.parent ∈ u.tiles ∨
      loc.parent ∈ locs ∧ Loc.cmp loc.parent loc = .lt) :
    ∀ loc ∈ locs, loc ∈ (locs.foldl (requestStep g) u).tiles := by
  induction locs generalizing u with
  | nil => simp
  | cons a locs ih =>
    obtain ⟨hfirst, hrest⟩ := List.pairwise_cons.mp hsorted
    -- nothing in the list comes before its head, so the head's parent is not to be waited for
    have hservable : a.l ≤ 0 ∨ a.parent ∈ u.tiles := by
      rcases hasked a List.mem_cons_self with h | h | ⟨hmem, hlt⟩
      · exact .inl h
      · exact .inr h
      · rcases List.mem_cons.mp hmem with heq | hmem
        · rw [heq, Loc.cmp_eq_iff.mpr rfl] at hlt
          exact absurd hlt (by simp)
        · have hgt := Std.OrientedCmp.gt_of_lt (hfirst _ hmem)
          exact absurd (hlt.symm.trans hgt) (by simp)
    have hhead := requestStep_mem g hservable
    intro loc hloc
    rcases List.mem_cons.mp hloc with rfl | hloc
    · exact requestLoop_mem g locs hhead
    · refine ih hrest (fun b hb => ?_) loc hloc
      rcases hasked b (List.mem_cons_of_mem _ hb) with h | h | ⟨hmem, hlt⟩
      · exact .inl h
      · exact .inr (.inl (requestLoop_mem g [a] h))
      · rcases List.mem_cons.mp hmem with heq | hmem
        · rw [heq]
          exact .inr (.inl hhead)
        · exact .inr (.inr ⟨hmem, hlt⟩)

end Serve

/-- Every request is on the ground, and its parent has a tile or is requested too. -/
structure Asked (tiles : Std.TreeMap Loc Nat Loc.cmp) (requestTiles : Std.TreeSet Loc Loc.cmp) :
    Prop where
  ground : ∀ loc ∈ requestTiles, loc.y = 0 ∧ 0 ≤ loc.x
  parent : ∀ loc ∈ requestTiles, loc.l ≤ 0 ∨ loc.parent ∈ tiles ∨ loc.parent ∈ requestTiles

theorem Asked.mono {tiles tiles' : Std.TreeMap Loc Nat Loc.cmp}
    {requestTiles : Std.TreeSet Loc Loc.cmp} (h : Asked tiles requestTiles)
    (hsub : ∀ loc, loc ∈ tiles → loc ∈ tiles') : Asked tiles' requestTiles :=
  ⟨h.ground, fun loc hloc => (h.parent loc hloc).imp_right (.imp_left (hsub _))⟩

/-- A request is noted after that for its parent. -/
theorem Asked.insert {tiles : Std.TreeMap Loc Nat Loc.cmp} {requestTiles : Std.TreeSet Loc Loc.cmp}
    (h : Asked tiles requestTiles) {tl : Loc} (hy : tl.y = 0) (hx : 0 ≤ tl.x)
    (hparent : tl.l ≤ 0 ∨ tl.parent ∈ tiles ∨ tl.parent ∈ requestTiles) :
    Asked tiles (requestTiles.insert tl) := by
  have hnew : ∀ loc ∈ requestTiles.insert tl, tl = loc ∨ loc ∈ requestTiles := fun loc hloc =>
    (Std.TreeSet.mem_insert.mp hloc).imp_left Loc.cmp_eq_iff.mp
  have hold : ∀ loc ∈ requestTiles, loc ∈ requestTiles.insert tl := fun loc hloc =>
    Std.TreeSet.mem_insert.mpr (.inr hloc)
  refine ⟨fun loc hloc => ?_, fun loc hloc => ?_⟩
  · rcases hnew loc hloc with rfl | hloc
    · exact ⟨hy, hx⟩
    · exact h.ground loc hloc
  · rcases hnew loc hloc with rfl | hloc
    -- the new request: its parent was asked for before it
    · exact hparent.imp_right (.imp_right (hold _))
    · exact (h.parent loc hloc).imp_right (.imp_right (hold _))

section Serve

variable [FloatRep F]

theorem Asked.requestTile {s : TerrainTileSelection F} (h : Asked s.tiles s.requestTiles)
    (level : Level) {loc : Loc} (hx : 0 ≤ loc.x) :
    Asked (requestTile level loc s).2.tiles (requestTile level loc s).2.requestTiles := by
  refine requestTile_induct (P := fun s => Asked s.tiles s.requestTiles) (Q := fun a => 0 ≤ a.x)
    (fun _ ha => ha) (fun a ha _ => ?_) (fun s tl val _ _ hs => hs.mono fun a ha => ?_)
    (fun s tl hx hy hparent hs => hs.insert hy hx hparent) hx h
  · rw [Loc.parent_eq]
    show 0 ≤ a.x / 2
    omega
  · exact Std.TreeMap.mem_insertIfNew.mpr (.inr ha)

/-- Whatever has been evicted before the loop, the loop serves every request. -/
theorem Asked.served {fr : Frame F} {level : Level} {s : TerrainTileSelection F}
    (h : Asked (evict fr (updateStart level s)).tiles s.requestTiles) :
    ∀ loc ∈ s.requestTiles, loc ∈ (update fr level s).2.tiles := by
  intro loc hloc
  rw [update_tiles]
  refine requestLoop_serves fr.toGpu Std.TreeSet.ordered_toList (fun a ha => ?_) loc
    (Std.TreeSet.mem_toList.mpr hloc)
  rw [Std.TreeSet.mem_toList] at ha
  obtain ⟨hy, hx⟩ := h.ground a ha
  rcases h.parent a ha with hl | htile | hrequest
  · exact .inl hl
  · exact .inr (.inl htile)
  · exact .inr (.inr ⟨Std.TreeSet.mem_toList.mpr hrequest, Loc.parent_before hy hx⟩)

/-- A run whose requests are for cells of the octree's quadrant and in which nothing is evicted. -/
def UncrowdedStep (s s' : TerrainTileSelection F) : Prop :=
  (∃ (level : Level) (loc : Loc), 0 ≤ loc.l ∧ 0 ≤ loc.x ∧ 0 ≤ loc.y ∧ 0 ≤ loc.z ∧
    s' = (TerrainTileSelection.requestTile level loc s).2) ∨
  ∃ fr level, Orders fr s ∧ s.tiles.size ≤ 100 ∧ s' = (update fr level s).2

/-- A run in which there are never more than a hundred tiles. -/
def Uncrowded (s : TerrainTileSelection F) : Prop :=
  Relation.ReflTransGen UncrowdedStep initial s

theorem asked_of_uncrowded {s : TerrainTileSelection F} (h : Uncrowded s) :
    Asked s.tiles s.requestTiles := by
  induction h with
  | refl => exact ⟨by simp [initial], by simp [initial]⟩
  | @tail s _ _ hstep ih =>
    rcases hstep with ⟨level, loc, -, hx, -, -, rfl⟩ | ⟨fr, level, -, hsize, rfl⟩
    · exact ih.requestTile level hx
    · refine ih.mono fun a ha => ?_
      rw [update_tiles, afterRequests, evict_of_le (u := updateStart level s) hsize]
      exact requestLoop_mem _ _ (u := updateStart level s) ha

/-- **Requests are served in one pass**: as long as nothing is evicted, every requested address
has a tile after an `Update`, because the loop comes to a missing parent before it comes to the
child. -/
theorem requests_served {s : TerrainTileSelection F} (h : Uncrowded s) {fr : Frame F}
    (hsize : s.tiles.size ≤ 100) (level : Level) :
    (∀ loc ∈ (update fr level s).2.requestTiles, loc ∈ (update fr level s).2.tiles) ∧
    ∀ loc ∈ s.requestTiles, 0 < loc.l → loc.parent ∉ s.tiles →
      loc.parent ∈ s.requestTiles ∧ Loc.cmp loc.parent loc = .lt := by
  have hasked := asked_of_uncrowded h
  refine ⟨?_, fun loc hloc hl hno => ?_⟩
  -- with a hundred tiles or fewer nothing is evicted before the loop
  · have hstart : Asked (evict fr (updateStart level s)).tiles s.requestTiles := by
      rw [evict_of_le (u := updateStart level s) hsize]
      exact hasked
    exact hstart.served
  · obtain ⟨hy, hx⟩ := hasked.ground loc hloc
    refine ⟨?_, Loc.parent_before hy hx⟩
    rcases hasked.parent loc hloc with hle | htile | hrequest
    · omega
    · exact absurd htile hno
    · exact hrequest

end Serve

/-- The cell (1, 0, 0) of level 1 is requested on an empty database. -/
theorem requests_served_child :
    let s := (requestTile Level.empty ⟨1, 0, 0, 1⟩ (initial : TerrainTileSelection Int32)).2
    let fr : Frame Int32 := ⟨⟨0, fun _ => 2, fun _ _ => []⟩, [], []⟩
    Uncrowded s ∧ Orders fr s ∧ s.tiles.size ≤ 100 ∧
      ∀ loc ∈ (update fr Level.empty s).2.requestTiles,
        loc ∈ (update fr Level.empty s).2.tiles := by
  intro s fr
  have hrun : Uncrowded s := Relation.ReflTransGen.refl.tail
    (.inl ⟨Level.empty, ⟨1, 0, 0, 1⟩, by decide, by decide, by decide, by decide, rfl⟩)
  have hfr : Orders fr s := ⟨by decide, List.Pairwise.nil, by decide⟩
  exact ⟨hrun, hfr, by decide, (requests_served hrun (by decide) Level.empty).1⟩

end TerrainTileSelection

end MapBg
