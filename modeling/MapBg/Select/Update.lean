import MapBg.Lib.Map
import MapBg.Oct.Tile

/-!
# `OctTileSelection::Update`: the tile table follows the selection

Once a frame `Update` gets the `Loc`s to show and brings `m_tiles` in line: it creates the tiles
that are missing, hands those that are not loaded to the loader thread, and decommissions and
erases the tiles of last frame's `Loc`s that were not selected again. Two of its lookups are not
checked: the one before `Decomission` and the one that stores the distances. An iterator that
dereferences to nothing makes the model's `update` answer `none`.

Between two frames the loader thread takes tiles off the queue and calls `BackgroundLoad` on them;
it may still hold a tile that was decommissioned in the meantime. Whatever the database and the
terrain are at that time, these steps neither touch the table nor a tile's address.

`decomissions` is not in the source: it records the calls of `Decomission`, in order, so that
"exactly once" can be said.
-/

set_option autoImplicit false

namespace MapBg

/-- The class `OctTileSelection`. Tiles stay in `heap` when they are erased from the table, since
the loader may hold them. `decomissions` is not in the source: it records the calls of
`Decomission`, to be able to say that each tile gets one. -/
structure OctTileSelection (F : Type) where
  heap : List (OctTile F)
  tiles : Std.TreeMap Loc Nat Loc.cmp
  activeTiles : Std.TreeSet Loc Loc.cmp
  loaderTiles : List Nat
  sNumTiles : UInt64
  decomissions : List Nat

namespace OctTileSelection

variable {F : Type}

def initial : OctTileSelection F := ⟨[], ∅, ∅, [], 0, []⟩

/-! ## `Update` -/

/-- `GetReadyState`, through a pointer. -/
def getReadyState (heap : List (OctTile F)) (p : Nat) : Int :=
  match heap[p]? with
  | some o => o.readyState
  | none => 0

/-- `m_tiles.find(l)`, and the creation of the tile if it is not there. -/
def findOrCreate (s : OctTileSelection F) (l : Loc) : OctTileSelection F × Nat :=
  match s.tiles[l]? with
  | some p => (s, p)
  | none =>
    let p := s.heap.length
    ({ s with
      heap := s.heap ++ [.create l]
      tiles := s.tiles.insertIfNew l p
      sNumTiles := s.sNumTiles + 1 }, p)

/-- One turn of the loop over the selection: the tile is found or created, and queued if it is not
loaded. -/
def selectOne (u : OctTileSelection F × List Nat) (l : Loc) : OctTileSelection F × List Nat :=
  let (s, p) := u.1.findOrCreate l
  ({ s with activeTiles := s.activeTiles.insert l },
    if getReadyState s.heap p < 3 then u.2 ++ [p] else u.2)

/-- One turn of the loop over the tiles that were active before. There is no value if the tile is
not in the table, where the source would go through an invalid iterator. -/
def decomissionOne (s : OctTileSelection F) (loc : Loc) : Option (OctTileSelection F) :=
  if s.activeTiles.contains loc then some s
  else
    match s.tiles[loc]? with
    | none => none
    | some p => some { s with
        heap := s.heap.modify p OctTile.decomission
        tiles := s.tiles.erase loc
        sNumTiles := s.sNumTiles - 1
        decomissions := s.decomissions ++ [p] }

/-- One turn of the loop that notes how far away the tiles are, with the same iterator. -/
def setDistance [FloatLike F] (campos camdir : Point3 F) (s : OctTileSelection F) (loc : Loc) :
    Option (OctTileSelection F) :=
  match s.tiles[loc]? with
  | none => none
  | some p => some { s with
      heap := s.heap.modify p fun o =>
        { o with distance := some (getLocDistance loc campos camdir) } }

/-- The first loop, over the sorted selection, and the swap of the loader's queue. -/
def selectAll (locs : List Loc) (s : OctTileSelection F) : OctTileSelection F :=
  let sorted := locs.mergeSort fun a b => !b.memberLess a
  let (s, loaderTiles) := sorted.foldl selectOne ({ s with activeTiles := ∅ }, [])
  { s with loaderTiles }

/-- `OctTileSelection::Update`, from where the selection has been computed. -/
def update [FloatLike F] (campos camdir : Point3 F) (locs : List Loc) (s : OctTileSelection F) :
    Option (OctTileSelection F) := do
  let oldTiles := s.activeTiles
  let s ← oldTiles.toList.foldlM decomissionOne (s.selectAll locs)
  s.activeTiles.toList.foldlM (setDistance campos camdir) s

/-! ## Runs -/

/-- What the loader thread does to the selection: it takes the last tile off its queue, and it loads
a tile. It may still be loading one that has left the table since, so any tile may be loaded. -/
inductive LoaderStep [FloatRep F] : OctTileSelection F → OctTileSelection F → Prop
  | pop (s : OctTileSelection F) : s.loaderTiles ≠ [] →
      LoaderStep s { s with loaderTiles := s.loaderTiles.dropLast }
  | load (s : OctTileSelection F) (p fuel : Nat) (level : Level)
      (terrain : TerrainTileSelection F) :
      LoaderStep s { s with heap := s.heap.modify p fun o =>
        (OctTile.backgroundLoad fuel level terrain o).tile }

/-- A frame, or a step of the loader. -/
inductive Step [FloatRep F] : OctTileSelection F → OctTileSelection F → Prop
  | update {s s' : OctTileSelection F} (campos camdir : Point3 F) (locs : List Loc) :
      update campos camdir locs s = some s' → Step s s'
  | loader {s s' : OctTileSelection F} : LoaderStep s s' → Step s s'

/-- Any number of frames, with the loader at work between them. -/
def Reachable [FloatRep F] (s : OctTileSelection F) : Prop :=
  Relation.ReflTransGen Step initial s

/-! ## The invariant

`Table` is what holds at every point, inside `Update` too: the counter counts, every entry is a
tile for its key, and a tile is decommissioned, once, if and only if it is no longer the entry
for its address. -/

/-- The counter counts; every entry is a tile of its address; and the entries are the tiles that
were not decommissioned, which each of the others was once. -/
structure Table (s : OctTileSelection F) : Prop where
  count : s.sNumTiles = UInt64.ofNat s.tiles.size
  entries : ∀ (loc : Loc) (p : Nat), s.tiles[loc]? = some p → ∃ o, s.heap[p]? = some o ∧ o.l = loc
  current : ∀ (p : Nat) (o : OctTile F), s.heap[p]? = some o →
    (o.isdecommissioned = false ↔ s.tiles[o.l]? = some p)
  once : ∀ (p : Nat) (o : OctTile F), s.heap[p]? = some o →
    s.decomissions.count p = if o.isdecommissioned then 1 else 0
  logged : ∀ p ∈ s.decomissions, p < s.heap.length

/-- Between frames, the table has exactly the active tiles, and the loader's queue has none but
these. -/
structure Inv (s : OctTileSelection F) : Prop extends Table s where
  keys : ∀ loc, loc ∈ s.tiles ↔ loc ∈ s.activeTiles
  loader : ∀ p ∈ s.loaderTiles, ∃ loc : Loc, s.tiles[loc]? = some p

theorem inv_initial : Inv (initial : OctTileSelection F) where
  count := rfl
  entries loc p h := absurd h (by simp [initial])
  current p o h := absurd h (by simp [initial])
  once p o h := absurd h (by simp [initial])
  logged p h := absurd h (by simp [initial])
  keys loc := by simp [initial]
  loader p h := absurd h (by simp [initial])

/-! ### What keeps the table in order -/

/-- The table does not depend on the selection or the queue. -/
theorem Table.frame {s : OctTileSelection F} (h : Table s)
    (activeTiles : Std.TreeSet Loc Loc.cmp) (loaderTiles : List Nat) :
    Table { s with activeTiles, loaderTiles } :=
  ⟨h.count, h.entries, h.current, h.once, h.logged⟩

/-- A tile in the table has not been decommissioned. -/
theorem Table.tile_of_entry {s : OctTileSelection F} (h : Table s) {loc : Loc} {p : Nat}
    {o : OctTile F} (hp : s.tiles[loc]? = some p) (ho : s.heap[p]? = some o) :
    o.l = loc ∧ o.isdecommissioned = false := by
  obtain ⟨o', ho', hl⟩ := h.entries loc p hp
  rw [ho] at ho'
  cases ho'
  exact ⟨hl, (h.current p o ho).mpr (hl ▸ hp)⟩

/-- Changing a tile in place, but not its address or its flag. -/
theorem Table.modify {s : OctTileSelection F} (h : Table s) {p : Nat} {f : OctTile F → OctTile F}
    (hf : ∀ o, OctTile.Keeps o (f o)) : Table { s with heap := s.heap.modify p f } := by
  -- every tile comes from one with the same address and the same flag
  have hback : ∀ {q : Nat} {o' : OctTile F}, (s.heap.modify p f)[q]? = some o' →
      ∃ o, s.heap[q]? = some o ∧ OctTile.Keeps o o' := by
    intro q o' hq
    obtain ⟨o, ho, rfl⟩ := Heap.getElem?_modify_iff.mp hq
    refine ⟨o, ho, ?_⟩
    split
    · exact hf o
    · exact ⟨rfl, rfl⟩
  refine ⟨h.count, ?_, ?_, ?_, ?_⟩
  · intro loc q hq
    obtain ⟨o, ho, hl⟩ := h.entries loc q hq
    refine ⟨_, Heap.getElem?_modify_iff.mpr ⟨o, ho, rfl⟩, ?_⟩
    split
    · exact (hf o).1.trans hl
    · exact hl
  · intro q o' hq
    obtain ⟨o, ho, hl, hflag⟩ := hback hq
    rw [hflag, hl]
    exact h.current q o ho
  · intro q o' hq
    obtain ⟨o, ho, hl, hflag⟩ := hback hq
    rw [hflag]
    exact h.once q o ho
  · intro q hq
    rw [List.length_modify]
    exact h.logged q hq

theorem Table.create {s : OctTileSelection F} (h : Table s) {l : Loc} (hl : s.tiles[l]? = none) :
    Table { s with
      heap := s.heap ++ [.create l]
      tiles := s.tiles.insertIfNew l s.heap.length
      sNumTiles := s.sNumTiles + 1 } := by
  have hget := Map.entry_insertIfNew hl s.heap.length
  refine ⟨?_, ?_, ?_, ?_, ?_⟩
  · show s.sNumTiles + 1 = UInt64.ofNat (s.tiles.insertIfNew l s.heap.length).size
    rw [h.count, Map.ofNat_size_insertIfNew hl]
  · intro loc p hp
    rw [show _ = _ from hget loc] at hp
    split at hp
    · rename_i heq
      cases hp
      exact ⟨.create l, Heap.getElem?_alloc_iff.mpr (.inr ⟨rfl, rfl⟩), heq⟩
    · obtain ⟨o, ho, hol⟩ := h.entries loc p hp
      exact ⟨o, Heap.getElem?_alloc_iff.mpr (.inl ho), hol⟩
  · intro p o hp
    rw [show _ = _ from hget o.l]
    rcases Heap.getElem?_alloc_iff.mp hp with ho | ⟨rfl, rfl⟩
    · -- an older tile at the same address is decommissioned, since the address has no entry
      rw [h.current p o ho]
      split
      · rename_i heq
        rw [← heq, hl]
        have hlt := Heap.lt_length ho
        simp only [reduceCtorEq, Option.some.injEq, false_iff]
        omega
      · exact Iff.rfl
    · simp [OctTile.create]
  · intro p o hp
    rcases Heap.getElem?_alloc_iff.mp hp with ho | ⟨rfl, rfl⟩
    · exact h.once p o ho
    -- a tile that was not there cannot have been decommissioned
    · refine List.count_eq_zero.mpr fun hmem => ?_
      exact absurd (h.logged _ hmem) (Nat.lt_irrefl _)
  · intro p hp
    have hlt := h.logged p hp
    simp only [List.length_append, List.length_singleton]
    omega

/-- A tile that is decommissioned leaves the table in the same turn. -/
theorem Table.decomission {s : OctTileSelection F} (h : Table s) {loc : Loc} {p : Nat}
    (hp : s.tiles[loc]? = some p) :
    Table { s with
      heap := s.heap.modify p OctTile.decomission
      tiles := s.tiles.erase loc
      sNumTiles := s.sNumTiles - 1
      decomissions := s.decomissions ++ [p] } := by
  have hget := Map.entry_erase s.tiles loc
  refine ⟨?_, ?_, ?_, ?_, ?_⟩
  · show s.sNumTiles - 1 = UInt64.ofNat (s.tiles.erase loc).size
    rw [h.count, Map.ofNat_size_erase (Map.mem_of_entry hp)]
  · intro a q hq
    rw [show _ = _ from hget a] at hq
    split at hq
    · exact absurd hq (by simp)
    · obtain ⟨o, ho, hl⟩ := h.entries a q hq
      refine ⟨_, Heap.getElem?_modify_iff.mpr ⟨o, ho, rfl⟩, ?_⟩
      split
      · exact hl
      · exact hl
  · intro q o' hq
    obtain ⟨o, ho, rfl⟩ := Heap.getElem?_modify_iff.mp hq
    by_cases hpq : p = q
    · subst hpq
      rw [if_pos rfl, show _ = _ from hget _]
      simp [OctTile.decomission, (h.tile_of_entry hp ho).1]
    · rw [if_neg hpq, show _ = _ from hget _, h.current q o ho]
      split
      · rename_i heq
        rw [← heq, hp]
        simp [hpq]
      · exact Iff.rfl
  · intro q o' hq
    obtain ⟨o, ho, rfl⟩ := Heap.getElem?_modify_iff.mp hq
    show (s.decomissions ++ [p]).count q = _
    rw [List.count_append, h.once q o ho, List.count_singleton]
    by_cases hpq : p = q
    · subst hpq
      simp [(h.tile_of_entry hp ho).2, OctTile.decomission]
    · simp [hpq]
  · intro q hq
    rw [List.length_modify]
    rcases List.mem_append.mp hq with hq | hq
    · exact h.logged q hq
    · rw [List.mem_singleton.mp hq]
      obtain ⟨o, ho, -⟩ := h.entries loc p hp
      exact Heap.lt_length ho

/-! ### The loop over the selection

`old` is the state when `Update` starts and `done` the part of the selection already visited. -/

/-- Inside the first loop, after `done`: the table has the tiles that were active and those that
were selected, and the former are the same tiles as before. -/
structure Selecting (old : OctTileSelection F) (done : List Loc)
    (u : OctTileSelection F × List Nat) : Prop where
  table : Table u.1
  keys : ∀ loc, loc ∈ u.1.tiles ↔ loc ∈ old.activeTiles ∨ loc ∈ done
  active : ∀ loc, loc ∈ u.1.activeTiles ↔ loc ∈ done
  kept : ∀ (loc : Loc) (p : Nat), old.tiles[loc]? = some p → u.1.tiles[loc]? = some p
  queue : ∀ p ∈ u.2, ∃ loc ∈ done, u.1.tiles[loc]? = some p

theorem findOrCreate_spec {s : OctTileSelection F} (h : Table s) (l : Loc) :
    Table (s.findOrCreate l).1 ∧ (s.findOrCreate l).1.activeTiles = s.activeTiles ∧
      (s.findOrCreate l).1.tiles[l]? = some (s.findOrCreate l).2 ∧
      (∀ loc, loc ∈ (s.findOrCreate l).1.tiles ↔ loc ∈ s.tiles ∨ loc = l) ∧
      ∀ (loc : Loc) (p : Nat), s.tiles[loc]? = some p →
        (s.findOrCreate l).1.tiles[loc]? = some p := by
  unfold findOrCreate
  cases hl : s.tiles[l]? with
  | some p =>
    refine ⟨h, rfl, hl, fun loc => ?_, fun _ _ hq => hq⟩
    constructor
    · exact .inl
    · rintro (hmem | rfl)
      · exact hmem
      · exact Map.mem_of_entry hl
  -- a new entry, under an address that had none
  | none =>
    have hget := Map.entry_insertIfNew hl s.heap.length
    refine ⟨h.create hl, rfl, (hget l).trans (if_pos rfl), fun loc => ?_, fun loc p hp => ?_⟩
    · simp only [Std.TreeMap.mem_insertIfNew, Loc.cmp_eq_iff]
      rw [or_comm, eq_comm]
    · have hne : l ≠ loc := by
        rintro rfl
        exact absurd (hl.symm.trans hp) (by simp)
      exact ((hget loc).trans (if_neg hne)).trans hp

theorem Selecting.step {old : OctTileSelection F} {done : List Loc}
    {u : OctTileSelection F × List Nat} (h : Selecting old done u) (l : Loc) :
    Selecting old (done ++ [l]) (selectOne u l) := by
  obtain ⟨htable, hactive, hl, hkeys, hkept⟩ := findOrCreate_spec h.table l
  unfold selectOne
  generalize u.1.findOrCreate l = result at htable hactive hl hkeys hkept
  obtain ⟨s, p⟩ := result
  refine ⟨htable.frame .., ?_, ?_, ?_, ?_⟩
  · intro loc
    rw [show loc ∈ s.tiles ↔ _ from hkeys loc, h.keys loc, List.mem_append, List.mem_singleton]
    tauto
  · intro loc
    simp only [Std.TreeSet.mem_insert, Loc.cmp_eq_iff]
    rw [show s.activeTiles = _ from hactive, h.active loc, List.mem_append, List.mem_singleton]
    tauto
  · intro loc q hq
    exact hkept loc q (h.kept loc q hq)
  · intro q hq
    -- the tile is put into the queue unless it is loaded
    have hcases : q ∈ u.2 ∨ q = p := by
      simp only at hq
      split at hq
      · simpa using hq
      · exact .inl hq
    rcases hcases with hq | rfl
    · obtain ⟨loc, hloc, hget⟩ := h.queue q hq
      exact ⟨loc, List.mem_append_left _ hloc, hkept loc q hget⟩
    · exact ⟨l, by simp, hl⟩

theorem Selecting.run {old : OctTileSelection F} (ls : List Loc) {done : List Loc}
    {u : OctTileSelection F × List Nat} (h : Selecting old done u) :
    Selecting old (done ++ ls) (ls.foldl selectOne u) := by
  induction ls generalizing done u with
  | nil => simpa using h
  | cons l ls ih =>
    have hnext := ih (h.step l)
    rw [List.append_assoc] at hnext
    exact hnext

/-! ### The loop over last frame's tiles

`mid` is the state after the first loop and `todo` what is still to be visited. The entries are
then those of the selection and those of `todo`, so the unchecked lookup finds its tile. -/

/-- Inside the second loop, with `todo` still to come: what is in the table is active, or is going
to be looked at. The iterator is valid for that reason. -/
structure Sweeping (mid : OctTileSelection F) (todo : List Loc) (s : OctTileSelection F) :
    Prop where
  table : Table s
  keys : ∀ loc, loc ∈ s.tiles ↔ loc ∈ mid.activeTiles ∨ loc ∈ todo
  active : s.activeTiles = mid.activeTiles
  loader : s.loaderTiles = mid.loaderTiles
  kept : ∀ loc ∈ mid.activeTiles, s.tiles[loc]? = mid.tiles[loc]?

/-- The tile is active and stays, or it is erased. -/
theorem Sweeping.step {mid s : OctTileSelection F} {loc : Loc} {todo : List Loc}
    (h : Sweeping mid (loc :: todo) s) (hnot : loc ∉ todo) :
    ∃ s', decomissionOne s loc = some s' ∧ Sweeping mid todo s' := by
  unfold decomissionOne
  split
  · rename_i hsel
    rw [h.active, Std.TreeSet.contains_iff_mem] at hsel
    refine ⟨s, rfl, h.table, fun a => ?_, h.active, h.loader, h.kept⟩
    rw [h.keys a, List.mem_cons]
    constructor
    · rintro (ha | rfl | ha)
      · exact .inl ha
      · exact .inl hsel
      · exact .inr ha
    · rintro (ha | ha)
      · exact .inl ha
      · exact .inr (.inr ha)
  · rename_i hsel
    rw [h.active, Std.TreeSet.contains_iff_mem] at hsel
    obtain ⟨p, hp⟩ := Map.exists_entry ((h.keys loc).mpr (.inr (List.mem_cons_self ..)))
    rw [hp]
    refine ⟨_, rfl, h.table.decomission hp, fun a => ?_, h.active, h.loader, fun a ha => ?_⟩
    · simp only [Std.TreeMap.mem_erase, ne_eq, Loc.cmp_eq_iff]
      rw [h.keys a, List.mem_cons]
      constructor
      · rintro ⟨hne, ha | rfl | ha⟩
        · exact .inl ha
        · exact absurd rfl hne
        · exact .inr ha
      · rintro (ha | ha)
        · exact ⟨fun heq => hsel (heq ▸ ha), .inl ha⟩
        · exact ⟨fun heq => hnot (heq ▸ ha), .inr (.inr ha)⟩
    · rw [← h.kept a ha]
      have hne : loc ≠ a := fun heq => hsel (heq ▸ ha)
      exact (Map.entry_erase ..).trans (if_neg hne)

theorem Sweeping.run {mid : OctTileSelection F} (todo : List Loc) (hnodup : todo.Nodup)
    {s : OctTileSelection F} (h : Sweeping mid todo s) :
    ∃ s', todo.foldlM decomissionOne s = some s' ∧ Sweeping mid [] s' := by
  induction todo generalizing s with
  | nil => exact ⟨s, rfl, h⟩
  | cons loc todo ih =>
    obtain ⟨hnot, hnodup⟩ := List.nodup_cons.mp hnodup
    obtain ⟨s₁, hs₁, hnext⟩ := h.step hnot
    obtain ⟨s₂, hs₂, hdone⟩ := ih hnodup hnext
    refine ⟨s₂, ?_, hdone⟩
    rw [List.foldlM_cons, hs₁]
    exact hs₂

/-! ### The loop that stores the distances -/

/-- The third loop finds every tile, because all active tiles are in the table. -/
theorem setDistance_run [FloatLike F] (campos camdir : Point3 F) {mid : OctTileSelection F}
    (h : Table mid) (todo : List Loc) (htodo : ∀ loc ∈ todo, loc ∈ mid.tiles) :
    ∃ s', todo.foldlM (setDistance campos camdir) mid = some s' ∧ Table s' ∧
      s'.tiles = mid.tiles ∧ s'.activeTiles = mid.activeTiles ∧
      s'.loaderTiles = mid.loaderTiles := by
  induction todo generalizing mid with
  | nil => exact ⟨mid, rfl, h, rfl, rfl, rfl⟩
  | cons loc todo ih =>
    obtain ⟨p, hp⟩ := Map.exists_entry (htodo loc (List.mem_cons_self ..))
    have hset : Table { mid with heap := mid.heap.modify p fun o =>
        { o with distance := some (getLocDistance loc campos camdir) } } :=
      h.modify fun o => ⟨rfl, rfl⟩
    obtain ⟨s', hs', hrest⟩ := ih hset fun a ha => htodo a (List.mem_cons_of_mem _ ha)
    refine ⟨s', ?_, hrest⟩
    rw [List.foldlM_cons, setDistance, hp]
    exact hs'

/-! ## What holds after an `Update` -/

/-- What a frame leaves behind: exactly the tiles of the selection, those that were there before
unchanged, every other one decommissioned once and gone from the table. -/
structure Updated (old : OctTileSelection F) (locs : List Loc) (s : OctTileSelection F) :
    Prop where
  keys : ∀ loc, loc ∈ s.tiles ↔ loc ∈ locs
  active : ∀ loc, loc ∈ s.activeTiles ↔ loc ∈ locs
  count : s.sNumTiles = UInt64.ofNat s.tiles.size
  entries : ∀ (loc : Loc) (p : Nat), s.tiles[loc]? = some p → ∃ o, s.heap[p]? = some o ∧ o.l = loc
  same : ∀ loc ∈ old.activeTiles, loc ∈ locs →
    ∃ p, old.tiles[loc]? = some p ∧ s.tiles[loc]? = some p
  lives : ∀ (p : Nat) (o : OctTile F), s.heap[p]? = some o →
    (s.tiles[o.l]? = some p ∧ o.isdecommissioned = false ∧ s.decomissions.count p = 0) ∨
    ((∀ loc : Loc, s.tiles[loc]? ≠ some p) ∧ o.isdecommissioned = true ∧
      s.decomissions.count p = 1)
  loader : ∀ p ∈ s.loaderTiles, ∃ loc ∈ s.activeTiles, s.tiles[loc]? = some p

theorem Table.lives {s : OctTileSelection F} (h : Table s) {p : Nat} {o : OctTile F}
    (ho : s.heap[p]? = some o) :
    (s.tiles[o.l]? = some p ∧ o.isdecommissioned = false ∧ s.decomissions.count p = 0) ∨
    ((∀ loc : Loc, s.tiles[loc]? ≠ some p) ∧ o.isdecommissioned = true ∧
      s.decomissions.count p = 1) := by
  have hcur := h.current p o ho
  have honce := h.once p o ho
  cases hflag : o.isdecommissioned with
  | false =>
    rw [hflag] at hcur honce
    exact .inl ⟨hcur.mp rfl, rfl, honce⟩
  | true =>
    rw [hflag] at hcur honce
    refine .inr ⟨fun loc hloc => ?_, rfl, honce⟩
    exact absurd (hflag.symm.trans (h.tile_of_entry hloc ho).2) (by simp)

theorem Inv.selectAll {s : OctTileSelection F} (h : Inv s) (locs : List Loc) :
    Sweeping (s.selectAll locs) s.activeTiles.toList (s.selectAll locs) ∧
    (∀ loc, loc ∈ (s.selectAll locs).activeTiles ↔ loc ∈ locs) ∧
    (∀ (loc : Loc) (p : Nat), s.tiles[loc]? = some p → (s.selectAll locs).tiles[loc]? = some p) ∧
    ∀ p ∈ (s.selectAll locs).loaderTiles, ∃ loc ∈ (s.selectAll locs).activeTiles,
      (s.selectAll locs).tiles[loc]? = some p := by
  -- the active tiles are cleared first, and the table is what it was
  have hstart : Selecting s [] ({ s with activeTiles := ∅ }, []) := by
    refine ⟨h.toTable.frame .., fun loc => ?_, ?_, ?_, ?_⟩
    · simpa using h.keys loc
    · simp
    · exact fun _ _ hp => hp
    · simp
  have hsel := hstart.run (locs.mergeSort fun a b => !b.memberLess a)
  simp only [OctTileSelection.selectAll]
  generalize (locs.mergeSort fun a b => !b.memberLess a).foldl selectOne
    ({ s with activeTiles := ∅ }, []) = u at hsel ⊢
  obtain ⟨mid, loaderTiles⟩ := u
  simp only [List.nil_append] at hsel
  refine ⟨⟨hsel.table.frame .., fun loc => ?_, rfl, rfl, fun _ _ => rfl⟩, fun loc => ?_, hsel.kept,
    fun p hp => ?_⟩
  · rw [Std.TreeSet.mem_toList, show loc ∈ mid.tiles ↔ _ from hsel.keys loc,
      ← hsel.active loc, or_comm]
  · exact (hsel.active loc).trans List.mem_mergeSort
  · obtain ⟨loc, hloc, hget⟩ := hsel.queue p hp
    exact ⟨loc, (hsel.active loc).mpr hloc, hget⟩

/-- A frame returns, keeps the invariant and does what it should; the three loops put together. -/
theorem Inv.update [FloatLike F] {s : OctTileSelection F} (h : Inv s) (campos camdir : Point3 F)
    (locs : List Loc) :
    ∃ s', update campos camdir locs s = some s' ∧ Inv s' ∧ Updated s locs s' := by
  obtain ⟨hsel, hmem, hkept, hqueue⟩ := h.selectAll locs
  have hnodup : s.activeTiles.toList.Nodup :=
    Std.TreeSet.distinct_toList.imp fun hne heq => hne (Loc.cmp_eq_iff.mpr heq)
  obtain ⟨s₁, hs₁, hswept⟩ := hsel.run _ hnodup
  have hkeys₁ : ∀ loc, loc ∈ s₁.tiles ↔ loc ∈ (s.selectAll locs).activeTiles := fun loc => by
    simpa using hswept.keys loc
  obtain ⟨s₂, hs₂, htable, htiles, hactive, hloader⟩ := setDistance_run campos camdir hswept.table
    s₁.activeTiles.toList fun loc hloc => by
      rw [Std.TreeSet.mem_toList, hswept.active] at hloc
      exact (hkeys₁ loc).mpr hloc
  -- the last two loops leave the entries of the selection and the queue as they are
  rw [hswept.active] at hactive
  rw [hswept.loader] at hloader
  have hkeys : ∀ loc, loc ∈ s₂.tiles ↔ loc ∈ s₂.activeTiles := fun loc => by
    rw [htiles, hactive]
    exact hkeys₁ loc
  have hsame : ∀ loc ∈ s₂.activeTiles, s₂.tiles[loc]? = (s.selectAll locs).tiles[loc]? := by
    intro loc hloc
    rw [htiles]
    exact hswept.kept loc (hactive ▸ hloc)
  have hqueue₂ : ∀ p ∈ s₂.loaderTiles, ∃ loc ∈ s₂.activeTiles, s₂.tiles[loc]? = some p := by
    intro p hp
    obtain ⟨loc, hloc, hget⟩ := hqueue p (hloader ▸ hp)
    rw [← hactive] at hloc
    exact ⟨loc, hloc, (hsame loc hloc).trans hget⟩
  have hmem₂ : ∀ loc, loc ∈ s₂.activeTiles ↔ loc ∈ locs := fun loc => by
    rw [hactive]
    exact hmem loc
  refine ⟨s₂, ?_, ⟨htable, hkeys, fun p hp => ?_⟩, ?_⟩
  · simp only [OctTileSelection.update, hs₁]
    exact hs₂
  · obtain ⟨loc, -, hget⟩ := hqueue₂ p hp
    exact ⟨loc, hget⟩
  · refine ⟨fun loc => (hkeys loc).trans (hmem₂ loc), hmem₂, htable.count, htable.entries,
      fun loc hwas hloc => ?_, fun p o => htable.lives, hqueue₂⟩
    obtain ⟨p, hp⟩ := Map.exists_entry ((h.keys loc).mpr hwas)
    exact ⟨p, hp, (hsame loc ((hmem₂ loc).mpr hloc)).trans (hkept loc p hp)⟩

/-- What the loader does is no concern of the table: it loads a tile in place. -/
theorem Inv.loaderStep [FloatRep F] {s s' : OctTileSelection F} (h : Inv s)
    (hstep : LoaderStep s s') : Inv s' := by
  cases hstep with
  | pop _ =>
    refine ⟨h.toTable.frame .., h.keys, ?_⟩
    intro p hp
    exact h.loader p (List.mem_of_mem_dropLast hp)
  | load p fuel level terrain =>
    exact ⟨h.toTable.modify fun o => OctTile.backgroundLoad_keeps fuel level terrain o,
      h.keys, h.loader⟩

theorem inv_of_reachable [FloatRep F] {s : OctTileSelection F} (h : Reachable s) : Inv s := by
  induction h with
  | refl => exact inv_initial
  | tail _ hstep ih =>
    cases hstep with
    | update campos camdir locs hs' =>
      obtain ⟨s', hs, hinv, -⟩ := ih.update campos camdir locs
      rw [hs'] at hs
      cases hs
      exact hinv
    | loader hload => exact ih.loaderStep hload

/-- **The tile table follows the selection**, in every run and at every frame. -/
theorem update_follows_selection [FloatRep F] {s : OctTileSelection F} (h : Reachable s)
    (campos camdir : Point3 F) (locs : List Loc) :
    ∃ s', update campos camdir locs s = some s' ∧ Updated s locs s' := by
  obtain ⟨s', hs', -, hupdated⟩ := (inv_of_reachable h).update campos camdir locs
  exact ⟨s', hs', hupdated⟩

/-- The root is selected in one frame and not in the next. -/
theorem update_follows_selection_root : ∃ s₁ s₂ : OctTileSelection Int32, let o := ⟨0, 0, 0⟩
    update o o [Loc.root] initial = some s₁ ∧ Reachable s₁ ∧ update o o [] s₁ = some s₂ ∧
      Updated initial [Loc.root] s₁ ∧ Updated s₁ [] s₂ := by
  let o : Point3 Int32 := ⟨0, 0, 0⟩
  obtain ⟨s₁, hs₁, h₁⟩ := update_follows_selection .refl o o [Loc.root]
  have hreach : Reachable s₁ := Relation.ReflTransGen.refl.tail (.update o o [Loc.root] hs₁)
  obtain ⟨s₂, hs₂, h₂⟩ := update_follows_selection hreach o o []
  exact ⟨s₁, s₂, hs₁, hreach, hs₂, h₁, h₂⟩

end OctTileSelection

end MapBg
