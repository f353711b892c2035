import MapBg.Oct.Ground
import MapBg.Oct.Intersect
import MapBg.Select.View

/-!
# Saving and reloading is transparent

A voxel chunk is made from terrain heights once and read from the database ever after; the heights
themselves are computed once and read ever after. So what a tile holds depends, on the face of it,
on what was saved before it was loaded, by which of several tiles for the same address, and on what
else was written to the same key space meanwhile.

Here the database, the terrain tiles and any number of voxel tiles are put together, and anything
may happen in any order: tiles are created, several for one address included; `BackgroundLoad`
runs on any of them, decommissioned ones included; they are drawn and decommissioned; terrain is
requested, built, written, evicted and reloaded; the camera is saved; the program is restarted on
the same database.

The one assumption is that the GPU is a function: the heights it produces for an address of level
1 or more are `H` of that address. Then every loaded tile of level 1 or more holds `chunk H` of
its address (`loaded_tile_holds_chunk`), and any tile of such a level can be asked what a ray hits
(`voxels_ok`). Level 0 is left out because there terrain and voxels share their keys. The addresses
are those a chunk can be stored under: the cells of the octree, of level 0 or more, with coordinates
in the range of an `int`.
-/

set_option autoImplicit false

namespace MapBg

/-- The database, the terrain tiles, and the voxel tiles that were created so far. A voxel tile is
known by its position in the list, as a pointer would be. -/
structure World (F : Type) where
  level : Level
  terrain : TerrainTileSelection F
  octs : List (OctTile F)

namespace World

variable {F : Type} [FloatRep F]

/-- The first start of the program, on an empty database. -/
def initial : World F := ⟨Level.empty, .initial, []⟩

/-- The bytes `LoadTerrainData` computes for `l` from the terrain `H`: nothing if the height box
misses the box of the tile. There is no value if it would read past the end of the heights. -/
def chunk (H : Loc → List F) (l : Loc) : Option Bytes :=
  let tl : Loc := { l with y := 0 }
  match OctTile.terrainRle l (heightBox tl (H tl)) (H tl) with
  | .ok data => some (data.getD [])
  | .error _ => none

/-! ## Steps -/

/-- What can happen. The positions `i` are those of voxel tiles; `fuel` is for the traversal of the
chunk that is loaded. -/
inductive Act (F : Type)
  | create (l : ChunkLoc)
  | load (i fuel : Nat)
  | draw (i : Nat)
  | decomission (i : Nat)
  | request (l : ChunkLoc)
  | update (fr : Frame F)
  | saveCamera (pos : CamPos)
  | restart

/-- `BackgroundLoad` of one of the voxel tiles. It reads and writes the database, and may request
terrain. -/
def loadAt (fuel : Nat) (w : World F) (i : Nat) : World F :=
  match w.octs[i]? with
  | none => w
  | some o =>
    let r := OctTile.backgroundLoad fuel w.level w.terrain o
    ⟨r.level, r.terrain, w.octs.set i r.tile⟩

/-- One thing after the other: what each of them does to the database, the terrain and the voxel
tiles. A restart keeps the database and nothing else. -/
def act (w : World F) : Act F → World F
  | .create l => { w with octs := w.octs ++ [.create l.toLoc] }
  | .load i fuel => w.loadAt fuel i
  -- the first time it is drawn the tile goes from state 3 to 4
  | .draw i => { w with octs := w.octs.modify i fun o =>
      if o.readyState = 3 then { o with readyState := o.readyState + 1 } else o }
  | .decomission i => { w with octs := w.octs.modify i OctTile.decomission }
  | .request l => { w with
      terrain := (TerrainTileSelection.requestTile w.level l.toLoc w.terrain).2 }
  | .update fr =>
    let r := TerrainTileSelection.update fr w.level w.terrain
    { w with level := r.1, terrain := r.2 }
  | .saveCamera pos => { w with level := w.level.writeCameraPos pos }
  -- nothing but the database outlives the program
  | .restart => { initial with level := w.level }

/-- A frame of the terrain is as the containers and the GPU allow. -/
def Act.Ok (H : Loc → List F) (w : World F) : Act F → Prop
  | .update fr => TerrainTileSelection.Orders fr w.terrain ∧
      ∀ (p : Nat) (l : Loc), 1 ≤ l.l → fr.readback p l = H l
  | _ => True

/-- Anything may happen next that is `Ok`. -/
def Step (H : Loc → List F) (w w' : World F) : Prop := ∃ a, Act.Ok H w a ∧ w' = w.act a

/-- Some run leads here from the first start, restarts included. -/
def Reachable (H : Loc → List F) (w : World F) : Prop := Relation.ReflTransGen (Step H) initial w

/-! ## The invariant -/

/-- An address that a chunk can be stored under. -/
def Addr (l : Loc) : Prop := ∃ c : ChunkLoc, c.toLoc = l

/-- What is in the database is what would be computed again: heights under the keys of the terrain,
and the chunk made of them under those of the voxels. -/
structure StoreOk (H : Loc → List F) (level : Level) : Prop where
  terrain : ∀ (l : ChunkLoc) (val : Bytes), 1 ≤ l.l → level.getTerrainChunk l.toLoc = some val →
    val = heightBytes (H l.toLoc)
  oct : ∀ (l : ChunkLoc) (val : Bytes), 1 ≤ l.l → level.getOctChunk l.toLoc = some val →
    chunk H l.toLoc = some val

/-- A terrain tile that is ready, or about to write its heights, has the right ones, and the box was
computed from them. -/
structure TerrainOk (H : Loc → List F) (t : TerrainTile F) : Prop where
  addr : Addr t.l
  ready : t.dataready = true → t.buildStep = -1
  heights : 1 ≤ t.l.l → t.dataready = true ∨ t.buildStep = 2 → t.heightData = H t.l
  box : t.dataready = true → t.heightBbox = heightBox t.l t.heightData

/-- A voxel tile holds its chunk once it is loaded, and nothing else before. The terrain tile that
it points to is ready and the one under it. -/
structure OctOk (H : Loc → List F) (heap : List (TerrainTile F)) (o : OctTile F) : Prop where
  addr : Addr o.l
  terrain : ∀ p, o.terrainTile = some p →
    ∃ t, heap[p]? = some t ∧ t.dataready = true ∧ t.l = { o.l with y := 0 }
  data : 1 ≤ o.l.l → o.rledata = [] ∨ chunk H o.l = some o.rledata
  loaded : 1 ≤ o.l.l → 3 ≤ o.readyState → chunk H o.l = some o.rledata

/-- The part about the database and the terrain, which all voxel tiles share. -/
structure SharedOk (H : Loc → List F) (level : Level) (terrain : TerrainTileSelection F) :
    Prop where
  store : StoreOk H level
  inv : terrain.Inv
  tiles : ∀ t ∈ terrain.heap, TerrainOk H t
  requests : ∀ loc ∈ terrain.requestTiles, Addr loc

structure Inv (H : Loc → List F) (w : World F) : Prop where
  shared : SharedOk H w.level w.terrain
  octs : ∀ o ∈ w.octs, OctOk H w.terrain.heap o

variable {H : Loc → List F}

/-! ### The database -/

namespace StoreOk

variable {level : Level}

theorem empty : StoreOk H Level.empty :=
  ⟨fun _ _ _ h => absurd h (by simp [Level.empty, Level.getTerrainChunk]),
    fun _ _ _ h => absurd h (by simp [Level.empty, Level.getOctChunk])⟩

theorem writeCameraPos (h : StoreOk H level) (pos : CamPos) :
    StoreOk H (level.writeCameraPos pos) where
  terrain l val hl hget := by
    rw [Level.getTerrainChunk_writeCameraPos] at hget
    exact h.terrain l val hl hget
  oct l val hl hget := by
    rw [Level.getOctChunk_writeCameraPos] at hget
    exact h.oct l val hl hget

/-- A terrain chunk is written under the address of a cell, and the keys tell cells apart from each
other and terrain from voxels, except at level 0. -/
theorem writeTerrainChunk (h : StoreOk H level) {a : Loc} (ha : Addr a) {val : Bytes}
    (hval : 1 ≤ a.l → val = heightBytes (H a)) : StoreOk H (level.writeTerrainChunk a val) := by
  obtain ⟨c, rfl⟩ := ha
  refine ⟨fun l v hl hget => ?_, fun l v hl hget => ?_⟩
  · rw [Level.getTerrainChunk_writeTerrainChunk] at hget
    split at hget
    · rename_i heq
      cases hget
      subst heq
      exact hval hl
    · exact h.terrain l v hl hget
  · rw [Level.getOctChunk_writeTerrainChunk, if_neg (by omega)] at hget
    exact h.oct l v hl hget

theorem writeOctChunk (h : StoreOk H level) {a : Loc} (ha : Addr a) {val : Bytes}
    (hval : 1 ≤ a.l → chunk H a = some val) : StoreOk H (level.writeOctChunk a val) := by
  obtain ⟨c, rfl⟩ := ha
  refine ⟨fun l v hl hget => ?_, fun l v hl hget => ?_⟩
  · rw [Level.getTerrainChunk_writeOctChunk, if_neg (by omega)] at hget
    exact h.terrain l v hl hget
  · rw [Level.getOctChunk_writeOctChunk] at hget
    split at hget
    · rename_i heq
      cases hget
      subst heq
      exact hval hl
    · exact h.oct l v hl hget

end StoreOk

/-! The cells a frame selects are such addresses, for any `maxlod` the octree has room for. -/

theorem addr_of_inGrid {a : Loc} (h : a.InGrid) (hl : a.l ≤ 30) : Addr a := by
  obtain ⟨hnn, hx, hy, hz⟩ := h
  have hpow : (2 : Int) ^ a.l.toNat ≤ 2 ^ 30 := by
    exact_mod_cast Nat.pow_le_pow_right (by decide) (show a.l.toNat ≤ 30 by omega)
  refine ⟨⟨a, ?_, hnn⟩, rfl⟩
  unfold Loc.Fits Word.Fits
  omega

theorem addr_of_mem_get {v : View} (hmax : 0 ≤ v.maxlod) (hroom : v.maxlod ≤ 30) {a : Loc}
    (ha : a ∈ v.get []) : Addr a := by
  obtain ⟨hle, hreached⟩ := View.mem_get hmax ha
  exact addr_of_inGrid (Loc.inGrid_of_reached hreached) (by omega)

/-! ### The terrain -/

/-- The invariant as it is carried through the builds of one frame, where tiles and database change
together. -/
structure Saved (H : Loc → List F) (c : BuildState F) : Prop where
  tiles : ∀ t ∈ c.heap, TerrainOk H t
  store : StoreOk H c.level

/-- Each outcome of the build is a case. The heights are read back in one and written to the
database in the next, and between the two they have to be carried by the invariant. -/
theorem Saved.build {g : Gpu F} (hg : ∀ (p : Nat) (l : Loc), 1 ≤ l.l → g.readback p l = H l)
    {c : BuildState F} (h : Saved H c) (p : Nat) : Saved H (TerrainTile.build g p c).2 := by
  cases hp : c.heap[p]? with
  | none =>
    unfold TerrainTile.build
    rw [hp]
    exact h
  | some t =>
    have ht := h.tiles t (List.mem_of_getElem? hp)
    have hout := TerrainTile.build_outcome g hp
    generalize TerrainTile.build g p c = result at hout ⊢
    cases hout with
    | blocked _ => exact h
    | idle => exact h
    | dispatched _ hstep _ =>
      refine ⟨Heap.forall_mem_write h.tiles ⟨ht.addr, ?_, ?_, ht.box⟩, h.store⟩
      · intro hr
        have := ht.ready hr
        omega
      · intro hl hr
        refine ht.heights hl (hr.imp_right fun h2 => ?_)
        exact absurd h2 (by simp [TerrainTile.dispatched])
    -- here the assumption about the GPU comes in
    | readBack _ hstep =>
      have hnot : t.dataready ≠ true := fun hr => by
        have := ht.ready hr
        omega
      refine ⟨Heap.forall_mem_write h.tiles ⟨ht.addr, fun hr => absurd hr hnot, ?_,
        fun hr => absurd hr hnot⟩, h.store⟩
      intro hl _
      exact hg p t.l hl
    | finished _ hstep =>
      have hheights : 1 ≤ t.l.l → t.heightData = H t.l := fun hl => ht.heights hl (.inr hstep)
      refine ⟨Heap.forall_mem_write h.tiles ⟨ht.addr, fun _ => rfl, fun hl _ => hheights hl,
        fun _ => rfl⟩, h.store.writeTerrainChunk ht.addr fun hl => ?_⟩
      -- the bytes that are written are those of the heights of two steps ago
      rw [hheights hl]

theorem Saved.create {c : BuildState F} (h : Saved H c) {loc : Loc} (hloc : Addr loc)
    (parent : Option Nat) : Saved H { c with heap := c.heap ++ [.create loc parent] } := by
  refine ⟨Heap.forall_mem_alloc h.tiles ⟨hloc, ?_, ?_, ?_⟩, h.store⟩
  · intro hr
    exact absurd hr (by simp [TerrainTile.create])
  · intro _ hr
    exact absurd hr (by simp [TerrainTile.create])
  · intro hr
    exact absurd hr (by simp [TerrainTile.create])

theorem Saved.requestStep {g : Gpu F}
    (hg : ∀ (p : Nat) (l : Loc), 1 ≤ l.l → g.readback p l = H l) {u : UpdateState F}
    (h : Saved H u.toBuildState) {loc : Loc} (hloc : Addr loc) :
    Saved H (TerrainTileSelection.requestStep g u loc).toBuildState := by
  unfold TerrainTileSelection.requestStep
  split
  · exact h
  · split
    · split
      · exact (h.create hloc _).build hg _
      · exact h
    · exact (h.create hloc _).build hg _

/-- A frame builds, creates and evicts. Only the first two touch what is claimed. -/
theorem SharedOk.update {level : Level} {terrain : TerrainTileSelection F}
    (h : SharedOk H level terrain) {fr : Frame F} (horders : TerrainTileSelection.Orders fr terrain)
    (hfr : ∀ (p : Nat) (l : Loc), 1 ≤ l.l → fr.readback p l = H l) :
    SharedOk H (TerrainTileSelection.update fr level terrain).1
      (TerrainTileSelection.update fr level terrain).2 := by
  have hsaved : Saved H (TerrainTileSelection.updateLoops fr level terrain).toBuildState :=
    @TerrainTileSelection.updateLoops_induct _ _ (fun u => Saved H u.toBuildState) _ _ _
      ⟨h.tiles, h.store⟩ (fun _ _ hu => hu)
      (fun _ loc hloc hu => hu.requestStep hfr (h.requests loc hloc)) (fun _ p hu => hu.build hfr p)
  exact ⟨hsaved.store, h.inv.update horders level, hsaved.tiles, h.requests⟩

theorem addr_ground (l : Loc) (h : Addr l) : Addr { l with y := 0 } := by
  obtain ⟨c, rfl⟩ := h
  have hfits : Loc.Fits { c.toLoc with y := 0 } :=
    ⟨c.fits.1, show Word.Fits 0 by decide, c.fits.2.2⟩
  exact ⟨⟨{ c.toLoc with y := 0 }, hfits, c.level_nonneg⟩, rfl⟩

theorem addr_parent (l : Loc) (h : Addr l) (hpos : 0 < l.l) : Addr l.parent := by
  obtain ⟨c, rfl⟩ := h
  have hfits := c.fits
  rw [Loc.parent_eq]
  refine ⟨⟨⟨c.x / 2, c.y / 2, c.z / 2, c.l - 1⟩, ?_, ?_⟩, rfl⟩
  · unfold Loc.Fits Word.Fits at hfits ⊢
    simp only
    omega
  · show 0 ≤ c.l - 1
    omega

theorem TerrainOk.ofChunk {level : Level} (h : StoreOk H level) {tl : Loc} (htl : Addr tl)
    {val : Bytes} (hget : level.getTerrainChunk tl = some val) : TerrainOk H (.ofChunk tl val) where
  addr := htl
  ready _ := rfl
  heights hl _ := by
    obtain ⟨c, rfl⟩ := htl
    rw [h.terrain c val hl hget]
    exact heightsOfBytes_heightBytes (H c.toLoc)
  box _ := rfl

/-- A requested tile is found in the table, or read from the database, or put on the list of
requests. -/
theorem SharedOk.requestTile {level : Level} {terrain : TerrainTileSelection F}
    (h : SharedOk H level terrain) {l : Loc} (hl : Addr l) :
    SharedOk H level (TerrainTileSelection.requestTile level l terrain).2 := by
  refine TerrainTileSelection.requestTile_induct (P := SharedOk H level) addr_ground addr_parent
    (fun s tl val htl hget hs => ?_) (fun s tl htl _ _ hs => ?_) hl h
  · exact ⟨hs.store, hs.inv.ofChunk tl val,
      Heap.forall_mem_alloc hs.tiles (.ofChunk hs.store htl hget), hs.requests⟩
  · refine ⟨hs.store, ⟨hs.inv.heap, hs.inv.tiles, hs.inv.building, hs.inv.nodup⟩, hs.tiles, ?_⟩
    intro loc hloc
    rcases Std.TreeSet.mem_insert.mp hloc with heq | hloc
    · rw [← Loc.cmp_eq_iff.mp heq]
      exact htl
    · exact hs.requests loc hloc

/-! ### The voxel tiles -/

/-- Terrain tiles change under the voxel tiles, but one that is ready keeps its heights. -/
theorem OctOk.evolves {heap heap' : List (TerrainTile F)} {o : OctTile F} (h : OctOk H heap o)
    (he : Heap.Evolves TerrainTile.Keeps heap heap') : OctOk H heap' o := by
  refine ⟨h.addr, fun p hp => ?_, h.data, h.loaded⟩
  obtain ⟨t, ht, hr, hl⟩ := h.terrain p hp
  obtain ⟨t', ht', -, hsame⟩ := he p t ht
  rw [hsame hr] at ht'
  exact ⟨t, ht', hr, hl⟩

/-- Whatever the tile is told to hold is the chunk. -/
theorem OctOk.holds {heap : List (TerrainTile F)} {o : OctTile F} (h : OctOk H heap o)
    {rledata : Bytes} (hchunk : 1 ≤ o.l.l → chunk H o.l = some rledata)
    (voxelinst : Option (List Vec3i)) (readyState : Int) :
    OctOk H heap { o with rledata, voxelinst, readyState } :=
  ⟨h.addr, h.terrain, fun hl => .inr (hchunk hl), fun hl _ => hchunk hl⟩

/-- The state moves, but not to where the data has to be there. -/
theorem OctOk.move {heap : List (TerrainTile F)} {o : OctTile F} (h : OctOk H heap o)
    {readyState : Int} (hlt : readyState < 3) (isdecommissioned : Bool) :
    OctOk H heap { o with readyState, isdecommissioned } :=
  ⟨h.addr, h.terrain, h.data, fun _ h3 => absurd hlt (Int.not_lt.mpr h3)⟩

theorem SharedOk.writeOctChunk {level : Level} {terrain : TerrainTileSelection F}
    (h : SharedOk H level terrain) {a : Loc} (ha : Addr a) {val : Bytes}
    (hval : 1 ≤ a.l → chunk H a = some val) : SharedOk H (level.writeOctChunk a val) terrain :=
  ⟨h.store.writeOctChunk ha hval, h.inv, h.tiles, h.requests⟩

/-- What `LoadTerrainData` finds in the tile it was given. -/
theorem chunk_of_terrainRle {heap : List (TerrainTile F)} {o : OctTile F} {t : TerrainTile F}
    {data : Option Bytes} (h : OctOk H heap o) (htiles : ∀ t ∈ heap, TerrainOk H t)
    (ht : o.terrainTile.bind (heap[·]?) = some t)
    (hrle : OctTile.terrainRle o.l t.heightBbox t.heightData = .ok data) (hl : 1 ≤ o.l.l) :
    chunk H o.l = some (data.getD o.rledata) := by
  obtain ⟨p, hp, hget⟩ := Option.bind_eq_some_iff.mp ht
  obtain ⟨t', ht', hr, htl⟩ := h.terrain p hp
  rw [hget] at ht'
  cases ht'
  have hok := htiles t (List.mem_of_getElem? hget)
  have hheights : t.heightData = H t.l := by
    refine hok.heights ?_ (.inl hr)
    rw [htl]
    exact hl
  rw [hok.box hr, hheights, htl] at hrle
  have hchunk : chunk H o.l = some (data.getD []) := by
    unfold chunk
    simp only [hrle]
  cases data with
  | some rledata => exact hchunk
  | none =>
    -- the tile keeps what it holds, and if it holds anything that is the chunk, which is empty
    rcases h.data hl with hnil | hsome
    · rw [hnil]
      exact hchunk
    · exact hsome

/-- The invariant of one `BackgroundLoad`, with the heap it began with: the other voxel tiles still
point into it. -/
structure LoadOk (H : Loc → List F) (before : List (TerrainTile F)) (r : Loading F) : Prop where
  shared : SharedOk H r.level r.terrain
  evolves : Heap.Evolves TerrainTile.Keeps before r.terrain.heap
  tile : OctOk H r.terrain.heap r.tile

/-- The steps of loading that set the bytes of a tile set them to what was read from the database or
to what was computed from terrain. The latter is written to the database as well. -/
theorem LoadOk.step {before : List (TerrainTile F)} {r r' : Loading F} (h : LoadOk H before r)
    (hstep : OctTile.LoadStep r r') : LoadOk H before r' := by
  have hread : ∀ val, r.level.getOctChunk r.tile.l = some val → 1 ≤ r.tile.l.l →
      chunk H r.tile.l = some val := by
    intro val hget hl
    obtain ⟨c, hc⟩ := h.tile.addr
    rw [← hc] at hget hl ⊢
    exact h.shared.store.oct c val hl hget
  have hrequested := h.shared.requestTile h.tile.addr
  have hrequest := TerrainTileSelection.requestTile_evolves r.level r.tile.l r.terrain
  cases hstep with
  | missing _ _ => exact ⟨h.shared, h.evolves, h.tile.move (by decide) _⟩
  | read rledata voxelinst _ hget =>
    exact ⟨h.shared, h.evolves, h.tile.holds (hread _ hget) _ _⟩
  | readStuck rledata voxelinst stop _ hget =>
    exact ⟨h.shared, h.evolves, h.tile.holds (hread _ hget) _ _⟩
  | known p _ _ => exact ⟨h.shared, h.evolves, h.tile.move (by decide) _⟩
  | found p terrain _ _ hreq =>
    have hsome := h.shared.inv.requestTile_some hreq
    rw [hreq] at hrequested hrequest
    have hmoved := h.tile.move (show (2 : Int) < 3 by decide) r.tile.isdecommissioned
    refine ⟨hrequested, h.evolves.trans hrequest, hmoved.addr, fun q hq => ?_, hmoved.data,
      hmoved.loaded⟩
    cases hq
    exact hsome
  | pending terrain _ _ hreq =>
    rw [hreq] at hrequested hrequest
    exact ⟨hrequested, h.evolves.trans hrequest, h.tile.evolves hrequest⟩
  | makeStuck stop _ => exact ⟨h.shared, h.evolves, h.tile⟩
  -- what is written under the voxels' key is what the tile now holds
  | made t data voxelinst _ ht hrle =>
    have hchunk := chunk_of_terrainRle h.tile h.shared.tiles ht hrle
    exact ⟨h.shared.writeOctChunk h.tile.addr hchunk, h.evolves, h.tile.holds hchunk _ _⟩
  | madeStuck t data voxelinst stop _ ht hrle =>
    have hchunk := chunk_of_terrainRle h.tile h.shared.tiles ht hrle
    exact ⟨h.shared.writeOctChunk h.tile.addr hchunk, h.evolves, h.tile.holds hchunk _ _⟩

theorem LoadOk.backgroundLoad {w : World F} (h : Inv H w) {o : OctTile F} (ho : o ∈ w.octs)
    (fuel : Nat) :
    LoadOk H w.terrain.heap (OctTile.backgroundLoad fuel w.level w.terrain o) := by
  have hsteps := OctTile.backgroundLoad_steps fuel w.level w.terrain o
  generalize OctTile.backgroundLoad fuel w.level w.terrain o = r at hsteps
  induction hsteps with
  | refl => exact ⟨h.shared, .refl _, h.octs o ho⟩
  | tail _ hstep ih => exact ih.step hstep

/-! ### Every step keeps it -/

theorem inv_initial : Inv H (initial : World F) where
  shared := ⟨.empty, TerrainTileSelection.inv_initial, fun t ht => absurd ht (by
    simp [initial, TerrainTileSelection.initial]), fun loc hloc => absurd hloc (by
    simp [initial, TerrainTileSelection.initial])⟩
  octs o ho := absurd ho (by simp [initial])

/-- One case for each thing that can happen. A restart is the easy one: the tiles are gone, and the
database satisfies its part. -/
theorem Inv.act {w : World F} (h : Inv H w) (a : Act F) (ha : Act.Ok H w a) : Inv H (w.act a) := by
  cases a with
  | create l =>
    refine ⟨h.shared, Heap.forall_mem_alloc h.octs ⟨⟨l, rfl⟩, ?_, fun _ => .inl rfl, ?_⟩⟩
    · intro p hp
      exact absurd hp (by simp [OctTile.create])
    · intro _ h3
      exact absurd h3 (by simp [OctTile.create])
  | load i fuel =>
    show Inv H (w.loadAt fuel i)
    unfold loadAt
    cases hi : w.octs[i]? with
    | none => exact h
    | some o =>
      have hload := LoadOk.backgroundLoad h (List.mem_of_getElem? hi) fuel
      -- the other voxel tiles point to terrain that has gone on, but not changed under them
      exact ⟨hload.shared, Heap.forall_mem_write (fun o' ho' => (h.octs o' ho').evolves
        hload.evolves) hload.tile⟩
  | draw i =>
    refine ⟨h.shared, Heap.forall_mem_modify h.octs fun o ho => ?_⟩
    split
    · rename_i h3
      exact ⟨ho.addr, ho.terrain, ho.data, fun hl _ => ho.loaded hl (by omega)⟩
    · exact ho
  | decomission i =>
    exact ⟨h.shared, Heap.forall_mem_modify h.octs fun o ho => ho.move (by decide) true⟩
  | request l =>
    exact ⟨h.shared.requestTile ⟨l, rfl⟩, fun o ho => (h.octs o ho).evolves
      (TerrainTileSelection.requestTile_evolves _ _ _)⟩
  | update fr =>
    obtain ⟨horders, hfr⟩ := ha
    exact ⟨h.shared.update horders hfr, fun o ho => (h.octs o ho).evolves
      (h.shared.inv.update_evolves horders w.level)⟩
  | saveCamera pos =>
    exact ⟨⟨h.shared.store.writeCameraPos pos, h.shared.inv, h.shared.tiles, h.shared.requests⟩,
      h.octs⟩
  | restart =>
    have hinit := inv_initial (H := H)
    exact ⟨⟨h.shared.store, hinit.shared.inv, hinit.shared.tiles, hinit.shared.requests⟩,
      hinit.octs⟩

theorem inv_of_reachable {w : World F} (h : Reachable H w) : Inv H w := by
  induction h with
  | refl => exact inv_initial
  | tail _ hstep ih =>
    obtain ⟨a, ha, rfl⟩ := hstep
    exact ih.act a ha

/-- A ready entry of the table holds the heights of its own address, and their box. -/
theorem SharedOk.entry {level : Level} {terrain : TerrainTileSelection F}
    (h : SharedOk H level terrain) {loc : Loc} {p : Nat} (hentry : terrain.tiles[loc]? = some p)
    (hl : 1 ≤ loc.l) (hready : TerrainTile.isDataReady terrain.heap p = true) :
    ∃ t, terrain.heap[p]? = some t ∧ t.heightData = H loc ∧
      t.heightBbox = heightBox loc (H loc) := by
  obtain ⟨t, ht, hdata⟩ := TerrainTile.isDataReady_iff.mp hready
  obtain ⟨t', ht', rfl⟩ := h.inv.tiles loc p hentry
  obtain rfl : t = t' := Option.some.inj (ht.symm.trans ht')
  have hok := h.tiles t (List.mem_of_getElem? ht)
  have hheights := hok.heights hl (.inl hdata)
  exact ⟨t, ht, hheights, (hok.box hdata).trans (by rw [hheights])⟩

/-- The terrain is changed by requests and by its own frames, and a restart empties it. -/
theorem act_terrain {P : TerrainTileSelection F → Prop} (hinitial : P .initial)
    (hrequest : ∀ level loc s, P s → P (TerrainTileSelection.requestTile level loc s).2)
    {w : World F} (h : P w.terrain) {a : Act F}
    (hupdate : ∀ fr, a = .update fr → P (TerrainTileSelection.update fr w.level w.terrain).2) :
    P (w.act a).terrain := by
  cases a with
  | load i fuel =>
    show P (w.loadAt fuel i).terrain
    unfold loadAt
    split
    · exact h
    · exact OctTile.backgroundLoad_terrain hrequest fuel w.level h _
  | request l => exact hrequest w.level l.toLoc w.terrain h
  | update fr => exact hupdate fr rfl
  | restart => exact hinitial
  | _ => exact h

/-- What the whole does to the terrain is what `TerrainTileSelection` can do by itself. -/
theorem terrain_of_reachable {w : World F} (h : Reachable H w) :
    TerrainTileSelection.Reachable w.terrain := by
  induction h with
  | refl => exact .refl
  | tail _ hstep ih =>
    obtain ⟨a, ha, rfl⟩ := hstep
    refine act_terrain .refl (fun level loc s hs => hs.tail (.request s level loc)) ih ?_
    rintro fr rfl
    exact ih.tail (.update _ _ fr ha.1)

/-- **Saving and reloading is transparent**: a loaded tile holds the chunk of its address. -/
theorem loaded_tile_holds_chunk {w : World F} (h : Reachable H w) {i : Nat} {o : OctTile F}
    (ho : w.octs[i]? = some o) (hl : 1 ≤ o.l.l) (hloaded : 3 ≤ o.readyState) :
    chunk H o.l = some o.rledata :=
  ((inv_of_reachable h).octs o (List.mem_of_getElem? ho)).loaded hl hloaded

/-! ### A run

The hypotheses hold in a run where a tile of level 1 is created, finds no terrain, waits for the
terrain and its parent to be built, is made from it and stored; the program is restarted, and the
tile is read from the database. Every other column of the terrain has a height inside the tile, so
that the tile has voxels, and never 256 of them one after the other. -/

/-- Heights of −64 and 0 in turn: every other column of the cell is filled to the bottom. -/
def posts : List Int32 := (List.range (384 * 384)).map fun n => if n % 2 = 0 then -64 else 0

theorem posts_eq : posts = (List.range (384 * 384)).map fun n => if n % 2 = 0 then -64 else 0 := rfl

-- a list of 147456 heights, which nothing below should compute
attribute [irreducible] posts

def cellOne : ChunkLoc := ⟨⟨0, 0, 0, 1⟩, by decide, by decide⟩

theorem length_posts : posts.length = OctTile.totalPtsCt * OctTile.totalPtsCt := by
  rw [posts_eq, List.length_map, List.length_range]
  rfl

theorem heightRange_posts : heightRange posts = (-64, 0) := by
  have hrange : List.range (384 * 384) = 0 :: 1 :: (List.range 147454).map (· + 2) := by
    rw [show 384 * 384 = 147454 + 1 + 1 from rfl, List.range_succ_eq_map, List.range_succ_eq_map,
      List.map_cons, List.map_map]
    rfl
  rw [posts_eq, hrange, heightRange, List.map_cons, List.map_cons, List.foldl_cons, List.foldl_cons]
  -- from the third height on nothing changes
  refine List.foldlRecOn _ _ (motive := fun r => r = (-64, 0)) (by decide) ?_
  rintro _ rfl h hh
  obtain ⟨n, -, rfl⟩ := List.mem_map.mp hh
  split <;> decide

theorem even_of_filled_posts {i : Nat} (h : OctTile.Filled cellOne.getBBox posts i) :
    i % 2 = 0 := by
  by_contra hodd
  have hlt : (i / squarePtsCt % squarePtsCt + OctTile.overlapPtsCt) * OctTile.totalPtsCt
      + (i % squarePtsCt + OctTile.overlapPtsCt) < 384 * 384 := by
    unfold OctTile.totalPtsCt OctTile.overlapPtsCt squarePtsCt
    omega
  -- a row of samples and its border are even in length, so the parity is that of the column
  have hparity : ((i / squarePtsCt % squarePtsCt + OctTile.overlapPtsCt) * OctTile.totalPtsCt
      + (i % squarePtsCt + OctTile.overlapPtsCt)) % 2 = i % 2 := by
    unfold OctTile.totalPtsCt OctTile.overlapPtsCt squarePtsCt
    omega
  rw [OctTile.Filled, OctTile.rowOf, OctTile.heightAt, posts_eq, List.getElem?_map,
    List.getElem?_range hlt, Option.map_some, hparity, if_neg hodd, Option.bind_some] at h
  exact absurd h (by rw [show OctTile.voxelRow (cellOne.getBBox : AABox Int32) 0 = none by decide]
                     simp)

theorem exists_chunk_posts : ∃ data rledata octPts,
    OctTile.terrainRle cellOne.toLoc (heightBox cellOne.toLoc posts) posts = .ok (some rledata) ∧
      rleEncode data = .ok rledata ∧ loadVBPts 256 rledata = .ok octPts := by
  obtain ⟨data, hdata, hcells, hfilled⟩ :=
    OctTile.voxelData_filled (cellOne.getBBox : AABox Int32) length_posts
  have hrle := rleEncode_eq (ne_nil_of_length_cellCt hcells)
  have hmeet : MapBg.intersect (heightBox cellOne.toLoc posts) cellOne.getBBox = true := by
    rw [heightBox, heightRange_posts]
    decide
  -- a level row would be filled in two columns next to each other
  have huneven : ¬ OctTile.Level cellOne.getBBox posts := by
    rintro ⟨v, -, hrow⟩
    have hfirst := even_of_filled_posts (hrow 0 (by decide))
    have hsecond := even_of_filled_posts (hrow 1 (by decide))
    omega
  have hrun := mt (OctTile.long_run_iff_level hcells hfilled).mp huneven
  exact ⟨data, _, _, OctTile.terrainRle_of_meet hmeet hdata hrle, hrle,
    loadVBPts_short hrle hrun (Nat.le_refl 256)⟩

/-- A frame of the terrain in which the GPU reads back `posts`. -/
def tick (w : World Int32) (n : Int) : World Int32 :=
  w.act (.update ⟨⟨n, fun _ => 0, fun _ _ => posts⟩, w.terrain.tiles.keys,
    w.terrain.buildingTiles⟩)

theorem reachable_tick {w : World Int32} (h : Reachable (fun _ => posts) w) (n : Int)
    (hlast : w.terrain.tiles.keys.Pairwise fun a b =>
      w.terrain.lastUsedFrame a ≤ w.terrain.lastUsedFrame b) :
    Reachable (fun _ => posts) (tick w n) :=
  h.tail ⟨.update _, ⟨⟨.refl _, hlast, .refl _⟩, fun _ _ _ => rfl⟩, rfl⟩

/-- A tile is created and asked to load. There is no terrain yet, and it waits. -/
def waiting : World Int32 := (initial.act (.create cellOne)).act (.load 0 256)

/-- Five frames later the terrain tiles of level 0 and of level 1 are built. -/
def built : World Int32 := tick (tick (tick (tick (tick waiting 0) 1) 2) 3) 4

theorem reachable_built : Reachable (fun _ => posts) built := by
  have hwaiting : Reachable (fun _ => posts) waiting :=
    (Relation.ReflTransGen.refl.tail ⟨.create _, trivial, rfl⟩).tail ⟨.load 0 256, trivial, rfl⟩
  have h₀ := reachable_tick hwaiting 0 (by decide)
  have h₁ := reachable_tick h₀ 1 (by decide)
  have h₂ := reachable_tick h₁ 2 (by decide)
  have h₃ := reachable_tick h₂ 3 (by decide)
  exact reachable_tick h₃ 4 (by decide)

theorem built_ready : built.octs.map (fun o => (o.l, o.readyState, o.terrainTile))
      = [(cellOne.toLoc, 1, none)] ∧
    built.terrain.tiles[cellOne.toLoc]? = some 1 ∧
    TerrainTile.isDataReady built.terrain.heap 1 = true := by
  decide +kernel

theorem built_made : ∃ data rledata octPts, rleEncode data = .ok rledata ∧
    loadVBPts 256 rledata = .ok octPts ∧
    (built.act (.load 0 256)).level.getOctChunk cellOne.toLoc = some rledata := by
  obtain ⟨data, rledata, octPts, hchunk, hrle, hvb⟩ := exists_chunk_posts
  refine ⟨data, rledata, octPts, hrle, hvb, ?_⟩
  obtain ⟨hocts, hentry, hready⟩ := built_ready
  obtain ⟨o, rest, heq, hfields, -⟩ := List.map_eq_cons_iff.mp hocts
  simp only [Prod.mk.injEq] at hfields
  obtain ⟨hl, hstate, hterrain⟩ := hfields
  have hground : ({ o.l with y := 0 } : Loc) = cellOne.toLoc := by rw [hl]; rfl
  have hrequest : TerrainTileSelection.requestTile built.level o.l built.terrain
      = (some 1, built.terrain) := by
    rw [TerrainTileSelection.requestTile_eq, hground]
    simp only [hentry, hready, if_true]
  -- what the terrain holds is known from the invariant
  obtain ⟨t, ht, hheights, hbox⟩ :=
    (inv_of_reachable reachable_built).shared.entry hentry (by decide) hready
  rw [← hbox, ← hheights, ← hl] at hchunk
  have hload := OctTile.backgroundLoad_made hstate hterrain hrequest ht hchunk hvb
  have hfirst : built.octs[0]? = some o := by rw [heq]; rfl
  have hlevel : (built.act (.load 0 256)).level
      = (OctTile.backgroundLoad 256 built.level built.terrain o).level := by
    simp only [act, loadAt, hfirst]
  rw [hlevel, hload, hl, Level.getOctChunk_writeOctChunk, if_pos rfl]

/-- After a restart a tile that is stored is loaded at the first call. -/
theorem restart_load {w : World F} {l : ChunkLoc} {fuel : Nat} {rledata : Bytes}
    {octPts : List Vec3i} (hget : w.level.getOctChunk l.toLoc = some rledata)
    (hvb : loadVBPts fuel rledata = .ok octPts) :
    ∃ voxelinst, ((w.act .restart).act (.create l)).act (.load 0 fuel) = ⟨w.level, .initial,
      [{ OctTile.create l.toLoc with rledata, voxelinst, readyState := 3 }]⟩ := by
  obtain ⟨voxelinst, hload⟩ := OctTile.backgroundLoad_read (F := F) .initial hget hvb
  refine ⟨voxelinst, ?_⟩
  simp only [act, loadAt, initial, List.nil_append, List.getElem?_cons_zero, hload,
    List.set_cons_zero]

/-- The tile loads and is saved. After a restart, another tile for the same cell loads from the
database. -/
def reloaded : World Int32 :=
  (((built.act (.load 0 256)).act .restart).act (.create cellOne)).act (.load 0 256)

theorem reachable_reloaded : Reachable (fun _ => posts) reloaded :=
  (((reachable_built.tail ⟨.load 0 256, trivial, rfl⟩).tail ⟨.restart, trivial, rfl⟩).tail
    ⟨.create cellOne, trivial, rfl⟩).tail ⟨.load 0 256, trivial, rfl⟩

/-- After the restart there is no terrain. The tile comes from the database, and has voxels. -/
theorem loaded_tile_holds_chunk_reloaded : ∃ o : OctTile Int32,
    Reachable (fun _ => posts) reloaded ∧ reloaded.terrain.heap = [] ∧
    reloaded.octs[0]? = some o ∧ 1 ≤ o.l.l ∧ 3 ≤ o.readyState ∧ o.rledata ≠ [] ∧
    chunk (fun _ => posts) o.l = some o.rledata := by
  obtain ⟨data, rledata, octPts, hrle, hvb, hget⟩ := built_made
  obtain ⟨voxelinst, hreloaded⟩ := restart_load hget hvb
  rw [← reloaded] at hreloaded
  have hfirst : reloaded.octs[0]? = some
      { OctTile.create cellOne.toLoc with rledata, voxelinst, readyState := 3 } := by
    rw [hreloaded]
    rfl
  have hlevel : 1 ≤ cellOne.l := by decide
  refine ⟨_, reachable_reloaded, ?_, hfirst, hlevel, Int.le_refl 3, rleEncode_ne_nil hrle, ?_⟩
  · rw [hreloaded]
    rfl
  · exact loaded_tile_holds_chunk reachable_reloaded hfirst hlevel (Int.le_refl 3)

/-! ## Asking a tile

`OctTile::Intersect` decodes what a tile holds without a check. In a run of the whole that is safe:
a tile holds nothing, or what `RleEncode` made of a cube. -/

/-- The voxels of any tile in any run can be asked what a ray hits, loaded or not: before, it has no
bytes. -/
theorem voxels_ok {w : World F} (h : Reachable H w) {i : Nat} {o : OctTile F}
    (ho : w.octs[i]? = some o) (hl : 1 ≤ o.l.l) : (VoxTile.create o.l o.rledata).Ok := by
  -- no bytes, or those of a cube that was encoded
  rcases ((inv_of_reachable h).octs o (List.mem_of_getElem? ho)).data hl with hempty | hchunk
  · exact .inl hempty
  · unfold chunk at hchunk
    simp only at hchunk
    split at hchunk
    · rename_i data hrle
      cases data with
      | none => exact .inl (Option.some.inj hchunk).symm
      | some rledata =>
        obtain ⟨data, hlen, hencode⟩ := OctTile.terrainRle_encodes hrle
        cases hchunk
        exact .inr ⟨data, VoxTile.cached_create hlen hencode o.l⟩
    · exact absurd hchunk (by simp)

end World

end MapBg
