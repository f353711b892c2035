import MapBg.Terrain.Evict
import MapBg.Terrain.Generate
import MapBg.World.Persist

/-!
# The world is a function of the address

`World/Persist` assumes that the heights the GPU returns for an address are always the same. But the
shaders of a tile are given the texture of its parent, and which texture this is depends on the run:
the one the parent was built in, or one that `GetTerrain` has filled from a chunk of the database;
of a parent that has been evicted since, and built again or read again meanwhile. That the GPU is a
function is a property of the whole.

Here the GPU is assumed to run the shaders, and nothing more. What is read back for a tile is what
`generate` makes of the texture that its parent has then (`Computes`). A frame can then be replaced
by one whose GPU knows `worldHeights`, and is the same frame: `Build` looks at what was read back
only for the tiles that are past the dispatch, and these have a parent that is ready, is for the
address above, and holds the heights of the world already. So every run is one of the runs of
`World/Persist` (`Run.reachable`), and what is proved about those is true of it.
-/

set_option autoImplicit false

namespace MapBg

variable {F : Type} [FloatRep F]

/-! ## Parents

`TerrainTile.Ok` knows the level of a parent. Its address is known from the map in which it was
found. -/

namespace TerrainTile

/-- A tile's parent is the tile of the parent's cell, and a tile that is still being built has one,
except at level 0. -/
structure Child (heap : List (TerrainTile F)) (t : TerrainTile F) : Prop where
  above : ∀ q, t.parent = some q → ∃ u, heap[q]? = some u ∧ u.l = t.l.parent
  waits : t.dataready = false → 0 < t.l.l → ∃ q, t.parent = some q

def Parents (heap : List (TerrainTile F)) : Prop := ∀ t ∈ heap, Child heap t

omit [FloatRep F] in
theorem Child.evolves {heap heap' : List (TerrainTile F)} {t : TerrainTile F} (h : Child heap t)
    (he : Heap.Evolves Keeps heap heap') : Child heap' t := by
  refine ⟨?_, h.waits⟩
  intro q hq
  obtain ⟨u, hu, hl⟩ := h.above q hq
  obtain ⟨u', hu', hl', -⟩ := he q u hu
  exact ⟨u', hu', hl'.trans hl⟩

omit [FloatRep F] in
theorem Parents.alloc {heap : List (TerrainTile F)} (h : Parents heap) {t : TerrainTile F}
    (ht : Child heap t) : Parents (heap ++ [t]) :=
  Heap.forall_mem_alloc (fun u hu => (h u hu).evolves (.alloc _ _)) (ht.evolves (.alloc _ _))

/-- A build clears the pointer to the parent, at the end, or keeps it. -/
theorem Parents.build {c : BuildState F} (h : Parents c.heap) (hok : HeapOk c.heap) (g : Gpu F)
    (p : Nat) : Parents (TerrainTile.build g p c).2.heap := by
  cases hp : c.heap[p]? with
  | none =>
    rw [TerrainTile.build, hp]
    exact h
  | some t =>
    have ht := h t (List.mem_of_getElem? hp)
    have he := (built_build g hok hp).evolves
    have hout := build_outcome g hp
    generalize TerrainTile.build g p c = result at he hout ⊢
    cases hout with
    | blocked _ => exact h
    | idle => exact h
    | dispatched _ _ _ =>
      exact Heap.forall_mem_write (fun u hu => (h u hu).evolves he)
        (Child.evolves ⟨ht.above, ht.waits⟩ he)
    | readBack _ _ =>
      exact Heap.forall_mem_write (fun u hu => (h u hu).evolves he)
        (Child.evolves ⟨ht.above, ht.waits⟩ he)
    | finished _ _ =>
      -- a tile lets go of its parent when its data is ready
      refine Heap.forall_mem_write (fun u hu => (h u hu).evolves he) ⟨?_, ?_⟩
      · intro q hq
        exact absurd hq (by simp [TerrainTile.finished])
      · intro hr
        exact absurd hr (by simp [TerrainTile.finished])

end TerrainTile

namespace TerrainTileSelection

open TerrainTile (Parents HeapOk)

/-- A tile that is read from the database has no parent and needs none. -/
theorem requestTile_parents (level : Level) (loc : Loc) {s : TerrainTileSelection F}
    (h : Parents s.heap) : Parents (requestTile level loc s).2.heap := by
  refine requestTile_induct (P := fun s => Parents s.heap) (Q := fun _ => True)
    (fun _ _ => trivial) (fun _ _ _ => trivial) ?_ (fun _ _ _ _ _ hs => hs) trivial h
  intro s tl val _ _ hs
  refine hs.alloc ⟨?_, ?_⟩
  · intro q hq
    exact absurd hq (by simp [TerrainTile.ofChunk])
  · intro hr
    exact absurd hr (by simp [TerrainTile.ofChunk])

/-- What is carried through the loops of a frame. -/
structure Linked (u : UpdateState F) : Prop where
  heap : HeapOk u.heap
  tiles : TilesOk u.heap u.tiles
  parents : Parents u.heap

theorem Linked.buildTile {u : UpdateState F} (h : Linked u) (g : Gpu F) (p : Nat) :
    Linked (buildTile g u p) := by
  cases hp : u.heap[p]? with
  | none =>
    have hsame : TerrainTile.build g p u.toBuildState = (false, u.toBuildState) := by
      rw [TerrainTile.build, hp]
    unfold TerrainTileSelection.buildTile
    rw [hsame]
    exact ⟨h.heap, h.tiles, h.parents⟩
  | some t =>
    have hbuilt := TerrainTile.built_build g h.heap hp
    exact ⟨hbuilt.heapOk, h.tiles.evolves hbuilt.evolves, h.parents.build h.heap g p⟩

theorem Linked.addTile {u : UpdateState F} (h : Linked u) (g : Gpu F) {loc : Loc}
    {parent : Option Nat}
    (hparent : ∀ q, parent = some q → ∃ t, u.heap[q]? = some t ∧ t.l = loc.parent)
    (hhas : 0 < loc.l → ∃ q, parent = some q) : Linked (addTile g u loc parent) := by
  have hlevel (q : Nat) (hq : parent = some q) : ∃ t, u.heap[q]? = some t ∧ t.l.l = loc.l - 1 := by
    obtain ⟨t, ht, hl⟩ := hparent q hq
    exact ⟨t, ht, by rw [hl]; rfl⟩
  have hcreated : Linked { u with heap := u.heap ++ [.create loc parent] } :=
    ⟨h.heap.alloc (TerrainTile.ok_create hlevel), h.tiles.evolves (.alloc _ _),
      h.parents.alloc ⟨hparent, fun _ => hhas⟩⟩
  -- created, built at once, and entered under its address
  have hbuilt := hcreated.buildTile g u.heap.length
  have hnew : (u.heap ++ [TerrainTile.create loc parent])[u.heap.length]?
      = some (TerrainTile.create (F := F) loc parent) := by simp
  obtain ⟨t, ht, hl, -⟩ := (TerrainTile.built_build g hcreated.heap hnew).evolves _ _ hnew
  have hinsert := hbuilt.tiles.insert ht
  rw [hl] at hinsert
  exact ⟨hbuilt.heap, hinsert, hbuilt.parents⟩

theorem Linked.requestStep {u : UpdateState F} (h : Linked u) (g : Gpu F) (loc : Loc) :
    Linked (requestStep g u loc) := by
  unfold TerrainTileSelection.requestStep
  split
  · exact h
  · split
    · split
      · rename_i q hq
        -- the parent is the entry of its own address
        refine h.addTile g ?_ fun _ => ⟨q, rfl⟩
        intro q' hq'
        cases hq'
        exact h.tiles _ q hq
      · exact h
    · rename_i hl
      -- at level 0 there is none
      refine h.addTile g ?_ fun hpos => absurd hpos hl
      intro q hq
      exact absurd hq (by simp)

/-- Through the three loops of a frame, by their rule of induction. -/
theorem update_parents (fr : Frame F) (level : Level) {s : TerrainTileSelection F} (h : Inv s)
    (hparents : Parents s.heap) : Parents (update fr level s).2.heap := by
  have hlinked : Linked (updateLoops fr level s) := by
    apply updateLoops_induct
    · exact ⟨h.heap, h.tiles, hparents⟩
    · intro u loc hu
      exact ⟨hu.heap, hu.tiles.erase loc, hu.parents⟩
    · intro u loc _ hu
      exact hu.requestStep fr.toGpu loc
    · intro u p hu
      exact hu.buildTile fr.toGpu p
  exact hlinked.parents

/-! ## Another GPU

A frame in which something else is read back is the same frame, if it is not something else for any
tile that was dispatched in an earlier one. -/

/-- Two ways of reading heights back agree on the tiles for which it is asked: those that are
dispatched, when their frame has come. -/
def Agrees (g : Gpu F) (readback : Nat → Loc → List F) (heap : List (TerrainTile F)) : Prop :=
  ∀ (p : Nat) (t : TerrainTile F), heap[p]? = some t → t.buildStep = 1 →
    t.buildFrame ≤ g.frameIdx → readback p t.l = g.readback p t.l

variable {g : Gpu F} {readback : Nat → Loc → List F}

/-- Then a build is the same with either. -/
theorem Agrees.build_eq {c : BuildState F} (h : Agrees g readback c.heap) (p : Nat) :
    TerrainTile.build { g with readback } p c = TerrainTile.build g p c := by
  unfold TerrainTile.build
  cases hp : c.heap[p]? with
  | none => rfl
  | some t =>
    simp only
    split
    · rfl
    · split
      · rfl
      · split
        · rename_i hstep
          -- the only place where `readback` is read
          simp only [TerrainTile.readBack, h p t hp hstep.1 hstep.2]
        · rfl

omit [FloatRep F] in
theorem Agrees.write {heap : List (TerrainTile F)} (h : Agrees g readback heap) {p : Nat}
    {t t' : TerrainTile F} (hp : heap[p]? = some t)
    (hnot : ¬ (t'.buildStep = 1 ∧ t'.buildFrame ≤ g.frameIdx)) :
    Agrees g readback (heap.set p t') := by
  intro q u hq hstep hframe
  rw [Heap.getElem?_write hp] at hq
  split at hq
  · cases hq
    exact absurd ⟨hstep, hframe⟩ hnot
  · exact h q u hq hstep hframe

/-- No build adds to what may be asked within the frame: what is dispatched in it is read back in a
later one. -/
theorem Agrees.build {c : BuildState F} (h : Agrees g readback c.heap) (p : Nat) :
    Agrees g readback (TerrainTile.build g p c).2.heap := by
  cases hp : c.heap[p]? with
  | none =>
    rw [TerrainTile.build, hp]
    exact h
  | some t =>
    have hout := TerrainTile.build_outcome g hp
    generalize TerrainTile.build g p c = result at hout ⊢
    cases hout with
    | blocked _ => exact h
    | idle => exact h
    | dispatched _ _ _ => exact h.write hp (by simp [TerrainTile.dispatched])
    | readBack _ _ => exact h.write hp (by simp [TerrainTile.readBack])
    | finished _ _ => exact h.write hp (by simp [TerrainTile.finished])

theorem Agrees.create {heap : List (TerrainTile F)} (h : Agrees g readback heap) (loc : Loc)
    (parent : Option Nat) : Agrees g readback (heap ++ [.create loc parent]) := by
  intro q u hq hstep
  rcases Heap.getElem?_alloc_iff.mp hq with hq | ⟨-, rfl⟩
  · exact h q u hq hstep
  · exact absurd hstep (by simp [TerrainTile.create])

theorem Agrees.buildTile_eq {u : UpdateState F} (h : Agrees g readback u.heap) (p : Nat) :
    buildTile { g with readback } u p = buildTile g u p := by
  simp only [buildTile, h.build_eq p]

theorem Agrees.requestStep_eq {u : UpdateState F} (h : Agrees g readback u.heap) (loc : Loc) :
    requestStep { g with readback } u loc = requestStep g u loc := by
  have hadd (parent : Option Nat) :
      addTile { g with readback } u loc parent = addTile g u loc parent := by
    have hbuild := Agrees.buildTile_eq
      (u := { u with heap := u.heap ++ [.create loc parent] }) (h.create loc parent) u.heap.length
    simp only [addTile, hbuild]
  simp only [requestStep, hadd]

theorem Agrees.requestStep {u : UpdateState F} (h : Agrees g readback u.heap) (loc : Loc) :
    Agrees g readback (requestStep g u loc).heap := by
  rcases requestStep_cases g u loc with ⟨heq, -⟩ | ⟨-, -, parent, heq⟩
  · rw [heq]
    exact h
  · rw [heq]
    exact Agrees.build (c := { u.toBuildState with heap := u.heap ++ [.create loc parent] })
      (h.create loc parent) u.heap.length

omit [FloatRep F] in
theorem Agrees.foldl_eq {α : Type} {k f : UpdateState F → α → UpdateState F}
    (hf : ∀ u a, Agrees g readback u.heap → k u a = f u a ∧ Agrees g readback (f u a).heap)
    (l : List α) {u : UpdateState F} (h : Agrees g readback u.heap) :
    l.foldl k u = l.foldl f u ∧ Agrees g readback (l.foldl f u).heap := by
  refine List.foldl_rel (r := fun (u' u : UpdateState F) => u' = u ∧ Agrees g readback u.heap)
    ⟨rfl, h⟩ ?_
  rintro a _ _ u ⟨rfl, hu⟩
  exact hf _ a hu

theorem Agrees.update_eq {fr : Frame F} {s : TerrainTileSelection F}
    (h : Agrees fr.toGpu readback s.heap) (level : Level) :
    update { fr with readback } level s = update fr level s := by
  have hevict : Agrees fr.toGpu readback (evict fr (updateStart level s)).heap := by
    unfold evict
    split
    · exact List.foldlRecOn (motive := fun u : UpdateState F => Agrees fr.toGpu readback u.heap)
        _ _ h fun u hu loc _ => hu
    · exact h
  -- the two loops that build, one after the other
  obtain ⟨hrequests, hkept⟩ := Agrees.foldl_eq
    (k := TerrainTileSelection.requestStep { fr.toGpu with readback })
    (fun u loc hu => ⟨hu.requestStep_eq loc, hu.requestStep loc⟩) s.requestTiles.toList hevict
  obtain ⟨hvisits, -⟩ := Agrees.foldl_eq (k := buildTile { fr.toGpu with readback })
    (fun u p hu => ⟨hu.buildTile_eq p, hu.build p⟩) fr.visit hkept
  have hloops : updateLoops { fr with readback } level s = updateLoops fr level s := by
    rw [← hrequests] at hvisits
    exact hvisits.trans (by rw [hrequests]; rfl)
  simp only [update, hloops]

end TerrainTileSelection

namespace World

open TerrainTile (Parents HeapOk Shading SameTexels textureOf heightsOf generate worldHeights)
open TerrainTileSelection (Agrees)

variable [BEq F]

/-! ## The GPU -/

/-- The texture that `parent->GetTerrain()` returns: the one the parent was built in, which its
heights were read back from, or else one made of the heights. -/
inductive HasTexture (heap : List (TerrainTile F)) (t : TerrainTile F) :
    Option (Texture F) → Prop
  | none : t.parent = none → HasTexture heap t none
  | built (q : Nat) (u : TerrainTile F) (tex : Texture F) : t.parent = some q →
      heap[q]? = some u → u.heightData = heightsOf tex → HasTexture heap t (some tex)
  | filled (q : Nat) (u : TerrainTile F) : t.parent = some q → heap[q]? = some u →
      HasTexture heap t (some (textureOf u.heightData))

/-- What is read back for a tile that was dispatched is what the shaders have made. -/
def Computes (sh : Shading F) (heap : List (TerrainTile F)) (g : Gpu F) : Prop :=
  ∀ (p : Nat) (t : TerrainTile F), heap[p]? = some t → t.buildStep = 1 →
    ∃ other parent, HasTexture heap t parent ∧
      generate sh other t.l parent = some (g.readback p t.l)

/-- The GPU computes a tile from what its parent holds. -/
def Act.Computed (sh : Shading F) (w : World F) : Act F → Prop
  | .update fr => TerrainTileSelection.Orders fr w.terrain ∧ Computes sh w.terrain.heap fr.toGpu
  | _ => True

/-- A run in which the GPU does so. Unlike in `Reachable`, nothing is assumed of what comes out. -/
def Run (sh : Shading F) (w : World F) : Prop :=
  Relation.ReflTransGen (fun w w' => ∃ a, Act.Computed sh w a ∧ w' = w.act a) initial w

/-- The heights of the world as `Persist` wants them. -/
def heights (sh : Shading F) (l : Loc) : List F := (worldHeights sh l).getD []

/-- A GPU that knows the world. Of the topmost level it knows what `g` does. -/
def known (sh : Shading F) (g : Gpu F) (p : Nat) (l : Loc) : List F :=
  if 1 ≤ l.l then heights sh l else g.readback p l

variable {sh : Shading F}

theorem worldHeights_eq (sh : Shading F) (l : Loc) : worldHeights sh l = some (heights sh l) := by
  obtain ⟨hs, hworld, -⟩ := TerrainTile.exists_worldHeightsAt sh l.l.toNat l
  rw [heights, worldHeights, hworld, Option.getD_some]

/-- The coarse levels are made from the noise, whatever the parent. -/
theorem generate_coarse {l : Loc} (hl : l.l < 5) (other other' : Texture (Vec4 F))
    (parent parent' : Option (Texture F)) :
    generate sh other l parent = generate sh other' l parent' := by
  simp only [generate, TerrainTile.firstDispatch_coarse hl, Option.map_some, TerrainTile.erode_eq]
  rfl

omit [BEq F] in
/-- Either way the texels are the heights of the parent. -/
theorem HasTexture.texels {heap : List (TerrainTile F)} {t : TerrainTile F}
    {parent : Option (Texture F)} (h : HasTexture heap t parent) {q : Nat}
    (hq : t.parent = some q) :
    ∃ u tex, parent = some tex ∧ heap[q]? = some u ∧ SameTexels tex (textureOf u.heightData) := by
  cases h with
  | none hnone => exact absurd (hq.symm.trans hnone) (by simp)
  | built q' u tex hq' hu hread =>
    obtain rfl : q = q' := Option.some.inj (hq.symm.trans hq')
    refine ⟨u, tex, rfl, hu, ?_⟩
    intro uv hin
    rw [hread, TerrainTile.textureOf_heightsOf tex uv hin]
  | filled q' u hq' hu =>
    obtain rfl : q = q' := Option.some.inj (hq.symm.trans hq')
    exact ⟨u, _, rfl, hu, fun _ _ => rfl⟩

/-- A tile past the dispatch has a parent that is ready and is for the address above. -/
theorem generate_eq_heights {level : Level} {terrain : TerrainTileSelection F}
    (h : SharedOk (heights sh) level terrain) (hparents : Parents terrain.heap) {p : Nat}
    {t : TerrainTile F} (ht : terrain.heap[p]? = some t) (hstep : t.buildStep = 1)
    (hl : 1 ≤ t.l.l) {other : Texture (Vec4 F)} {parent : Option (Texture F)}
    (htex : HasTexture terrain.heap t parent) :
    generate sh other t.l parent = some (heights sh t.l) := by
  have hok := h.inv.heap p t ht
  have hchild := hparents t (List.mem_of_getElem? ht)
  have hnot : t.dataready = false := by
    rw [← Bool.not_eq_true, hok.ready_iff, hstep]
    decide
  rw [← worldHeights_eq, TerrainTile.worldHeights_parent sh (by omega), worldHeights_eq,
    Option.bind_some]
  obtain ⟨q, hq⟩ := hchild.waits hnot (by omega)
  obtain ⟨u, tex, rfl, hu, hsame⟩ := htex.texels hq
  by_cases hcoarse : t.l.l < 5
  · -- the parent is not looked at; it may be of level 0, and then nothing is known of its heights
    exact generate_coarse hcoarse _ _ _ _
  · obtain ⟨u', hu', haddr⟩ := hchild.above q hq
    obtain rfl : u = u' := Option.some.inj (hu.symm.trans hu')
    -- `Build` has not gone past a parent that was not ready
    have hfree := TerrainTile.blocked_eq_false_iff.mp (hok.unblocked (.inl hstep)) q hq
    obtain ⟨u', hu', hready⟩ := TerrainTile.isDataReady_iff.mp hfree
    obtain rfl : u = u' := Option.some.inj (hu.symm.trans hu')
    have hlevel : 1 ≤ u.l.l := by
      rw [haddr]
      show 1 ≤ t.l.l - 1
      omega
    have hheights := (h.tiles u (List.mem_of_getElem? hu)).heights hlevel (.inl hready)
    rw [hheights, haddr] at hsame
    exact TerrainTile.generate_congr sh _ _ t.l hsame

/-- By the invariant so far the parent of a tile holds the heights of the world, so what is computed
from them is the heights of the world again. -/
theorem Computes.agrees {level : Level} {terrain : TerrainTileSelection F} {g : Gpu F}
    (hg : Computes sh terrain.heap g) (h : SharedOk (heights sh) level terrain)
    (hparents : Parents terrain.heap) :
    Agrees g (known sh g) terrain.heap := by
  intro p t ht hstep _
  obtain ⟨other, parent, htex, hgen⟩ := hg p t ht hstep
  unfold known
  split
  · rename_i hl
    rw [generate_eq_heights h hparents ht hstep hl htex] at hgen
    exact Option.some.inj hgen
  · rfl

/-! ## Runs -/

omit [BEq F] in
theorem act_parents {w : World F} {H : Loc → List F} (h : Inv H w)
    (hparents : Parents w.terrain.heap) (a : Act F) : Parents (w.act a).terrain.heap := by
  refine act_terrain (P := fun s => Parents s.heap) ?_
    (fun level loc _ hs => TerrainTileSelection.requestTile_parents level loc hs) hparents
    (fun fr _ => TerrainTileSelection.update_parents fr w.level h.shared.inv hparents)
  intro t ht
  exact absurd ht (by simp [TerrainTileSelection.initial])

/-- The same state is reached by a step of `World/Persist`. -/
theorem step_of_computed {w : World F} (h : Inv (heights sh) w) (hparents : Parents w.terrain.heap)
    {a : Act F} (ha : Act.Computed sh w a) : Step (heights sh) w (w.act a) := by
  cases a with
  | update fr =>
    obtain ⟨horders, hcomputes⟩ := ha
    have hagrees : Agrees fr.toGpu (known sh fr.toGpu) w.terrain.heap :=
      hcomputes.agrees h.shared hparents
    have hsame := hagrees.update_eq w.level
    -- in place of what the GPU computes, what is known of the world
    refine ⟨.update { fr with readback := known sh fr.toGpu }, ⟨?_, ?_⟩, ?_⟩
    · exact ⟨horders.sorted_perm, horders.sorted_lastUsed, horders.visit_perm⟩
    · intro p l hl
      exact if_pos hl
    · simp only [act, hsame]
  | create l => exact ⟨.create l, trivial, rfl⟩
  | load i fuel => exact ⟨.load i fuel, trivial, rfl⟩
  | draw i => exact ⟨.draw i, trivial, rfl⟩
  | decomission i => exact ⟨.decomission i, trivial, rfl⟩
  | request l => exact ⟨.request l, trivial, rfl⟩
  | saveCamera pos => exact ⟨.saveCamera pos, trivial, rfl⟩
  | restart => exact ⟨.restart, trivial, rfl⟩

/-- By induction on the run: each frame is one that `Persist` allows, since what it reads back is
known by then. -/
theorem Run.reachable {w : World F} (h : Run sh w) :
    Reachable (heights sh) w ∧ Parents w.terrain.heap := by
  induction h with
  | refl =>
    refine ⟨.refl, ?_⟩
    intro t ht
    exact absurd ht (by simp [initial, TerrainTileSelection.initial])
  | tail _ hstep ih =>
    obtain ⟨a, ha, rfl⟩ := hstep
    obtain ⟨hreach, hparents⟩ := ih
    have hinv := inv_of_reachable hreach
    exact ⟨hreach.tail (step_of_computed hinv hparents ha), act_parents hinv hparents a⟩

/-- **The world is a function of the address.** Whatever was requested, built, evicted, saved and
read again, in whatever order: the terrain tiles that are ready, the chunks in the database and the
voxel tiles that are loaded hold what `worldHeights` says, at every level but the topmost. -/
theorem run_holds_world {w : World F} (h : Run sh w) :
    (∀ t ∈ w.terrain.heap, 1 ≤ t.l.l → t.dataready = true →
      worldHeights sh t.l = some t.heightData) ∧
    (∀ (l : ChunkLoc) (val : Bytes), 1 ≤ l.l → w.level.getTerrainChunk l.toLoc = some val →
      (worldHeights sh l.toLoc).map heightBytes = some val) ∧
    ∀ o ∈ w.octs, 1 ≤ o.l.l → 3 ≤ o.readyState → chunk (heights sh) o.l = some o.rledata := by
  have hinv := inv_of_reachable h.reachable.1
  refine ⟨?_, ?_, ?_⟩
  · intro t ht hl hready
    rw [worldHeights_eq, (hinv.shared.tiles t ht).heights hl (.inl hready)]
  · intro l val hl hget
    rw [worldHeights_eq, Option.map_some, hinv.shared.store.terrain l val hl hget]
  · intro o ho hl hloaded
    exact (hinv.octs o ho).loaded hl hloaded

/-! ### A run

The assumption can be met in any state: `render` runs the shaders on the textures that are there. In
the run the terrain of level 4 is built, with the levels above it, and stored; the program is
restarted, and a tile of level 5 is requested. Its parent is read from the database, and its heights
are made from the texture that `GetTerrain` fills from the chunk. The noise and the filter are the
program's own, over whole numbers. -/

/-- What the GPU computes. -/
def render (sh : Shading F) (heap : List (TerrainTile F)) (p : Nat) (l : Loc) : List F :=
  let parent := (heap[p]?.bind (·.parent)).bind (heap[·]?)
  (generate sh (fun _ => Erosion.zeroTexel) l (parent.map (textureOf ·.heightData))).getD []

theorem computes_render {heap : List (TerrainTile F)} (h : HeapOk heap) (sh : Shading F)
    (frameIdx : Int) (readTexture : Nat → Int) :
    Computes sh heap ⟨frameIdx, readTexture, render sh heap⟩ := by
  intro p t ht _
  refine ⟨fun _ => Erosion.zeroTexel, ((t.parent.bind (heap[·]?)).map (textureOf ·.heightData)),
    ?_, ?_⟩
  · cases hparent : t.parent with
    | none => exact .none hparent
    | some q =>
      obtain ⟨-, u, hu, -⟩ := (h p t ht).parent q hparent
      rw [Option.bind_some, hu]
      exact .filled q u hparent hu
  · obtain ⟨hs, hgen, -⟩ := TerrainTile.exists_generate sh (fun _ => Erosion.zeroTexel) t.l
      ((t.parent.bind (heap[·]?)).map (textureOf ·.heightData))
    simp only [render, ht, Option.bind_some, hgen, Option.getD_some]

/-- A whole number is its own floor. -/
instance instFloatFloorInt32 : FloatFloor Int32 := ⟨id⟩

def whole : Shading Int32 := TerrainTile.linearShading Noise.snoise 1

def frame (w : World Int32) (n : Int) : World Int32 :=
  w.act (.update ⟨⟨n, fun _ => 0, render whole w.terrain.heap⟩, w.terrain.tiles.keys,
    w.terrain.buildingTiles⟩)

def frames (n : Nat) (w : World Int32) : World Int32 :=
  (List.range n).foldl (fun w i => frame w i) w

theorem run_frame {w : World Int32} (h : Run whole w) (n : Int) : Run whole (frame w n) := by
  have hreach := h.reachable.1
  refine h.tail ⟨.update _, ⟨?_, ?_⟩, rfl⟩
  · exact TerrainTileSelection.orders_of_perm (terrain_of_reachable hreach) _ (.refl _)
  · exact computes_render (inv_of_reachable hreach).shared.inv.heap whole n _

theorem run_frames {w : World Int32} (h : Run whole w) (n : Nat) : Run whole (frames n w) :=
  List.foldlRecOn (motive := Run whole) _ _ h fun _ hw i _ => run_frame hw i

def upper : ChunkLoc := ⟨⟨0, 0, 0, 4⟩, by decide, by decide⟩

/-- A cell below it. It is the first level at which the parent is copied. -/
def lower : ChunkLoc := ⟨⟨1, 0, 1, 5⟩, by decide, by decide⟩

/-- The upper cell is built. After a restart the lower one is requested, and its parent is read from
the database. -/
def rendered : World Int32 :=
  frames 3 (((frames 12 (initial.act (.request upper))).act .restart).act (.request lower))

theorem run_rendered : Run whole rendered := by
  have hbuilt : Run whole (frames 12 (initial.act (.request upper))) :=
    run_frames (Relation.ReflTransGen.refl.tail ⟨.request upper, trivial, rfl⟩) 12
  exact run_frames ((hbuilt.tail ⟨.restart, trivial, rfl⟩).tail ⟨.request lower, trivial, rfl⟩) 3

/-- The two tiles are ready, though none of the levels above is there. -/
theorem rendered_ready : rendered.terrain.heap.map (fun t => (t.l, t.dataready))
      = [(upper.toLoc, true), (lower.toLoc, true)] ∧
    (rendered.level.getTerrainChunk lower.toLoc).isSome = true := by
  decide +kernel

theorem run_holds_world_rendered :
    rendered.terrain.heap.map (fun t => (t.l, t.dataready))
      = [(upper.toLoc, true), (lower.toLoc, true)] ∧
    (∀ t ∈ rendered.terrain.heap, worldHeights whole t.l = some t.heightData) ∧
    ∃ val, rendered.level.getTerrainChunk lower.toLoc = some val ∧
      (worldHeights whole lower.toLoc).map heightBytes = some val := by
  obtain ⟨hheap, hstored⟩ := rendered_ready
  obtain ⟨htiles, hchunks, -⟩ := run_holds_world run_rendered
  refine ⟨hheap, ?_, ?_⟩
  · intro t ht
    have hmem := List.mem_map_of_mem (f := fun t => (t.l, t.dataready)) ht
    rw [hheap, List.mem_pair] at hmem
    rcases hmem with heq | heq
    · obtain ⟨hl, hready⟩ := Prod.mk.inj heq
      exact htiles t ht (by rw [hl]; decide) hready
    · obtain ⟨hl, hready⟩ := Prod.mk.inj heq
      exact htiles t ht (by rw [hl]; decide) hready
  · obtain ⟨val, hget⟩ := Option.isSome_iff_exists.mp hstored
    exact ⟨val, hget, hchunks lower val (by decide) hget⟩

end World

end MapBg
