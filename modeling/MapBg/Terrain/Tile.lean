import MapBg.Level.Store
import MapBg.Lib.Heap
import MapBg.Loc.Box

/-!
# `TerrainTile::Build`: a tile's heights, computed on the GPU over several frames

A terrain tile is created in build step 0. `Build` is called once a frame and returns whether the
data is ready: step 0 dispatches the compute shaders, unless another tile has used up this frame's
budget; step 1 starts the read-back of the texture; step 2, once the frame in which the read-back
is complete has come, takes the box of the heights, lets go of the parent, writes the chunk to the
database and is done (`m_buildStep = -1`). None of this happens while the tile has a parent whose
data is not ready, since finer levels are computed from the parent's texture.

The GPU is the part that is not modelled. What it does to the program is collected in `Gpu`: the
current frame, the frame number `bgfx::readTexture` answers with, and the heights it leaves in the
buffer by that frame. `numGpuCalcs` is the budget counter of the `DrawContext`.

`build_outcome` says what a call can do; all later proofs about builds go through it.
-/

set_option autoImplicit false

namespace MapBg

/-- The class `TerrainTile`. `parent` is a `std::shared_ptr`, here a place in the heap; `buildStep`
is -1 when the tile is done. The textures are not in the model: what is computed in them comes back
through `Gpu`. -/
structure TerrainTile (F : Type) where
  l : Loc
  heightData : List F
  buildFrame : Int
  buildStep : Int
  dataready : Bool
  heightBbox : AABox F
  parent : Option Nat
  lastUsedframeIdx : Int
  deriving DecidableEq

/-- What a frame of `bgfx` contributes: its number, the frame in which a texture that is read back
will have arrived, and what it then contains. -/
structure Gpu (F : Type) where
  frameIdx : Int
  readTexture : Nat → Int
  readback : Nat → Loc → List F

/-- What `Build` works on: all tiles, the database it writes to, and the number of dispatches that
were made in this frame. -/
structure BuildState (F : Type) where
  heap : List (TerrainTile F)
  level : Level
  numGpuCalcs : Int

namespace TerrainTile

variable {F : Type}

section Build

variable [FloatRep F]

/-! ## The two constructors -/

def create (l : Loc) (parent : Option Nat) : TerrainTile F where
  l
  heightData := []
  buildFrame := 0
  buildStep := 0
  dataready := false
  heightBbox :=
    let zero : Point3 F := ⟨FloatLike.ofInt 0, FloatLike.ofInt 0, FloatLike.ofInt 0⟩
    ⟨zero, zero⟩
  parent
  lastUsedframeIdx := 0

/-- The constructor for a tile whose heights are in the database. It is ready at once, and has no
parent. -/
def ofChunk (l : Loc) (val : Bytes) : TerrainTile F where
  l
  heightData := heightsOfBytes val
  buildFrame := 0
  buildStep := -1
  dataready := true
  heightBbox := heightBox l (heightsOfBytes val)
  parent := none
  lastUsedframeIdx := 0

/-! ## `Build` -/

/-- `numErosionIters`: so many passes, and so many dispatches, for each tile. -/
def numErosionIters : Int := 10

/-- `IsDataReady`, through a pointer. -/
def isDataReady (heap : List (TerrainTile F)) (p : Nat) : Bool :=
  match heap[p]? with
  | some t => t.dataready
  | none => false

/-- `parent != nullptr && !parent->IsDataReady()`. -/
def blocked (heap : List (TerrainTile F)) (t : TerrainTile F) : Bool :=
  match t.parent with
  | some q => !isDataReady heap q
  | none => false

/-- Step 0: the shaders are dispatched. -/
def dispatched (g : Gpu F) (t : TerrainTile F) : TerrainTile F :=
  { t with buildStep := 1, buildFrame := g.frameIdx + 1 }

/-- Step 1: the texture is requested. The heights are in place when the frame has come that
`bgfx::readTexture` names; nothing looks at them before. -/
def readBack (g : Gpu F) (p : Nat) (t : TerrainTile F) : TerrainTile F :=
  { t with heightData := g.readback p t.l, buildFrame := g.readTexture p, buildStep := 2 }

/-- Step 2: the heights have arrived, the box is computed from them, and the tile lets go of its
parent. -/
def finished (t : TerrainTile F) : TerrainTile F :=
  { t with
    heightBbox := heightBox t.l t.heightData
    parent := none
    dataready := true
    buildStep := -1 }

/-- `TerrainTile::Build`, which is called once a frame for every tile that is not ready. It does one
step, if the frame for it has come. Step 0 waits until no other tile has dispatched anything in this
frame, and nothing is done while there is a parent that is not ready. -/
def build (g : Gpu F) (p : Nat) (c : BuildState F) : Bool × BuildState F :=
  match c.heap[p]? with
  | none => (false, c)
  | some t =>
    if blocked c.heap t then (false, c)
    else if t.buildStep = 0 then
      -- one tile a frame
      if c.numGpuCalcs = 0 then
        (t.dataready, { c with
          heap := c.heap.set p (t.dispatched g)
          numGpuCalcs := c.numGpuCalcs + numErosionIters })
      else (t.dataready, c)
    else if t.buildStep = 1 ∧ g.frameIdx ≥ t.buildFrame then
      (t.dataready, { c with heap := c.heap.set p (t.readBack g p) })
    else if t.buildStep = 2 ∧ g.frameIdx ≥ t.buildFrame then
      -- written once, when the heights have come
      (true, { c with
        heap := c.heap.set p t.finished
        level := c.level.writeTerrainChunk t.l (heightBytes t.heightData) })
    else (t.dataready, c)

/-- What a call can do, one constructor for each way through the code. All that is proved about
`Build` is proved by cases on this. -/
inductive Outcome (g : Gpu F) (p : Nat) (c : BuildState F) (t : TerrainTile F) :
    Bool × BuildState F → Prop
  | blocked : blocked c.heap t = true → Outcome g p c t (false, c)
  | idle : Outcome g p c t (t.dataready, c)
  | dispatched : blocked c.heap t = false → t.buildStep = 0 → c.numGpuCalcs = 0 →
      Outcome g p c t (t.dataready, { c with
        heap := c.heap.set p (t.dispatched g)
        numGpuCalcs := c.numGpuCalcs + numErosionIters })
  | readBack : blocked c.heap t = false → t.buildStep = 1 →
      Outcome g p c t (t.dataready, { c with heap := c.heap.set p (t.readBack g p) })
  | finished : blocked c.heap t = false → t.buildStep = 2 →
      Outcome g p c t (true, { c with
        heap := c.heap.set p t.finished
        level := c.level.writeTerrainChunk t.l (heightBytes t.heightData) })

/-- The one place where the code of `Build` is taken apart. -/
theorem build_outcome (g : Gpu F) {p : Nat} {c : BuildState F} {t : TerrainTile F}
    (hp : c.heap[p]? = some t) : Outcome g p c t (build g p c) := by
  unfold build
  rw [hp]
  simp only
  split
  · exact .blocked ‹_›
  · have hfree : TerrainTile.blocked c.heap t = false := by simpa using ‹¬ _ = true›
    split
    · split
      · exact .dispatched hfree ‹_› ‹_›
      · exact .idle
    · split
      · rename_i h
        exact .readBack hfree h.1
      · split
        · rename_i h
          exact .finished hfree h.1
        · exact .idle

end Build

/-! ## What holds of every tile

A tile whose data is ready does not change any more. So a heap of tiles evolves by `Keeps`, and
along it a tile that is not blocked stays unblocked. -/

/-- What a call leaves alone: the address of a tile, and everything about one that is ready. -/
def Keeps (t t' : TerrainTile F) : Prop := t'.l = t.l ∧ (t.dataready = true → t' = t)

instance : Std.Refl (Keeps (F := F)) := ⟨fun _ => ⟨rfl, fun _ => rfl⟩⟩

instance : IsTrans (TerrainTile F) Keeps where
  trans t t' t'' h h' := by
    refine ⟨h'.1.trans h.1, fun hr => ?_⟩
    have heq := h.2 hr
    rw [← heq] at hr ⊢
    exact h'.2 hr

theorem isDataReady_iff {heap : List (TerrainTile F)} {p : Nat} :
    isDataReady heap p = true ↔ ∃ t, heap[p]? = some t ∧ t.dataready = true := by
  unfold isDataReady
  cases heap[p]? <;> simp

theorem blocked_eq_false_iff {heap : List (TerrainTile F)} {t : TerrainTile F} :
    blocked heap t = false ↔ ∀ q, t.parent = some q → isDataReady heap q = true := by
  unfold blocked
  cases t.parent <;> simp

/-- A parent that is ready stays ready. -/
theorem blocked_evolves {heap heap' : List (TerrainTile F)} {t : TerrainTile F}
    (he : Heap.Evolves Keeps heap heap') (h : blocked heap t = false) :
    blocked heap' t = false := by
  rw [blocked_eq_false_iff] at h ⊢
  intro q hq
  obtain ⟨u, hu, hr⟩ := isDataReady_iff.mp (h q hq)
  obtain ⟨u', hu', -, hsame⟩ := he q u hu
  rw [hsame hr] at hu'
  exact isDataReady_iff.mpr ⟨u, hu', hr⟩

/-- What is known of a tile in the heap. The parent was there before it and is one level up, so that
going from parent to parent ends; and a tile that is past its first step had a parent that was
ready. -/
structure Ok (heap : List (TerrainTile F)) (p : Nat) (t : TerrainTile F) : Prop where
  ready_iff : t.dataready = true ↔ t.buildStep = -1
  orphan : t.dataready = true → t.parent = none
  parent : ∀ q, t.parent = some q → q < p ∧ ∃ u, heap[q]? = some u ∧ u.l.l = t.l.l - 1
  unblocked : t.buildStep = 1 ∨ t.buildStep = 2 → blocked heap t = false

def HeapOk (heap : List (TerrainTile F)) : Prop :=
  ∀ (p : Nat) (t : TerrainTile F), heap[p]? = some t → Ok heap p t

/-- Nothing that happens to other tiles makes a difference. -/
theorem Ok.evolves {heap heap' : List (TerrainTile F)} {p : Nat} {t : TerrainTile F}
    (h : Ok heap p t) (he : Heap.Evolves Keeps heap heap') : Ok heap' p t where
  ready_iff := h.ready_iff
  orphan := h.orphan
  parent q hq := by
    obtain ⟨hlt, u, hu, hl⟩ := h.parent q hq
    obtain ⟨u', hu', hul, -⟩ := he q u hu
    exact ⟨hlt, u', hu', by rw [hul]; exact hl⟩
  unblocked hs := blocked_evolves he (h.unblocked hs)

theorem HeapOk.write {heap : List (TerrainTile F)} {p : Nat} {t t' : TerrainTile F}
    (h : HeapOk heap) (hp : heap[p]? = some t) (hk : Keeps t t') (hok : Ok heap p t') :
    HeapOk (heap.set p t') := by
  have he : Heap.Evolves Keeps heap (heap.set p t') := .write hp hk
  intro q u hq
  rw [Heap.getElem?_write hp] at hq
  split at hq
  · rename_i hqp
    cases hq
    rw [hqp]
    exact hok.evolves he
  · exact (h q u hq).evolves he

theorem HeapOk.alloc {heap : List (TerrainTile F)} {t : TerrainTile F} (h : HeapOk heap)
    (hok : Ok heap heap.length t) : HeapOk (heap ++ [t]) := by
  have he : Heap.Evolves Keeps heap (heap ++ [t]) := .alloc heap t
  intro q u hq
  rcases Heap.getElem?_alloc_iff.mp hq with hq | ⟨rfl, rfl⟩
  · exact (h q u hq).evolves he
  · exact hok.evolves he

section Constructors

variable [FloatRep F]

theorem ok_ofChunk (heap : List (TerrainTile F)) (p : Nat) (l : Loc) (val : Bytes) :
    Ok heap p (ofChunk l val) where
  ready_iff := by simp [ofChunk]
  orphan _ := rfl
  parent q hq := absurd hq (by simp [ofChunk])
  unblocked _ := rfl

/-- A new tile is put behind all others, its parent among them. -/
theorem ok_create {heap : List (TerrainTile F)} {l : Loc} {parent : Option Nat}
    (hparent : ∀ q, parent = some q → ∃ u, heap[q]? = some u ∧ u.l.l = l.l - 1) :
    Ok heap heap.length (create l parent) where
  ready_iff := by simp [create]
  orphan h := absurd h (by simp [create])
  parent q hq := by
    obtain ⟨u, hu, hl⟩ := hparent q hq
    exact ⟨Heap.lt_length hu, u, hu, hl⟩
  unblocked h := absurd h (by simp [create])

end Constructors

/-! ## What a build keeps -/

/-- What a call of `Build` guarantees, whatever it did. -/
structure Built (c : BuildState F) (p : Nat) (result : Bool × BuildState F) : Prop where
  heapOk : HeapOk result.2.heap
  evolves : Heap.Evolves Keeps c.heap result.2.heap
  answer : ∃ t, result.2.heap[p]? = some t ∧ result.1 = t.dataready
  frame : ∀ q, q ≠ p → result.2.heap[q]? = c.heap[q]?

theorem Built.unchanged {c : BuildState F} {p : Nat} {t : TerrainTile F} (h : HeapOk c.heap)
    (hp : c.heap[p]? = some t) : Built c p (t.dataready, c) :=
  ⟨h, .refl _, ⟨t, hp, rfl⟩, fun _ _ => rfl⟩

/-- The three steps are writes to one cell of the heap. -/
theorem Built.written {c c' : BuildState F} {p : Nat} {t t' : TerrainTile F} (h : HeapOk c.heap)
    (hp : c.heap[p]? = some t) (hk : Keeps t t') (hok : Ok c.heap p t')
    (hheap : c'.heap = c.heap.set p t') : Built c p (t'.dataready, c') := by
  refine ⟨?_, ?_, ⟨t', ?_, rfl⟩, fun q hq => ?_⟩
  · show HeapOk c'.heap
    rw [hheap]
    exact h.write hp hk hok
  · show Heap.Evolves Keeps c.heap c'.heap
    rw [hheap]
    exact .write hp hk
  · show c'.heap[p]? = some t'
    rw [hheap, Heap.getElem?_write hp, if_pos rfl]
  · show c'.heap[q]? = c.heap[q]?
    rw [hheap, Heap.getElem?_write hp, if_neg hq]

/-- A tile that is still being built is rewritten, and still is. -/
theorem Built.advanced {c c' : BuildState F} {p : Nat} {t t' : TerrainTile F} (h : HeapOk c.heap)
    (hp : c.heap[p]? = some t) (hfree : blocked c.heap t = false) (hr : t.dataready = false)
    (hstep : t'.buildStep ≠ -1) (hl : t'.l = t.l) (hparent : t'.parent = t.parent)
    (hr' : t'.dataready = t.dataready) (hheap : c'.heap = c.heap.set p t') :
    Built c p (t.dataready, c') := by
  rw [← hr']
  refine .written h hp ⟨hl, fun hready => ?_⟩ ⟨?_, fun hready => ?_, ?_, fun _ => ?_⟩ hheap
  · exact absurd hready (by simp [hr])
  · simp [hr', hr, hstep]
  · exact absurd hready (by simp [hr', hr])
  · rw [hparent, hl]
    exact (h p t hp).parent
  · rw [blocked, hparent]
    exact hfree

theorem built_build [FloatRep F] (g : Gpu F) {c : BuildState F} {p : Nat} {t : TerrainTile F}
    (h : HeapOk c.heap) (hp : c.heap[p]? = some t) : Built c p (build g p c) := by
  have ht := h p t hp
  have hnot : ∀ {n : Int}, t.buildStep = n → n ≠ -1 → t.dataready = false := by
    intro n hn hne
    rw [← Bool.not_eq_true, ht.ready_iff, hn]
    exact hne
  have hout := build_outcome g hp
  generalize build g p c = result at hout ⊢
  cases hout with
  | blocked hb =>
    -- a tile with its data ready has no parent to wait for
    have hready : t.dataready = false := by
      rw [← Bool.not_eq_true]
      intro hr
      rw [TerrainTile.blocked, ht.orphan hr] at hb
      exact absurd hb (by simp)
    rw [← hready]
    exact .unchanged h hp
  | idle => exact .unchanged h hp
  | dispatched hfree hstep _ =>
    have hstep' : (t.dispatched g).buildStep ≠ -1 := by simp [TerrainTile.dispatched]
    exact .advanced h hp hfree (hnot hstep (by decide)) hstep' rfl rfl rfl rfl
  | readBack hfree hstep =>
    have hstep' : (t.readBack g p).buildStep ≠ -1 := by simp [TerrainTile.readBack]
    exact .advanced h hp hfree (hnot hstep (by decide)) hstep' rfl rfl rfl rfl
  | finished hfree hstep =>
    have hr := hnot hstep (by decide)
    refine @Built.written _ _ _ _ t t.finished h hp ⟨rfl, ?_⟩ ⟨?_, ?_, ?_, ?_⟩ rfl
    · intro h'
      exact absurd h' (by simp [hr])
    · simp [TerrainTile.finished]
    · intro _
      rfl
    · intro q hq
      exact absurd hq (by simp [TerrainTile.finished])
    · intro _
      rfl

end TerrainTile

end MapBg
