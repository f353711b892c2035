import MapBg.Oct.LoadVB
import MapBg.Terrain.Selection

/-!
# `OctTile`: loading a chunk of voxels, or making it from the terrain

`BackgroundLoad` moves a tile through `m_readyState`. From 0 it looks the chunk up in the
database: if it is there the tile holds it and is done (3). If not (1) it needs the terrain tile
of its column, and asks for it at every call until it gets one (2); then it voxelises the heights
that fall into its box, writes the chunk and is done (3). `Decomission` resets the state to 0.

The three `if`s of the source are the three stages below, each run on the state the one before it
leaves. A stage may not come back: `LoadVB` runs forever on some chunks, and a short array of
heights would be read past its end. `Loading.stop` records that, and the later stages then do
nothing; the state at that point stays visible, since everybody else goes on.
-/

set_option autoImplicit false

namespace MapBg

/-- The class `OctTile`, with the members that loading and selecting use. `terrainTile` is a pointer
into the heap of the terrain tiles, `voxelinst` is what is drawn, and `distance` is what
`GetLocDistance` returned for the cell in the last frame. -/
structure OctTile (F : Type) where
  l : Loc
  readyState : Int
  terrainTile : Option Nat
  rledata : Bytes
  voxelinst : Option (List Vec3i)
  isdecommissioned : Bool
  distance : Option (LocDistance F)
  deriving DecidableEq

/-- The state of a call of `BackgroundLoad`: the tile, and what it shares with all others. -/
structure Loading (F : Type) where
  tile : OctTile F
  level : Level
  terrain : TerrainTileSelection F
  stop : Option Stop

namespace OctTile

variable {F : Type}

def create (l : Loc) : OctTile F where
  l
  readyState := 0
  terrainTile := none
  rledata := []
  voxelinst := none
  isdecommissioned := false
  distance := none

/-- `Decomission`. The tile may be loaded again after it, from the start. -/
def decomission (o : OctTile F) : OctTile F := { o with readyState := 0, isdecommissioned := true }

/-- `LoadVB`. Without any point there is no vertex buffer. -/
def loadVB (fuel : Nat) (o : OctTile F) : OctTile F × Option Stop :=
  match loadVBPts fuel o.rledata with
  | .ok octPts => (if octPts.length > 0 then { o with voxelinst := some octPts } else o, none)
  | .error stop => (o, some stop)

/-! ## `LoadTerrainData`

The inner loop visits the columns of the cell, row by row. -/

section Terrain

variable [FloatLike F]

/-- `OverlapPtsCt`: so many samples of the terrain lie outside the cell on every side. -/
def overlapPtsCt : Nat := squarePtsCt / 4

/-- `TotalPtsCt`: the width of the height field. -/
def totalPtsCt : Nat := squarePtsCt + overlapPtsCt * 2

/-- The columns of the cell, in the order in which the loops visit them. -/
def columns : List (Nat × Nat) :=
  (List.range squarePtsCt).flatMap fun z => (List.range squarePtsCt).map fun x => (z, x)

/-- One turn of the two loops: a height that is inside the box sets one voxel. -/
def voxelColumn (bboxoct : AABox F) (tpts : List F) (data : List UInt8) (zx : Nat × Nat) :
    Except Stop (List UInt8) :=
  let minY := bboxoct.min.y
  let maxY := bboxoct.max.y
  let ext := FloatLike.ofInt squarePtsCt / (maxY - minY)
  let (z, x) := zx
  match tpts[(z + overlapPtsCt) * totalPtsCt + (x + overlapPtsCt)]? with
  | none => .error .readPastEnd
  | some h =>
    if FloatLike.lt minY h && FloatLike.lt h maxY then
      let y : Int := max 0 (min ((squarePtsCt : Int) - 1) (FloatLike.toInt ((h - minY) * ext)))
      .ok (data.set (y.toNat * squarePtsCt * squarePtsCt + z * squarePtsCt + x) 1)
    else .ok data

def voxelData (bboxoct : AABox F) (tpts : List F) : Except Stop (List UInt8) :=
  columns.foldlM (voxelColumn bboxoct tpts) (List.replicate cellCt 0)

/-- What `LoadTerrainData` assigns to `m_rledata`, if it does. -/
def terrainRle (l : Loc) (bboxterrain : AABox F) (tpts : List F) : Except Stop (Option Bytes) :=
  let bboxoct : AABox F := l.getBBox
  if !intersect bboxterrain bboxoct then .ok none
  else do
    let data ← voxelData bboxoct tpts
    let rledata ← rleEncode data
    return some rledata

/-- `LoadTerrainData`. If the boxes do not meet it returns early, and the tile keeps what it holds.
-/
def loadTerrainData (t : TerrainTile F) (o : OctTile F) : OctTile F × Option Stop :=
  match terrainRle o.l t.heightBbox t.heightData with
  | .ok none => (o, none)
  | .ok (some rledata) => ({ o with rledata }, none)
  | .error stop => (o, some stop)

end Terrain

/-! ## `BackgroundLoad` -/

section Load

variable [FloatRep F]

/-- State 0: look for the chunk in the database. -/
def readChunk (fuel : Nat) (r : Loading F) : Loading F :=
  if r.tile.readyState = 0 then
    let tile := { r.tile with readyState := 1 }
    match r.level.getOctChunk tile.l with
    | some strval =>
      match loadVB fuel { tile with rledata := strval } with
      | (tile, none) => { r with tile := { tile with readyState := 3 } }
      | (tile, some stop) => { r with tile, stop := some stop }
    | none => { r with tile }
  else r

/-- State 1: ask for the terrain of the column, until it is there. -/
def findTerrain (r : Loading F) : Loading F :=
  if r.tile.readyState = 1 then
    match r.tile.terrainTile with
    | some _ => { r with tile := { r.tile with readyState := 2 } }
    | none =>
      match TerrainTileSelection.requestTile r.level r.tile.l r.terrain with
      | (some p, terrain) =>
        { r with tile := { r.tile with terrainTile := some p, readyState := 2 }, terrain }
      | (none, terrain) => { r with terrain }
  else r

/-- State 2: make the chunk from the terrain, and write it. It is written before `LoadVB` is called,
so a chunk that `LoadVB` does not return from is in the database. -/
def makeChunk (fuel : Nat) (r : Loading F) : Loading F :=
  if r.tile.readyState = 2 then
    match r.tile.terrainTile.bind (r.terrain.heap[·]?) with
    | none => { r with stop := some .readPastEnd }
    | some t =>
      match loadTerrainData t r.tile with
      | (tile, some stop) => { r with tile, stop := some stop }
      | (tile, none) =>
        let level := r.level.writeOctChunk tile.l tile.rledata
        match loadVB fuel tile with
        | (tile, none) => { r with tile := { tile with readyState := 3 }, level }
        | (tile, some stop) => { r with tile, level, stop := some stop }
  else r

/-- The next stage, unless the last one has not come back. -/
def andThen (stage : Loading F → Loading F) (r : Loading F) : Loading F :=
  if r.stop.isNone then stage r else r

/-- `OctTile::BackgroundLoad`. -/
def backgroundLoad (fuel : Nat) (level : Level) (terrain : TerrainTileSelection F)
    (o : OctTile F) : Loading F :=
  andThen (makeChunk fuel) (andThen findTerrain (readChunk fuel ⟨o, level, terrain, none⟩))

end Load

/-! ## What a stage can do

`LoadStep` lists it once, and `backgroundLoad_steps` takes a call apart into at most three such
steps; what holds of every step then holds of the call. -/

/-- One constructor for each way through a stage; the names that end in `Stuck` are the ones that do
not come back. -/
inductive LoadStep [FloatRep F] : Loading F → Loading F → Prop
  | missing (r : Loading F) : r.tile.readyState = 0 → r.level.getOctChunk r.tile.l = none →
      LoadStep r { r with tile := { r.tile with readyState := 1 } }
  | read (r : Loading F) (rledata : Bytes) (voxelinst : Option (List Vec3i)) :
      r.tile.readyState = 0 → r.level.getOctChunk r.tile.l = some rledata →
      LoadStep r { r with tile := { r.tile with rledata, voxelinst, readyState := 3 } }
  -- the state is set to 1 before `LoadVB` is called, which does not return
  | readStuck (r : Loading F) (rledata : Bytes) (voxelinst : Option (List Vec3i)) (stop : Stop) :
      r.tile.readyState = 0 → r.level.getOctChunk r.tile.l = some rledata →
      LoadStep r { r with
        tile := { r.tile with rledata, voxelinst, readyState := 1 }, stop := some stop }
  | known (r : Loading F) (p : Nat) : r.tile.readyState = 1 → r.tile.terrainTile = some p →
      LoadStep r { r with tile := { r.tile with readyState := 2 } }
  | found (r : Loading F) (p : Nat) (terrain : TerrainTileSelection F) :
      r.tile.readyState = 1 → r.tile.terrainTile = none →
      TerrainTileSelection.requestTile r.level r.tile.l r.terrain = (some p, terrain) →
      LoadStep r { r with tile := { r.tile with terrainTile := some p, readyState := 2 }, terrain }
  -- the tile is tried again in a later call
  | pending (r : Loading F) (terrain : TerrainTileSelection F) :
      r.tile.readyState = 1 → r.tile.terrainTile = none →
      TerrainTileSelection.requestTile r.level r.tile.l r.terrain = (none, terrain) →
      LoadStep r { r with terrain }
  | makeStuck (r : Loading F) (stop : Stop) : r.tile.readyState = 2 →
      LoadStep r { r with stop := some stop }
  | made (r : Loading F) (t : TerrainTile F) (data : Option Bytes)
      (voxelinst : Option (List Vec3i)) : r.tile.readyState = 2 →
      r.tile.terrainTile.bind (r.terrain.heap[·]?) = some t →
      terrainRle r.tile.l t.heightBbox t.heightData = .ok data →
      LoadStep r { r with
        tile := { r.tile with rledata := data.getD r.tile.rledata, voxelinst, readyState := 3 }
        level := r.level.writeOctChunk r.tile.l (data.getD r.tile.rledata) }
  | madeStuck (r : Loading F) (t : TerrainTile F) (data : Option Bytes)
      (voxelinst : Option (List Vec3i)) (stop : Stop) : r.tile.readyState = 2 →
      r.tile.terrainTile.bind (r.terrain.heap[·]?) = some t →
      terrainRle r.tile.l t.heightBbox t.heightData = .ok data →
      LoadStep r { r with
        tile := { r.tile with rledata := data.getD r.tile.rledata, voxelinst }
        level := r.level.writeOctChunk r.tile.l (data.getD r.tile.rledata)
        stop := some stop }

theorem loadVB_eq (fuel : Nat) (o : OctTile F) :
    ∃ voxelinst, (loadVB fuel o).1 = { o with voxelinst } := by
  unfold loadVB
  cases loadVBPts fuel o.rledata with
  | error stop => exact ⟨o.voxelinst, rfl⟩
  | ok octPts =>
    simp only
    split
    · exact ⟨some octPts, rfl⟩
    · exact ⟨o.voxelinst, rfl⟩

theorem loadTerrainData_ok [FloatLike F] {t : TerrainTile F} {o : OctTile F}
    {data : Option Bytes} (h : terrainRle o.l t.heightBbox t.heightData = .ok data) :
    loadTerrainData t o = ({ o with rledata := data.getD o.rledata }, none) := by
  unfold loadTerrainData
  rw [h]
  cases data <;> rfl

theorem loadTerrainData_error [FloatLike F] {t : TerrainTile F} {o : OctTile F} {stop : Stop}
    (h : terrainRle o.l t.heightBbox t.heightData = .error stop) :
    loadTerrainData t o = (o, some stop) := by
  unfold loadTerrainData
  rw [h]

section Encodes

variable [FloatLike F]

theorem voxelColumn_length {bboxoct : AABox F} {tpts : List F} {data data' : List UInt8}
    {zx : Nat × Nat} (h : voxelColumn bboxoct tpts data zx = .ok data') :
    data'.length = data.length := by
  unfold voxelColumn at h
  simp only at h
  split at h
  · exact absurd h (by simp)
  · split at h
    · cases h
      exact List.length_set
    · cases h
      rfl

theorem foldlM_voxelColumn_length {bboxoct : AABox F} {tpts : List F} {cs : List (Nat × Nat)}
    {data data' : List UInt8} (h : cs.foldlM (voxelColumn bboxoct tpts) data = .ok data') :
    data'.length = data.length := by
  induction cs generalizing data with
  | nil =>
    cases h
    rfl
  | cons c cs ih =>
    rw [List.foldlM_cons] at h
    cases hone : voxelColumn bboxoct tpts data c with
    | error stop =>
      rw [hone] at h
      exact absurd h (by simp [bind, Except.bind])
    | ok one =>
      rw [hone] at h
      exact (ih h).trans (voxelColumn_length hone)

/-- What it assigns is the encoding of a cube. -/
theorem terrainRle_encodes {l : Loc} {bboxterrain : AABox F} {tpts : List F} {rledata : Bytes}
    (h : terrainRle l bboxterrain tpts = .ok (some rledata)) :
    ∃ data, data.length = cellCt ∧ rleEncode data = .ok rledata := by
  unfold terrainRle at h
  simp only at h
  split at h
  -- the boxes are apart
  · exact absurd h (by simp)
  · cases hdata : voxelData l.getBBox tpts with
    | error stop =>
      rw [hdata] at h
      exact absurd h (by simp [bind, Except.bind])
    | ok data =>
      rw [hdata] at h
      have hlen : data.length = cellCt :=
        (foldlM_voxelColumn_length hdata).trans List.length_replicate
      have hrle := rleEncode_eq (ne_nil_of_length_cellCt hlen)
      have hsome : (rleEncode data >>= fun rledata => pure (some rledata)) = .ok (some rledata) := h
      rw [hrle] at hsome
      cases hsome
      exact ⟨data, hlen, hrle⟩

end Encodes

section Load

variable [FloatRep F]

theorem readChunk_step (fuel : Nat) (r : Loading F) :
    Relation.ReflGen LoadStep r (readChunk fuel r) := by
  unfold readChunk
  split
  · rename_i hstate
    simp only
    cases hchunk : r.level.getOctChunk r.tile.l with
    | none => exact .single (.missing r hstate hchunk)
    | some rledata =>
      simp only
      obtain ⟨voxelinst, hvb⟩ := loadVB_eq fuel { r.tile with readyState := 1, rledata }
      generalize loadVB fuel { r.tile with readyState := 1, rledata } = result at hvb
      obtain ⟨tile, stop⟩ := result
      obtain rfl : tile = _ := hvb
      -- `LoadVB` may not come to an end on what was read
      cases stop with
      | none => exact .single (.read r rledata voxelinst hstate hchunk)
      | some stop => exact .single (.readStuck r rledata voxelinst stop hstate hchunk)
  · exact .refl

theorem findTerrain_step (r : Loading F) : Relation.ReflGen LoadStep r (findTerrain r) := by
  unfold findTerrain
  split
  · rename_i hstate
    cases hknown : r.tile.terrainTile with
    | some p => exact .single (.known r p hstate hknown)
    | none =>
      simp only
      split
      · rename_i p terrain hreq
        have hstep := LoadStep.found r p terrain hstate hknown hreq
        exact .single hstep
      · rename_i terrain hreq
        have hstep := LoadStep.pending r terrain hstate hknown hreq
        exact .single hstep
  · exact .refl

theorem makeChunk_step (fuel : Nat) (r : Loading F) :
    Relation.ReflGen LoadStep r (makeChunk fuel r) := by
  unfold makeChunk
  split
  · rename_i hstate
    cases ht : r.tile.terrainTile.bind (r.terrain.heap[·]?) with
    -- a pointer to no tile
    | none => exact .single (.makeStuck r _ hstate)
    | some t =>
      simp only
      cases hrle : terrainRle r.tile.l t.heightBbox t.heightData with
      | error stop =>
        rw [loadTerrainData_error hrle]
        exact .single (.makeStuck r stop hstate)
      | ok data =>
        rw [loadTerrainData_ok hrle]
        simp only
        obtain ⟨voxelinst, hvb⟩ :=
          loadVB_eq fuel { r.tile with rledata := data.getD r.tile.rledata }
        generalize loadVB fuel { r.tile with rledata := data.getD r.tile.rledata } = result at hvb
        obtain ⟨tile, stop⟩ := result
        obtain rfl : tile = _ := hvb
        cases stop with
        | none => exact .single (.made r t data voxelinst hstate ht hrle)
        | some stop => exact .single (.madeStuck r t data voxelinst stop hstate ht hrle)
  · exact .refl

theorem andThen_step {stage : Loading F → Loading F}
    (hstage : ∀ r, Relation.ReflGen LoadStep r (stage r)) (r : Loading F) :
    Relation.ReflGen LoadStep r (andThen stage r) := by
  unfold andThen
  split
  · exact hstage r
  · exact .refl

/-- Each stage is at most one step, so a call is at most three. -/
theorem backgroundLoad_steps (fuel : Nat) (level : Level) (terrain : TerrainTileSelection F)
    (o : OctTile F) : Relation.ReflTransGen LoadStep ⟨o, level, terrain, none⟩
      (backgroundLoad fuel level terrain o) :=
  ((readChunk_step fuel _).to_reflTransGen.trans
    (andThen_step findTerrain_step _).to_reflTransGen).trans
    (andThen_step (makeChunk_step fuel) _).to_reflTransGen

/-- All a call does to the terrain is to request the tile of the column. -/
theorem backgroundLoad_terrain {P : TerrainTileSelection F → Prop}
    (hrequest : ∀ level loc s, P s → P (TerrainTileSelection.requestTile level loc s).2)
    (fuel : Nat) (level : Level) {terrain : TerrainTileSelection F} (h : P terrain)
    (o : OctTile F) : P (backgroundLoad fuel level terrain o).terrain := by
  have hsteps := backgroundLoad_steps fuel level terrain o
  generalize backgroundLoad fuel level terrain o = r at hsteps
  induction hsteps with
  | refl => exact h
  | @tail r r' _ hstep ih =>
    have hnext := hrequest r.level r.tile.l r.terrain ih
    -- of the steps only those that request terrain touch it
    cases hstep with
    | found _ _ _ _ hreq =>
      rw [hreq] at hnext
      exact hnext
    | pending _ _ _ hreq =>
      rw [hreq] at hnext
      exact hnext
    | _ => exact ih

/-! ### Two calls that go through

A tile that has no chunk in the database is made from its terrain in the first call that finds the
terrain there; from then on the chunk is read. -/

section Through

variable {fuel : Nat} {level : Level} {rledata : Bytes} {octPts : List Vec3i}

theorem backgroundLoad_made {terrain s : TerrainTileSelection F} {o : OctTile F} {p : Nat}
    {t : TerrainTile F} (hstate : o.readyState = 1) (hnone : o.terrainTile = none)
    (hrequest : TerrainTileSelection.requestTile level o.l terrain = (some p, s))
    (ht : s.heap[p]? = some t)
    (hrle : terrainRle o.l t.heightBbox t.heightData = .ok (some rledata))
    (hvb : loadVBPts fuel rledata = .ok octPts) :
    (backgroundLoad fuel level terrain o).level = level.writeOctChunk o.l rledata := by
  simp [backgroundLoad, readChunk, hstate, andThen, findTerrain, hnone, hrequest, makeChunk, ht,
    loadTerrainData, hrle, loadVB, hvb]

theorem backgroundLoad_read (terrain : TerrainTileSelection F) {l : Loc}
    (hget : level.getOctChunk l = some rledata) (hvb : loadVBPts fuel rledata = .ok octPts) :
    ∃ voxelinst, backgroundLoad fuel level terrain (create l)
      = ⟨{ create l with rledata, voxelinst, readyState := 3 }, level, terrain, none⟩ := by
  have hread : ∃ voxelinst, readChunk fuel ⟨create l, level, terrain, none⟩
      = ⟨{ create l with rledata, voxelinst, readyState := 3 }, level, terrain, none⟩ := by
    simp only [readChunk, create, hget, loadVB, hvb, if_true]
    split
    · exact ⟨_, rfl⟩
    · exact ⟨none, rfl⟩
  obtain ⟨voxelinst, hread⟩ := hread
  refine ⟨voxelinst, ?_⟩
  -- the other two stages are for the states 1 and 2
  rw [backgroundLoad, hread]
  rfl

end Through

end Load

/-! Loading does not touch a tile's address, nor whether it is decommissioned. -/

/-- What loading leaves alone. -/
def Keeps (o o' : OctTile F) : Prop := o'.l = o.l ∧ o'.isdecommissioned = o.isdecommissioned

theorem backgroundLoad_keeps [FloatRep F] (fuel : Nat) (level : Level)
    (terrain : TerrainTileSelection F) (o : OctTile F) :
    Keeps o (backgroundLoad fuel level terrain o).tile := by
  have hsteps := backgroundLoad_steps fuel level terrain o
  generalize backgroundLoad fuel level terrain o = r at hsteps
  induction hsteps with
  | refl => exact ⟨rfl, rfl⟩
  | tail _ hstep ih => cases hstep <;> exact ih

end OctTile

end MapBg
