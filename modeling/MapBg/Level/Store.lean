import Mathlib.Data.List.Infix
import Mathlib.Logic.Function.Basic
import MapBg.Loc.Basic

/-!
# `Level`: three kinds of record in one key space

`Level` keeps terrain chunks, voxel chunks and one camera record in a single leveldb database.
leveldb itself is not modelled: its `Get` and `Put` are those of an exact map from byte strings
to byte strings, and `Put` succeeds. What is modelled is how `Level` forms keys and values.

* A voxel chunk is stored under the sixteen bytes of its `Loc`.
* A terrain chunk is stored under the sixteen bytes of its `Loc` **with the level negated**.
* The camera record is stored under the three bytes `cam`.

What this is for is stated by `Maps`: three independent maps, with the writes of one kind
invisible to the reads of another. The negation is the only thing that keeps terrain and voxel
chunks apart, and at level `0` it does nothing. `reads_iff` says how far `Level` refines `Maps`:
after a sequence of writes every read is right exactly when, at every `Loc` of level `0`, the
last terrain chunk and the last voxel chunk written are the same (or neither was written); and
reads are right all along a sequence exactly when it writes no chunk of level `0` at all.
-/

set_option autoImplicit false

namespace MapBg

/-- `std::string`, as keys and values of the database. -/
abbrev Bytes := List UInt8

/-! ## The camera record

`CamPos` is copied byte for byte, so its model is the object itself: the words of its floats, the
two `bool` bytes and the two bytes of padding the compiler leaves behind them. -/

/-- `CamPos`: what is saved of the cameras. The two bytes of padding are written with the rest and
hold whatever was in the memory. -/
structure CamPos where
  pos : UInt32 × UInt32 × UInt32
  dir : UInt32 × UInt32
  flymode : Bool
  inspect : Bool
  padding : UInt8 × UInt8
  inspectpos : UInt32 × UInt32 × UInt32
  inspectdir : UInt32 × UInt32
  deriving DecidableEq, Repr

namespace CamPos

/-- A `bool` in memory. -/
def boolByte (b : Bool) : UInt8 := if b then 1 else 0

/-- The forty-four bytes of the structure, as `WriteCameraPos` stores them. -/
def bytes (c : CamPos) : Bytes :=
  Word.bytes [c.pos.1, c.pos.2.1, c.pos.2.2, c.dir.1, c.dir.2]
    ++ [boolByte c.flymode, boolByte c.inspect, c.padding.1, c.padding.2]
    ++ Word.bytes [c.inspectpos.1, c.inspectpos.2.1, c.inspectpos.2.2, c.inspectdir.1,
        c.inspectdir.2]

/-- `val.size() == sizeof(CamPos)` and the `memcpy` into the record. -/
def ofBytes (val : Bytes) : Option CamPos :=
  match Word.ofBytes (val.take 20), (val.drop 20).take 4, Word.ofBytes (val.drop 24) with
  | [px, py, pz, dx, dy], [f, i, p₀, p₁], [qx, qy, qz, ex, ey] =>
    if val.length = 44 then
      some ⟨(px, py, pz), (dx, dy), f != 0, i != 0, (p₀, p₁), (qx, qy, qz), (ex, ey)⟩
    else none
  | _, _, _ => none

theorem boolByte_ne_zero (b : Bool) : (boolByte b != 0) = b := by cases b <;> rfl

theorem ofBytes_bytes (c : CamPos) : ofBytes c.bytes = some c := by
  have h₁ : c.bytes.take 20 = Word.bytes [c.pos.1, c.pos.2.1, c.pos.2.2, c.dir.1, c.dir.2] := rfl
  have h₂ : (c.bytes.drop 20).take 4
      = [boolByte c.flymode, boolByte c.inspect, c.padding.1, c.padding.2] := rfl
  have h₃ : c.bytes.drop 24 = Word.bytes [c.inspectpos.1, c.inspectpos.2.1, c.inspectpos.2.2,
      c.inspectdir.1, c.inspectdir.2] := rfl
  have hlen : c.bytes.length = 44 := rfl
  rw [ofBytes, h₁, h₂, h₃, Word.ofBytes_bytes, Word.ofBytes_bytes]
  simp only [hlen, if_true, boolByte_ne_zero]

end CamPos

/-! ## `Level` -/

/-- The class `Level`, which is a database and nothing else: LevelDB, as a function from keys to
values. -/
structure Level where
  db : Bytes → Option Bytes

namespace Level

/-- A database that has just been created. -/
def empty : Level := ⟨fun _ => none⟩

/-- A write, of which the last one for a key counts. -/
def put (s : Level) (key val : Bytes) : Level := ⟨Function.update s.db key (some val)⟩

/-- The key of a terrain chunk: the address, with its level negated. -/
def terrainKey (il : Loc) : Bytes := { il with l := -il.l }.bytes

/-- The key of a voxel chunk: the address as it is. At level 0 the two keys are the same. -/
def octKey (l : Loc) : Bytes := l.bytes

def camKey : Bytes := [0x63, 0x61, 0x6D]

def getTerrainChunk (s : Level) (il : Loc) : Option Bytes := s.db (terrainKey il)

def writeTerrainChunk (s : Level) (il : Loc) (val : Bytes) : Level := s.put (terrainKey il) val

def getOctChunk (s : Level) (l : Loc) : Option Bytes := s.db (octKey l)

def writeOctChunk (s : Level) (l : Loc) (val : Bytes) : Level := s.put (octKey l) val

def writeCameraPos (s : Level) (pos : CamPos) : Level := s.put camKey pos.bytes

def getCameraPos (s : Level) : Option CamPos := (s.db camKey).bind CamPos.ofBytes

theorem db_put (s : Level) (key val key' : Bytes) :
    (s.put key val).db key' = if key' = key then some val else s.db key' :=
  Function.update_apply ..

end Level

/-! ## Keys

A `ChunkLoc` is a `Loc` that a chunk can be stored under: four `int`s, the level not negative. -/

/-- An address a chunk can be stored under: the members fit an `int`, and the level is not negative.
With this the keys of one kind are all different. -/
structure ChunkLoc extends Loc where
  fits : toLoc.Fits
  level_nonneg : 0 ≤ toLoc.l
  deriving DecidableEq

namespace ChunkLoc

theorem ext_loc {a b : ChunkLoc} (h : a.toLoc = b.toLoc) : a = b := by
  cases a
  cases b
  simpa using h

/-- The negated level fits as well, since no level is negative. -/
theorem fits_neg (a : ChunkLoc) : ({ a.toLoc with l := -a.l } : Loc).Fits := by
  obtain ⟨hx, hy, hz, hl⟩ := a.fits
  have hn := a.level_nonneg
  refine ⟨hx, hy, hz, ?_⟩
  unfold Word.Fits at hl ⊢
  simp only
  omega

theorem octKey_inj {a b : ChunkLoc} (h : Level.octKey a.toLoc = Level.octKey b.toLoc) : a = b :=
  ext_loc (Loc.bytes_injOn a.fits b.fits h)

theorem terrainKey_inj {a b : ChunkLoc}
    (h : Level.terrainKey a.toLoc = Level.terrainKey b.toLoc) : a = b := by
  have heq := Loc.bytes_injOn a.fits_neg b.fits_neg h
  apply ext_loc
  cases ha : a.toLoc
  cases hb : b.toLoc
  simp_all

/-- A terrain key is a voxel key only when the negation has no effect. -/
theorem terrainKey_eq_octKey {a b : ChunkLoc}
    (h : Level.terrainKey a.toLoc = Level.octKey b.toLoc) : a = b ∧ a.l = 0 := by
  have heq := Loc.bytes_injOn a.fits_neg b.fits h
  have hlevel : -a.l = b.l := congrArg Loc.l heq
  have ha := a.level_nonneg
  have hb := b.level_nonneg
  have hzero : a.l = 0 := by omega
  refine ⟨ext_loc ?_, hzero⟩
  rw [← heq, hzero, Int.neg_zero, ← hzero]

/-- The one way in which the two kinds of keys meet. -/
theorem octKey_eq_terrainKey {a : ChunkLoc} (h : a.l = 0) :
    Level.octKey a.toLoc = Level.terrainKey a.toLoc := by
  rw [Level.octKey, Level.terrainKey, h, Int.neg_zero, ← h]

/-- It is too short to be an address. -/
theorem camKey_ne_octKey (a : Loc) : Level.camKey ≠ Level.octKey a := by
  intro h
  have hlen := congrArg List.length h
  rw [Level.octKey, Loc.length_bytes] at hlen
  exact absurd hlen (by decide)

theorem camKey_ne_terrainKey (a : Loc) : Level.camKey ≠ Level.terrainKey a :=
  camKey_ne_octKey { a with l := -a.l }

end ChunkLoc

/-! ## One write, one read

The whole behaviour of the store, one equation for each pair of a write and a read. The two
crossed pairs are where level `0` shows. -/

namespace Level

variable (s : Level) (a l : ChunkLoc) (val : Bytes)

/-- What each reader finds after each writer, in nine lemmas. In seven of them the write is seen
only where it should be; the other two are about the keys of level 0. -/
theorem getTerrainChunk_writeTerrainChunk :
    (s.writeTerrainChunk a.toLoc val).getTerrainChunk l.toLoc
      = if l = a then some val else s.getTerrainChunk l.toLoc := by
  have hiff : terrainKey l.toLoc = terrainKey a.toLoc ↔ l = a :=
    ⟨ChunkLoc.terrainKey_inj, fun h => by rw [h]⟩
  simp only [writeTerrainChunk, getTerrainChunk, db_put, hiff]

theorem getOctChunk_writeOctChunk :
    (s.writeOctChunk a.toLoc val).getOctChunk l.toLoc
      = if l = a then some val else s.getOctChunk l.toLoc := by
  have hiff : octKey l.toLoc = octKey a.toLoc ↔ l = a :=
    ⟨ChunkLoc.octKey_inj, fun h => by rw [h]⟩
  simp only [writeOctChunk, getOctChunk, db_put, hiff]

/-- A voxel chunk of level 0 is read as a terrain chunk. -/
theorem getTerrainChunk_writeOctChunk :
    (s.writeOctChunk a.toLoc val).getTerrainChunk l.toLoc
      = if l = a ∧ l.l = 0 then some val else s.getTerrainChunk l.toLoc := by
  have hiff : terrainKey l.toLoc = octKey a.toLoc ↔ l = a ∧ l.l = 0 := by
    refine ⟨ChunkLoc.terrainKey_eq_octKey, ?_⟩
    rintro ⟨rfl, hzero⟩
    exact (ChunkLoc.octKey_eq_terrainKey hzero).symm
  simp only [writeOctChunk, getTerrainChunk, db_put, hiff]

/-- And a terrain chunk of level 0 as a voxel chunk. -/
theorem getOctChunk_writeTerrainChunk :
    (s.writeTerrainChunk a.toLoc val).getOctChunk l.toLoc
      = if l = a ∧ l.l = 0 then some val else s.getOctChunk l.toLoc := by
  have hiff : octKey l.toLoc = terrainKey a.toLoc ↔ l = a ∧ l.l = 0 := by
    constructor
    · intro hk
      obtain ⟨rfl, hzero⟩ := ChunkLoc.terrainKey_eq_octKey hk.symm
      exact ⟨rfl, hzero⟩
    · rintro ⟨rfl, hzero⟩
      exact ChunkLoc.octKey_eq_terrainKey hzero
  simp only [writeTerrainChunk, getOctChunk, db_put, hiff]

theorem getTerrainChunk_writeCameraPos (pos : CamPos) (l : Loc) :
    (s.writeCameraPos pos).getTerrainChunk l = s.getTerrainChunk l := by
  rw [writeCameraPos, getTerrainChunk, db_put, if_neg (ChunkLoc.camKey_ne_terrainKey l).symm]
  rfl

theorem getOctChunk_writeCameraPos (pos : CamPos) (l : Loc) :
    (s.writeCameraPos pos).getOctChunk l = s.getOctChunk l := by
  rw [writeCameraPos, getOctChunk, db_put, if_neg (ChunkLoc.camKey_ne_octKey l).symm]
  rfl

theorem getCameraPos_writeTerrainChunk (a : Loc) :
    (s.writeTerrainChunk a val).getCameraPos = s.getCameraPos := by
  rw [writeTerrainChunk, getCameraPos, db_put, if_neg (ChunkLoc.camKey_ne_terrainKey a)]
  rfl

theorem getCameraPos_writeOctChunk (a : Loc) :
    (s.writeOctChunk a val).getCameraPos = s.getCameraPos := by
  rw [writeOctChunk, getCameraPos, db_put, if_neg (ChunkLoc.camKey_ne_octKey a)]
  rfl

theorem getCameraPos_writeCameraPos (pos : CamPos) :
    (s.writeCameraPos pos).getCameraPos = some pos := by
  rw [writeCameraPos, getCameraPos, db_put, if_pos rfl]
  exact CamPos.ofBytes_bytes pos

end Level

/-! ## Runs of writes, and the three maps they should be -/

/-- The three ways to write to the database. -/
inductive Write where
  | terrainChunk (l : ChunkLoc) (val : Bytes)
  | octChunk (l : ChunkLoc) (val : Bytes)
  | cameraPos (pos : CamPos)

namespace Write

/-- What a write does to the database. -/
def apply (s : Level) : Write → Level
  | .terrainChunk l val => s.writeTerrainChunk l.toLoc val
  | .octChunk l val => s.writeOctChunk l.toLoc val
  | .cameraPos pos => s.writeCameraPos pos

/-- A chunk of level 0, of either kind. -/
def IsLevelZero : Write → Prop
  | .terrainChunk l _ => l.l = 0
  | .octChunk l _ => l.l = 0
  | .cameraPos _ => False

end Write

/-- The database after some writes, from an empty one. -/
def Level.after (ws : List Write) : Level := ws.foldl Write.apply Level.empty

/-- What `Level` is for: the value last written, per kind and `Loc`. -/
structure Maps where
  terrain : ChunkLoc → Option Bytes
  oct : ChunkLoc → Option Bytes
  cam : Option CamPos

namespace Maps

/-- Nothing has been written. -/
def empty : Maps := ⟨fun _ => none, fun _ => none, none⟩

/-- What it should do: change the map it is for. -/
def apply (m : Maps) : Write → Maps
  | .terrainChunk l val => { m with terrain := Function.update m.terrain l (some val) }
  | .octChunk l val => { m with oct := Function.update m.oct l (some val) }
  | .cameraPos pos => { m with cam := some pos }

/-- What the three kinds of data should be after some writes, each kind in a map of its own. -/
def after (ws : List Write) : Maps := ws.foldl apply empty

end Maps

/-- Every read of `s` answers what the maps hold. -/
structure Reads (s : Level) (m : Maps) : Prop where
  terrain : ∀ l : ChunkLoc, s.getTerrainChunk l.toLoc = m.terrain l
  oct : ∀ l : ChunkLoc, s.getOctChunk l.toLoc = m.oct l
  cam : s.getCameraPos = m.cam

/-- What holds after every sequence: above level `0` the reads are right, and at level `0` the
one slot that both kinds share holds what one of the two maps does. -/
structure Tracks (s : Level) (m : Maps) : Prop where
  terrain : ∀ l : ChunkLoc, l.l ≠ 0 → s.getTerrainChunk l.toLoc = m.terrain l
  oct : ∀ l : ChunkLoc, l.l ≠ 0 → s.getOctChunk l.toLoc = m.oct l
  shared : ∀ l : ChunkLoc, l.l = 0 →
    s.getOctChunk l.toLoc = m.terrain l ∨ s.getOctChunk l.toLoc = m.oct l
  cam : s.getCameraPos = m.cam

theorem Tracks.apply {s : Level} {m : Maps} (h : Tracks s m) (w : Write) :
    Tracks (w.apply s) (m.apply w) := by
  cases w with
  | terrainChunk a val =>
    refine ⟨fun l hl => ?_, fun l hl => ?_, fun l hl => ?_, ?_⟩
    · simp only [Write.apply, Maps.apply, Level.getTerrainChunk_writeTerrainChunk,
        Function.update_apply, h.terrain l hl]
    · simp only [Write.apply, Maps.apply, Level.getOctChunk_writeTerrainChunk, hl, and_false,
        if_false, h.oct l hl]
    · -- the slot holds the new terrain chunk, or it is another slot
      simp only [Write.apply, Maps.apply, Level.getOctChunk_writeTerrainChunk,
        Function.update_apply, hl, and_true]
      by_cases hla : l = a
      · exact Or.inl (by rw [if_pos hla, if_pos hla])
      · rw [if_neg hla, if_neg hla]
        exact h.shared l hl
    · exact (Level.getCameraPos_writeTerrainChunk s val a.toLoc).trans h.cam
  | octChunk a val =>
    refine ⟨fun l hl => ?_, fun l hl => ?_, fun l hl => ?_, ?_⟩
    · simp only [Write.apply, Maps.apply, Level.getTerrainChunk_writeOctChunk, hl, and_false,
        if_false, h.terrain l hl]
    · simp only [Write.apply, Maps.apply, Level.getOctChunk_writeOctChunk,
        Function.update_apply, h.oct l hl]
    · simp only [Write.apply, Maps.apply, Level.getOctChunk_writeOctChunk, Function.update_apply]
      by_cases hla : l = a
      · exact Or.inr (by rw [if_pos hla, if_pos hla])
      · rw [if_neg hla, if_neg hla]
        exact h.shared l hl
    · exact (Level.getCameraPos_writeOctChunk s val a.toLoc).trans h.cam
  | cameraPos pos =>
    refine ⟨fun l hl => ?_, fun l hl => ?_, fun l hl => ?_, ?_⟩
    · exact (Level.getTerrainChunk_writeCameraPos s pos l.toLoc).trans (h.terrain l hl)
    · exact (Level.getOctChunk_writeCameraPos s pos l.toLoc).trans (h.oct l hl)
    · rw [Write.apply, Level.getOctChunk_writeCameraPos]
      exact h.shared l hl
    · exact Level.getCameraPos_writeCameraPos s pos

theorem tracks_after (ws : List Write) : Tracks (Level.after ws) (Maps.after ws) := by
  suffices hrun : ∀ (s : Level) (m : Maps), Tracks s m →
      Tracks (ws.foldl Write.apply s) (ws.foldl Maps.apply m) from
    hrun Level.empty Maps.empty
      ⟨fun _ _ => rfl, fun _ _ => rfl, fun _ _ => Or.inl rfl, rfl⟩
  induction ws with
  | nil => exact fun s m h => h
  | cons w ws ih => exact fun s m h => ih _ _ (h.apply w)

/-- The two maps agree on the slots they share. -/
def AgreeAtZero (m : Maps) : Prop := ∀ l : ChunkLoc, l.l = 0 → m.terrain l = m.oct l

/-- At any one time, the database reads like the maps exactly if the two kinds happen to agree at
level 0. -/
theorem reads_iff_agreeAtZero (ws : List Write) :
    Reads (Level.after ws) (Maps.after ws) ↔ AgreeAtZero (Maps.after ws) := by
  have htr := tracks_after ws
  constructor
  · intro h l hl
    rw [← h.terrain l, ← h.oct l, Level.getOctChunk, ChunkLoc.octKey_eq_terrainKey hl]
    rfl
  · intro hagree
    -- the shared slot holds one of the two, and they are equal
    have hshared : ∀ l : ChunkLoc, l.l = 0 →
        (Level.after ws).getOctChunk l.toLoc = (Maps.after ws).oct l := by
      intro l hl
      rcases htr.shared l hl with h | h
      · exact h.trans (hagree l hl)
      · exact h
    refine ⟨fun l => ?_, fun l => ?_, htr.cam⟩
    · by_cases hl : l.l = 0
      · rw [Level.getTerrainChunk, ← ChunkLoc.octKey_eq_terrainKey hl]
        exact (hshared l hl).trans (hagree l hl).symm
      · exact htr.terrain l hl
    · by_cases hl : l.l = 0
      · exact hshared l hl
      · exact htr.oct l hl

theorem Maps.after_concat (ws : List Write) (w : Write) :
    Maps.after (ws ++ [w]) = (Maps.after ws).apply w := List.foldl_append ..

/-- Without writes at level `0`, both maps are empty there. -/
theorem Maps.after_zero {ws : List Write} (h : ∀ w ∈ ws, ¬ w.IsLevelZero) {l : ChunkLoc}
    (hl : l.l = 0) : (Maps.after ws).terrain l = none ∧ (Maps.after ws).oct l = none := by
  -- on the last write, which is for another address
  induction ws using List.reverseRecOn with
  | nil => exact ⟨rfl, rfl⟩
  | append_singleton ws w ih =>
    obtain ⟨hter, hoct⟩ := ih fun w' hw' => h w' (List.mem_append_left _ hw')
    have hw := h w (by simp)
    rw [Maps.after_concat]
    cases w with
    | terrainChunk a val =>
      have hne : l ≠ a := by rintro rfl; exact hw hl
      exact ⟨(Function.update_of_ne hne ..).trans hter, hoct⟩
    | octChunk a val =>
      have hne : l ≠ a := by rintro rfl; exact hw hl
      exact ⟨hter, (Function.update_of_ne hne ..).trans hoct⟩
    | cameraPos pos => exact ⟨hter, hoct⟩

/-- The first write at level `0` makes the two maps differ there. -/
theorem not_agreeAtZero_concat {ws : List Write} (h : ∀ w ∈ ws, ¬ w.IsLevelZero) {w : Write}
    (hw : w.IsLevelZero) : ¬ AgreeAtZero (Maps.after (ws ++ [w])) := by
  rw [Maps.after_concat]
  -- one map has the new chunk and the other nothing
  cases w with
  | terrainChunk a val =>
    intro hagree
    have heq := hagree a hw
    rw [show ((Maps.after ws).apply (.terrainChunk a val)).terrain a = some val from
      Function.update_self ..] at heq
    exact absurd (heq.trans (Maps.after_zero h hw).2) (by simp)
  | octChunk a val =>
    intro hagree
    have heq := hagree a hw
    rw [show ((Maps.after ws).apply (.octChunk a val)).oct a = some val from
      Function.update_self ..] at heq
    exact absurd (heq.symm.trans (Maps.after_zero h hw).1) (by simp)
  | cameraPos pos => exact absurd hw id

/-- And all along a history only if nothing of level 0 is ever written: after the first such write
one of the readers finds what was not written for it. -/
theorem reads_along_iff (ws : List Write) :
    (∀ ps, ps <+: ws → Reads (Level.after ps) (Maps.after ps)) ↔ ∀ w ∈ ws, ¬ w.IsLevelZero := by
  constructor
  · intro hreads
    -- the history so far has no such write, by induction, and the last one would be the first
    induction ws using List.reverseRecOn with
    | nil => exact fun w hw => absurd hw (by simp)
    | append_singleton ws w ih =>
      have hws := ih fun ps hps => hreads ps (hps.trans (List.prefix_append ws [w]))
      intro w' hw'
      rcases List.mem_append.mp hw' with hmem | hlast
      · exact hws w' hmem
      · obtain rfl := List.mem_singleton.mp hlast
        intro hzero
        have hall := hreads (ws ++ [w']) (List.prefix_refl _)
        exact not_agreeAtZero_concat hws hzero ((reads_iff_agreeAtZero _).mp hall)
  · intro hws ps hps
    refine (reads_iff_agreeAtZero ps).mpr fun l hl => ?_
    obtain ⟨hter, hoct⟩ := Maps.after_zero (fun w hw => hws w (hps.subset hw)) hl
    rw [hter, hoct]

/-- **How far `Level` refines the three maps.** After a sequence of writes, every read answers
the value last written by the write of its own kind exactly when the last terrain and voxel
chunks of each level-`0` `Loc` coincide. The reads are right after every prefix of the sequence
exactly when no chunk of level `0` is written. -/
theorem reads_iff (ws : List Write) :
    (Reads (Level.after ws) (Maps.after ws) ↔ AgreeAtZero (Maps.after ws)) ∧
      ((∀ ps, ps <+: ws → Reads (Level.after ps) (Maps.after ps)) ↔
        ∀ w ∈ ws, ¬ w.IsLevelZero) :=
  ⟨reads_iff_agreeAtZero ws, reads_along_iff ws⟩

/-- The address at which it goes wrong. -/
def rootChunk : ChunkLoc := ⟨Loc.root, by decide, by decide⟩

/-- The terrain chunk of the root is read back as its voxel chunk, which was never written. -/
theorem root_terrain_read_as_oct :
    (Level.after [.terrainChunk rootChunk [1]]).getOctChunk rootChunk.toLoc = some [1] ∧
      (Maps.after [.terrainChunk rootChunk [1]]).oct rootChunk = none ∧
      ¬ Reads (Level.after [.terrainChunk rootChunk [1]])
        (Maps.after [.terrainChunk rootChunk [1]]) := by
  have hread : (Level.after [.terrainChunk rootChunk [1]]).getOctChunk rootChunk.toLoc
      = some [1] := by decide
  refine ⟨hread, rfl, fun h => ?_⟩
  have hoct := h.oct rootChunk
  rw [hread] at hoct
  exact absurd hoct (by simp [Maps.after, Maps.apply, Maps.empty])

end MapBg
