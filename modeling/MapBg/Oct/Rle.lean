import Mathlib.Data.List.Basic
import Mathlib.Data.Nat.Bitwise
import MapBg.Lib.RunLength

/-!
# `OctTile::RleEncode` and `OctTile::RleDecode`

The voxel chunk format. A chunk is a byte per cell, written as *records*: a count, then the
value it repeats. A count below `0x80` is one byte; a larger one is two, high byte first, with
the top bit set, so the largest count is `0x7FFF` and a longer run is split.

The two functions are the C++ loops read line by line. `RleEncode` keeps a pending run
`(cnt, curval)` and starts it from a count of zero; `RleDecode` walks an iterator that it also
moves inside the loop body. An iterator into a vector is the suffix it points at, so `end()`
is `[]` and dereferencing there is the fault `Stop.readPastEnd`; `memset` past the end of the
output buffer is `Stop.writePastEnd`. A decoder that answers `.ok` has done neither.

What the two have in common is only the format, so the proof goes through it: the encoder
writes exactly the records of `RunLength.runs 0x7FFF` (`rleEncode_eq`), and the decoder undoes
any list of records with counts from `1` to `0x7FFF` (`rleDecode_records`). More streams can be
decoded than are ever written; the written ones are the canonical ones (`rleEncode_image`).
-/

set_option autoImplicit false

namespace MapBg

open RunLength

/-- Why a loop of the program does not come back with a result: a vector is read or written at
or past its end, or the loop is still running when the step bound of the model runs out. -/
inductive Stop where
  | readPastEnd
  | writePastEnd
  | outOfFuel
  deriving DecidableEq, Repr

/-- `SquarePtsCt`: a tile has so many cells along each axis. -/
def squarePtsCt : Nat := 256

def cellCt : Nat := squarePtsCt * squarePtsCt * squarePtsCt

/-- The longest run that a record can hold. -/
def maxCount : Nat := 0x7FFF

/-! ## The encoder

`countBytes` is the `push_back` of a count that the source writes out twice, once in the loop
and once in the flush; a record is a count and then the value. `EncState` holds the variables
of the loop, `push` is one pass of it and `flush` what follows it. -/

/-- The count of a record: one byte, or two with the top bit of the first set. -/
def countBytes (cnt : Nat) : List UInt8 :=
  if cnt < 0x80 then [UInt8.ofNat cnt]
  else [UInt8.ofNat (cnt >>> 8) ||| 0x80, UInt8.ofNat (cnt &&& 0xFF)]

/-- The count, then the value. -/
def recordBytes (r : Run UInt8) : List UInt8 := countBytes r.1 ++ [r.2]

/-- The variables of `RleEncode`. -/
structure EncState where
  outrle : List UInt8
  curval : UInt8
  cnt : Nat

/-- One turn of its loop. A record is written when the value changes or the count is full. -/
def EncState.push (s : EncState) (v : UInt8) : EncState :=
  if v ≠ s.curval ∨ s.cnt = 0x7FFF then
    { outrle := s.outrle ++ recordBytes (s.cnt, s.curval), curval := v, cnt := 1 }
  else { s with cnt := s.cnt + 1 }

/-- What follows the loop. -/
def EncState.flush (s : EncState) : List UInt8 :=
  if s.cnt > 0 then s.outrle ++ recordBytes (s.cnt, s.curval) else s.outrle

def rleEncode : List UInt8 → Except Stop (List UInt8)
  -- the first line reads `data[0]`, which an empty vector does not have
  | [] => .error .readPastEnd
  | v :: vs =>
    .ok ((v :: vs).foldl EncState.push { outrle := [], curval := v, cnt := 0 }).flush

/-- Some runs, as records one after the other. -/
def records (rs : List (Run UInt8)) : List UInt8 := rs.flatMap recordBytes

@[simp] theorem records_nil : records [] = [] := rfl

@[simp] theorem records_cons (r : Run UInt8) (rs : List (Run UInt8)) :
    records (r :: rs) = recordBytes r ++ records rs := rfl

/-- The pending-run invariant: with a run `(cnt, curval)` open, what the rest of the loop and
the flush add to `outrle` is the records of `runsFrom`. -/
theorem foldl_push_flush (vs : List UInt8) (s : EncState) (hs : 0 < s.cnt) :
    (vs.foldl EncState.push s).flush
      = s.outrle ++ records (runsFrom maxCount s.curval s.cnt vs) := by
  induction vs generalizing s with
  | nil => simp [EncState.flush, runsFrom, hs]
  | cons v vs ih =>
    rw [List.foldl_cons, runsFrom]
    by_cases hc : v ≠ s.curval ∨ s.cnt = maxCount
    · have hpush : s.push v
          = { outrle := s.outrle ++ recordBytes (s.cnt, s.curval), curval := v, cnt := 1 } :=
        if_pos hc
      rw [if_pos hc, hpush, ih _ Nat.one_pos, records_cons, List.append_assoc]
    · have hpush : s.push v = { s with cnt := s.cnt + 1 } := if_neg hc
      rw [if_neg hc, hpush, ih _ (Nat.succ_pos _)]

/-- **The encoder writes the records of the canonical cut.** The first value always meets the
count `0` and its own `curval`, so it only opens the first run. -/
theorem rleEncode_eq {data : List UInt8} (h : data ≠ []) :
    rleEncode data = .ok (records (runs maxCount data)) := by
  cases data with
  | nil => exact absurd rfl h
  | cons v vs =>
    have hfirst : ({ outrle := [], curval := v, cnt := 0 } : EncState).push v
        = { outrle := [], curval := v, cnt := 1 } := by simp [EncState.push]
    rw [rleEncode, List.foldl_cons, hfirst, foldl_push_flush _ _ Nat.one_pos]
    rfl

/-- What is encoded is the runs of the data, cut at `maxCount`. -/
theorem rleEncode_inv {data rle : List UInt8} (h : rleEncode data = .ok rle) :
    rle = records (runs maxCount data) := by
  cases data with
  | nil => cases h
  | cons v vs =>
    rw [rleEncode_eq (List.cons_ne_nil v vs)] at h
    exact (Except.ok.inj h).symm

theorem rleEncode_ne_nil {data rle : List UInt8} (h : rleEncode data = .ok rle) : rle ≠ [] := by
  have hrle := rleEncode_inv h
  cases data with
  | nil => cases h
  | cons v vs =>
    intro hnil
    have hruns : runs maxCount (v :: vs) = [] := by
      refine List.eq_nil_iff_forall_not_mem.mpr fun r hr => ?_
      have hbytes := List.flatMap_eq_nil_iff.mp (hrle.symm.trans hnil) r hr
      exact absurd hbytes (by simp [recordBytes])
    have hexpand := expand_runs maxCount (v :: vs)
    rw [hruns] at hexpand
    exact absurd hexpand (by simp)

theorem ne_nil_of_length_cellCt {data : List UInt8} (h : data.length = cellCt) : data ≠ [] := by
  intro hnil
  rw [hnil] at h
  exact absurd h (by decide)

/-! ## The decoder

`decodeLoop` is the loop from the iterator on; its own `++it` is the step to the suffix behind
the record. `rleDecode` starts it on a buffer of `n` zeros, where the program has `n = cellCt`. -/

/-- `memset` on a vector, which does not check that it stays inside. -/
def memset (out : List UInt8) (offset : Nat) (v : UInt8) (size : Nat) :
    Except Stop (List UInt8) :=
  if offset + size ≤ out.length then
    .ok (out.take offset ++ List.replicate size v ++ out.drop (offset + size))
  else .error .writePastEnd

/-- A count of two bytes, put together again. -/
def longCount (cnt0 cnt1 : UInt8) : Nat := ((cnt0 &&& 0x7F).toNat <<< 8) ||| cnt1.toNat

/-- The loop of `RleDecode`, with the iterator as the rest of the list. -/
def decodeLoop : List UInt8 → List UInt8 → Nat → Except Stop (List UInt8)
  | [], out, _ => .ok out
  | cnt0 :: it, out, offset =>
    if cnt0 < 0x80 then
      match it with
      | v :: it => do
        let out ← memset out offset v cnt0.toNat
        decodeLoop it out (offset + cnt0.toNat)
      | [] => .error .readPastEnd
    else
      match it with
      | cnt1 :: v :: it => do
        let out ← memset out offset v (longCount cnt0 cnt1)
        decodeLoop it out (offset + longCount cnt0 cnt1)
      | _ => .error .readPastEnd

/-- `OctTile::RleDecode`, into a vector of `n` zeros. -/
def rleDecode (n : Nat) (data : List UInt8) : Except Stop (List UInt8) :=
  decodeLoop data (List.replicate n 0) 0

/-! ## A record read back

One fact about the count bytes, used by both decoders of the format. -/

theorem highByte_ge : ∀ h < 128, ¬ (UInt8.ofNat h ||| 0x80) < 0x80 := by decide

theorem highByte_and : ∀ h < 128, ((UInt8.ofNat h ||| 0x80) &&& 0x7F).toNat = h := by decide

/-- The two forms of a count are inverse to each other, up to `maxCount`. -/
theorem longCount_bytes {cnt : Nat} (h : cnt ≤ maxCount) :
    longCount (UInt8.ofNat (cnt >>> 8) ||| 0x80) (UInt8.ofNat (cnt &&& 0xFF)) = cnt := by
  have hcnt : cnt < 0x8000 := Nat.lt_succ_of_le h
  have hhi : cnt >>> 8 < 128 := by rw [Nat.shiftRight_eq_div_pow]; omega
  have hand : cnt &&& 0xFF = cnt % 2 ^ 8 := Nat.and_two_pow_sub_one_eq_mod cnt 8
  have hlo : (UInt8.ofNat (cnt &&& 0xFF)).toNat = cnt % 2 ^ 8 := by
    rw [UInt8.toNat_ofNat_of_lt' (by rw [hand]; exact Nat.mod_lt _ (by decide)), hand]
  rw [longCount, highByte_and _ hhi, hlo, ← Nat.shiftLeft_add_eq_or_of_lt (by omega),
    Nat.shiftRight_eq_div_pow, Nat.shiftLeft_eq]
  omega

/-- What the first bytes of a stream that starts with a record look like: the two shapes the
decoders split on, with the count they read. -/
theorem recordBytes_cases {c : Nat} (v : UInt8) (hc : c ≤ maxCount) :
    (∃ cnt0 : UInt8, recordBytes (c, v) = [cnt0, v] ∧ cnt0 < 0x80 ∧ cnt0.toNat = c) ∨
    (∃ cnt0 cnt1 : UInt8, recordBytes (c, v) = [cnt0, cnt1, v] ∧ ¬ cnt0 < 0x80 ∧
      longCount cnt0 cnt1 = c ∧ 0x80 ≤ c) := by
  have hcnt : c < 0x8000 := Nat.lt_succ_of_le hc
  by_cases hs : c < 0x80
  · have hnat : (UInt8.ofNat c).toNat = c :=
      UInt8.toNat_ofNat_of_lt' (Nat.lt_trans hs (by decide))
    refine Or.inl ⟨UInt8.ofNat c, ?_, ?_, hnat⟩
    · simp [recordBytes, countBytes, hs]
    · rw [UInt8.lt_iff_toNat_lt, hnat]; exact hs
  · refine Or.inr ⟨_, _, ?_, highByte_ge (c >>> 8) ?_, longCount_bytes hc, Nat.le_of_not_lt hs⟩
    · simp [recordBytes, countBytes, hs]
    · rw [Nat.shiftRight_eq_div_pow]; omega

/-- One record is read as one run, whichever form its count has. -/
theorem decodeLoop_record {c : Nat} (v : UInt8) (hc : c ≤ maxCount) (it out : List UInt8)
    (offset : Nat) :
    decodeLoop (recordBytes (c, v) ++ it) out offset
      = (memset out offset v c).bind fun out => decodeLoop it out (offset + c) := by
  rcases recordBytes_cases v hc with ⟨cnt0, hb, hlt, rfl⟩ | ⟨cnt0, cnt1, hb, hge, rfl, -⟩
  · simp [hb, decodeLoop, hlt, bind]
  · simp [hb, decodeLoop, hge, bind]

/-- What has been decoded so far is in front, and the rest is still zero. -/
theorem memset_append (done : List UInt8) (c m : Nat) (v : UInt8) :
    memset (done ++ List.replicate (c + m) 0) done.length v c
      = .ok ((done ++ List.replicate c v) ++ List.replicate m 0) := by
  rw [memset, if_pos (by simp)]
  simp [List.drop_append]

/-- **The decoder undoes a list of records**: started behind the decoded part `done`, with as
many zeros left as the runs are long, it answers `done` and the runs expanded. -/
theorem decodeLoop_records (rs : List (Run UInt8)) (hrs : ∀ r ∈ rs, r.1 ≤ maxCount)
    (done : List UInt8) :
    decodeLoop (records rs) (done ++ List.replicate (expand rs).length 0) done.length
      = .ok (done ++ expand rs) := by
  induction rs generalizing done with
  | nil => simp [decodeLoop]
  | cons r rs ih =>
    obtain ⟨c, v⟩ := r
    have hc : c ≤ maxCount := hrs (c, v) List.mem_cons_self
    have hlen : (expand ((c, v) :: rs)).length = c + (expand rs).length := by simp
    rw [records_cons, decodeLoop_record v hc, hlen, memset_append]
    have hih := ih (fun r hr => hrs r (List.mem_cons_of_mem _ hr)) (done ++ List.replicate c v)
    rw [List.length_append, List.length_replicate] at hih
    simp only [Except.bind]
    rw [hih, expand_cons, List.append_assoc]

/-- By induction on the records, with the part that is done as the accumulator. -/
theorem rleDecode_records {rs : List (Run UInt8)} (hrs : ∀ r ∈ rs, r.1 ≤ maxCount) :
    rleDecode (expand rs).length (records rs) = .ok (expand rs) := by
  simpa [rleDecode] using decodeLoop_records rs hrs []

/-! ## The round trip -/

theorem rleDecode_of_rleEncode {data rle : List UInt8} (h : rleEncode data = .ok rle) :
    rleDecode data.length rle = .ok data := by
  have hcan : Canonical maxCount (runs maxCount data) := canonical_runs (by decide) data
  have hdec := rleDecode_records hcan.le_cap
  rw [expand_runs] at hdec
  rw [rleEncode_inv h]
  exact hdec

/-- **The codec is lossless**: every non-empty vector is encoded, and the decoder gives it back
from a buffer of its own length. The answer `.ok` is also what says that the iterator is never
read at the end of the stream and that no `memset` passes the end of the buffer. -/
theorem rleDecode_rleEncode {data : List UInt8} (h : data ≠ []) :
    ∃ rle, rleEncode data = .ok rle ∧ rleDecode data.length rle = .ok data :=
  ⟨_, rleEncode_eq h, rleDecode_of_rleEncode (rleEncode_eq h)⟩

theorem rleDecode_rleEncode_twoRuns :
    [7, 7, 9] ≠ ([] : List UInt8) ∧
      ∃ rle, rleEncode [7, 7, 9] = .ok rle ∧ rleDecode 3 rle = .ok [7, 7, 9] :=
  ⟨by decide, @rleDecode_rleEncode [7, 7, 9] (by decide)⟩

/-! ## The streams the encoder writes

`CanonicalStream n s` describes them without the encoder: bytes are numbers here, and a count above
one byte is split by division. -/

/-- How the count of a run is stored, as numbers and without the operations on bits; for a statement
that can be read without knowing the code. -/
def storedCount (c : Nat) : List Nat :=
  if c < 0x80 then [c] else [0x80 + c / 256, c % 256]

/-- The byte sequences that an encoder should be able to produce: the records of runs that are as
long as they can be, `n` cells in all. -/
def CanonicalStream (n : Nat) (s : List UInt8) : Prop :=
  ∃ rs : List (Run UInt8), Canonical 0x7FFF rs ∧ (rs.map Prod.fst).sum = n ∧
    s.map UInt8.toNat = rs.flatMap fun r => storedCount r.1 ++ [r.2.toNat]

theorem highByte_add : ∀ h < 128, (UInt8.ofNat h ||| 0x80).toNat = 0x80 + h := by decide

theorem countBytes_toNat {c : Nat} (hc : c ≤ maxCount) :
    (countBytes c).map UInt8.toNat = storedCount c := by
  have hcnt : c < 0x8000 := Nat.lt_succ_of_le hc
  unfold countBytes storedCount
  split
  · rename_i hs
    rw [List.map_singleton, UInt8.toNat_ofNat_of_lt' (Nat.lt_trans hs (by decide))]
  · have hand : c &&& 0xFF = c % 256 := Nat.and_two_pow_sub_one_eq_mod c 8
    have hlo : c % 256 < UInt8.size := Nat.mod_lt _ (by decide)
    rw [List.map_cons, List.map_singleton, Nat.shiftRight_eq_div_pow, hand,
      highByte_add _ (by omega), UInt8.toNat_ofNat_of_lt' hlo]

theorem records_toNat {rs : List (Run UInt8)} (hrs : ∀ r ∈ rs, r.1 ≤ maxCount) :
    (records rs).map UInt8.toNat = rs.flatMap fun r => storedCount r.1 ++ [r.2.toNat] := by
  induction rs with
  | nil => rfl
  | cons r rs ih =>
    obtain ⟨hr, hrs⟩ := List.forall_mem_cons.mp hrs
    rw [records_cons, List.map_append, ih hrs, recordBytes, List.map_append, countBytes_toNat hr]
    rfl

theorem length_expand (rs : List (Run UInt8)) :
    (expand rs).length = (rs.map Prod.fst).sum := by
  simp [expand, List.length_flatMap]

/-- A canonical stream is the records of a canonical cut. -/
theorem canonicalStream_iff {n : Nat} {s : List UInt8} : CanonicalStream n s ↔
    ∃ rs : List (Run UInt8), Canonical maxCount rs ∧ (expand rs).length = n ∧ s = records rs := by
  constructor
  · rintro ⟨rs, hcan, hsum, hbytes⟩
    refine ⟨rs, hcan, (length_expand rs).trans hsum, ?_⟩
    rw [← records_toNat hcan.le_cap] at hbytes
    exact List.map_injective_iff.mpr (fun _ _ => UInt8.toNat_inj.mp) hbytes
  · rintro ⟨rs, hcan, hlen, rfl⟩
    exact ⟨rs, hcan, (length_expand rs).symm.trans hlen, records_toNat hcan.le_cap⟩

/-- **The encoder's image is the canonical streams.** -/
theorem rleEncode_image {n : Nat} (hn : 1 ≤ n) :
    (∀ data : List UInt8, data.length = n →
      ∃ s, rleEncode data = .ok s ∧ CanonicalStream n s) ∧
    (∀ s : List UInt8, CanonicalStream n s →
      ∃ data, rleDecode n s = .ok data ∧ data.length = n ∧ rleEncode data = .ok s) := by
  constructor
  · intro data hlen
    have hne : data ≠ [] := List.length_pos_iff.mp (by omega)
    have hcan : Canonical maxCount (runs maxCount data) := canonical_runs (by decide) data
    refine ⟨_, rleEncode_eq hne, canonicalStream_iff.mpr ⟨_, hcan, ?_, rfl⟩⟩
    rw [expand_runs, hlen]
  · intro s hs
    -- a canonical stream is the records of canonical runs, which are determined by the data
    obtain ⟨rs, hcan, rfl, rfl⟩ := canonicalStream_iff.mp hs
    have hne : expand rs ≠ [] := List.length_pos_iff.mp (by omega)
    refine ⟨expand rs, rleDecode_records hcan.le_cap, rfl, ?_⟩
    rw [rleEncode_eq hne, runs_expand hcan]

theorem rleEncode_image_twoRuns : CanonicalStream 301 [0x81, 0x2C, 7, 1, 9] ∧
    ∃ data, rleDecode 301 [0x81, 0x2C, 7, 1, 9] = .ok data ∧ data.length = 301 ∧
      rleEncode data = .ok [0x81, 0x2C, 7, 1, 9] := by
  have hcan : CanonicalStream 301 [0x81, 0x2C, 7, 1, 9] := by
    refine ⟨[(300, 7), (1, 9)], ⟨by decide, by decide, ?_⟩, by decide, by decide⟩
    simp
  exact ⟨hcan, (rleEncode_image (by decide)).2 _ hcan⟩

end MapBg
