import MapBg.Oct.Rle

/-!
# `OctTile::LoadVB`: the streaming decoder

`LoadVB` reads the same records as `RleDecode` and never builds the cell array: for a record of
value `1` it pushes the coordinates of the cells the run covers, one pass of an inner loop per
cell, and it skips every other record. What it should produce is said by `IsCellList` without
its arithmetic: the points, read back as cell indices, are the indices of the cells that hold
`1`, in increasing order.

It does so on a short run only. The inner loop's counter is a `byte`,

    for (byte idx = 0; idx < size; ++idx)

and a two-byte count goes up to `0x7FFF`. From `size = 256` on, every value of `idx` is below
`size`, so `++idx` wraps and the loop never ends (`pointLoop_long`). Termination is therefore a
matter of proof and the loop has a step bound: `.ok` at some bound is a loop that returns, and
`.error .outOfFuel` at every bound is one that does not.

`loadVBPts_agrees_iff` is the exact line between the two: the decoders agree on a chunk if and
only if no 256 consecutive cells of it all hold `1`. A row of flat ground is such a block.
-/

set_option autoImplicit false

namespace MapBg

open RunLength

structure Vec3i where
  x : Int
  y : Int
  z : Int
  deriving DecidableEq, Repr

/-! ## The loop

`cellCoord` is the index arithmetic that the source repeats in both branches. -/

/-- The coordinates of a cell, from its place in the data. -/
def cellCoord (v : Nat) : Vec3i :=
  let y := v / (squarePtsCt * squarePtsCt)
  let v := v - y * squarePtsCt * squarePtsCt
  let z := v / squarePtsCt
  let v := v - z * squarePtsCt
  { x := v, y := y, z := z }

/-- The innermost loop, over the cells of a run. Its counter `idx` is a `uint8_t`, and wraps. -/
def pointLoop (offset size : Nat) : Nat → UInt8 → List Vec3i → Except Stop (List Vec3i)
  | 0, _, _ => .error .outOfFuel
  | fuel + 1, idx, octPts =>
    if idx.toNat < size then
      pointLoop offset size fuel (idx + 1) (octPts ++ [cellCoord (offset + idx.toNat)])
    else .ok octPts

/-- Only runs of ones are drawn. -/
def pushRun (fuel : Nat) (v : UInt8) (offset size : Nat) (octPts : List Vec3i) :
    Except Stop (List Vec3i) :=
  if v = 1 then pointLoop offset size fuel 0 octPts else .ok octPts

/-- The loop of `LoadVB` over the records. -/
def loadLoop (fuel : Nat) : List UInt8 → List Vec3i → Nat → Except Stop (List Vec3i)
  | [], octPts, _ => .ok octPts
  | cnt0 :: it, octPts, offset =>
    if cnt0 < 0x80 then
      match it with
      | v :: it => do
        let octPts ← pushRun fuel v offset cnt0.toNat octPts
        loadLoop fuel it octPts (offset + cnt0.toNat)
      | [] => .error .readPastEnd
    else
      match it with
      | cnt1 :: v :: it => do
        let octPts ← pushRun fuel v offset (longCount cnt0 cnt1) octPts
        loadLoop fuel it octPts (offset + longCount cnt0 cnt1)
      | _ => .error .readPastEnd

/-- The list `octPts` that `LoadVB` hands to `VoxCube::Create`. -/
def loadVBPts (fuel : Nat) (rledata : List UInt8) : Except Stop (List Vec3i) :=
  loadLoop fuel rledata [] 0

/-! ## The inner loop

Below 256 the counter is the index it stands for and the loop ends; from 256 on it wraps. -/

/-- By induction on the fuel, with the counter as the accumulator; as long as the run is shorter
than 256, the counter is what it looks like. -/
theorem pointLoop_short {offset size : Nat} (hsize : size < 256) :
    ∀ (fuel i : Nat) (octPts : List Vec3i), i ≤ size → size < fuel + i →
      pointLoop offset size fuel (UInt8.ofNat i) octPts
        = .ok (octPts ++ (List.range' (offset + i) (size - i)).map cellCoord) := by
  intro fuel
  induction fuel with
  | zero => intro i octPts hi hf; omega
  | succ fuel ih =>
    intro i octPts hi hf
    -- the counter is a byte, and does not wrap below 256
    have hnat : (UInt8.ofNat i).toNat = i :=
      UInt8.toNat_ofNat_of_lt' (Nat.lt_of_le_of_lt hi hsize)
    rw [pointLoop, hnat]
    by_cases hlt : i < size
    · have hnext : UInt8.ofNat i + 1 = UInt8.ofNat (i + 1) := by
        rw [UInt8.ofNat_add]; rfl
      have hrange : List.range' (offset + i) (size - i)
          = (offset + i) :: List.range' (offset + (i + 1)) (size - (i + 1)) := by
        rw [show size - i = size - (i + 1) + 1 by omega, List.range'_succ]; rfl
      rw [if_pos hlt, hnext, ih (i + 1) _ hlt (by omega), hrange]
      simp
    · rw [if_neg hlt, show size - i = 0 by omega]
      simp

/-- A counter of eight bits is never at 256 or more, so the loop has no end. -/
theorem pointLoop_long {offset size : Nat} (hsize : 256 ≤ size) (fuel : Nat) :
    ∀ (idx : UInt8) (octPts : List Vec3i),
      pointLoop offset size fuel idx octPts = .error .outOfFuel := by
  induction fuel with
  | zero => intro idx octPts; rfl
  | succ fuel ih =>
    intro idx octPts
    have hlt : idx.toNat < size := Nat.lt_of_lt_of_le idx.toNat_lt hsize
    rw [pointLoop, if_pos hlt]
    exact ih _ _

/-- Whatever the bound, the inner loop returns its points or is still running. -/
theorem pointLoop_cases (offset size fuel : Nat) :
    ∀ (idx : UInt8) (octPts : List Vec3i),
      (∃ pts, pointLoop offset size fuel idx octPts = .ok pts) ∨
        pointLoop offset size fuel idx octPts = .error .outOfFuel := by
  induction fuel with
  | zero => intro idx octPts; exact Or.inr rfl
  | succ fuel ih =>
    intro idx octPts
    rw [pointLoop]
    split
    · exact ih _ _
    · exact Or.inl ⟨octPts, rfl⟩

/-! ## The stream

`onesFrom k` lists the positions of the ones of a list whose first element stands at `k`. -/

/-- Where the ones are, counted from `k`. -/
def onesFrom : Nat → List UInt8 → List Nat
  | _, [] => []
  | k, b :: bs => if b = 1 then k :: onesFrom (k + 1) bs else onesFrom (k + 1) bs

theorem onesFrom_append (l t : List UInt8) (k : Nat) :
    onesFrom k (l ++ t) = onesFrom k l ++ onesFrom (k + l.length) t := by
  induction l generalizing k with
  | nil => simp [onesFrom]
  | cons b l ih =>
    have hlen : k + 1 + l.length = k + (b :: l).length := by simp only [List.length_cons]; omega
    rw [List.cons_append, onesFrom, onesFrom, ih, hlen]
    split <;> rfl

theorem onesFrom_replicate (c k : Nat) (v : UInt8) :
    onesFrom k (List.replicate c v) = if v = 1 then List.range' k c else [] := by
  induction c generalizing k with
  | zero => simp [onesFrom]
  | succ c ih =>
    rw [List.replicate_succ, onesFrom, ih]
    split
    · exact (List.range'_succ ..).symm
    · rfl

theorem onesFrom_eq_filter (l : List UInt8) (k : Nat) :
    onesFrom k l = (List.range' k l.length).filter fun i => l[i - k]? = some 1 := by
  induction l generalizing k with
  | nil => rfl
  | cons b l ih =>
    -- past the head, the position `i` in `b :: l` is the position `i - 1` in `l`
    have hshift : (List.range' (k + 1) l.length).filter (fun i => (b :: l)[i - k]? = some 1)
        = (List.range' (k + 1) l.length).filter fun i => l[i - (k + 1)]? = some 1 := by
      apply List.filter_congr
      intro i hi
      rw [show i - k = i - (k + 1) + 1 by have := List.left_le_of_mem_range' hi; omega]
      simp
    rw [onesFrom, ih, List.length_cons, List.range'_succ, List.filter_cons, hshift]
    simp

/-- The records are taken apart as the decoder does it. -/
theorem loadLoop_record (fuel : Nat) {c : Nat} (v : UInt8) (hc : c ≤ maxCount)
    (it : List UInt8) (octPts : List Vec3i) (offset : Nat) :
    loadLoop fuel (recordBytes (c, v) ++ it) octPts offset
      = (pushRun fuel v offset c octPts).bind fun pts => loadLoop fuel it pts (offset + c) := by
  rcases recordBytes_cases v hc with ⟨cnt0, hb, hlt, rfl⟩ | ⟨cnt0, cnt1, hb, hge, rfl, -⟩
  · simp [hb, loadLoop, hlt, bind]
  · simp [hb, loadLoop, hge, bind]

/-- A run that ends adds its cells if it is one of ones, and nothing otherwise. -/
theorem pushRun_short {fuel : Nat} (hf : 256 ≤ fuel) (v : UInt8) (offset : Nat) {c : Nat}
    (hc : v = 1 → c < 256) (octPts : List Vec3i) :
    pushRun fuel v offset c octPts
      = .ok (octPts ++ (onesFrom offset (List.replicate c v)).map cellCoord) := by
  rw [pushRun, onesFrom_replicate]
  by_cases hv : v = 1
  · rw [if_pos hv, if_pos hv]
    exact pointLoop_short (hc hv) fuel 0 octPts (Nat.zero_le c) (by have := hc hv; omega)
  · rw [if_neg hv, if_neg hv]
    simp

/-- With short runs of ones, the stream loop returns the cells of its runs in order. -/
theorem loadLoop_short {fuel : Nat} (hf : 256 ≤ fuel) (rs : List (Run UInt8))
    (hrs : ∀ r ∈ rs, r.1 ≤ maxCount) (hones : ∀ r ∈ rs, r.2 = 1 → r.1 < 256) :
    ∀ (octPts : List Vec3i) (offset : Nat), loadLoop fuel (records rs) octPts offset
      = .ok (octPts ++ (onesFrom offset (expand rs)).map cellCoord) := by
  induction rs with
  | nil => intro octPts offset; simp [loadLoop, onesFrom]
  | cons r rs ih =>
    intro octPts offset
    obtain ⟨c, v⟩ := r
    have hc : c ≤ maxCount := hrs (c, v) List.mem_cons_self
    have hv : v = 1 → c < 256 := hones (c, v) List.mem_cons_self
    have htail := ih (fun r hr => hrs r (List.mem_cons_of_mem _ hr))
      (fun r hr => hones r (List.mem_cons_of_mem _ hr))
    -- one record: its ones are listed, and the rest starts behind them
    rw [records_cons, loadLoop_record fuel v hc, pushRun_short hf v offset hv]
    simp only [Except.bind]
    rw [htail, expand_cons, onesFrom_append, List.map_append, List.append_assoc,
      List.length_replicate]

/-- One long run of ones keeps the whole loop from returning, whatever stands before it. -/
theorem loadLoop_long (fuel : Nat) (rs : List (Run UInt8)) (hrs : ∀ r ∈ rs, r.1 ≤ maxCount)
    {c : Nat} (hmem : (c, 1) ∈ rs) (hc : 256 ≤ c) :
    ∀ (octPts : List Vec3i) (offset : Nat),
      loadLoop fuel (records rs) octPts offset = .error .outOfFuel := by
  induction rs with
  | nil => exact absurd hmem (by simp)
  | cons r rs ih =>
    intro octPts offset
    obtain ⟨c', v⟩ := r
    rw [records_cons, loadLoop_record fuel v (hrs (c', v) List.mem_cons_self)]
    -- the run that does not end is this one or a later one, if the loop gets there
    rcases List.mem_cons.mp hmem with heq | hmem
    · obtain ⟨rfl, rfl⟩ := Prod.mk.inj heq
      rw [pushRun, if_pos rfl, pointLoop_long hc]
      rfl
    · have hrest := ih (fun r hr => hrs r (List.mem_cons_of_mem _ hr)) hmem
      rw [pushRun]
      split
      · rcases pointLoop_cases offset c' fuel 0 octPts with ⟨pts, hok⟩ | herr
        · rw [hok]; exact hrest pts (offset + c')
        · rw [herr]; rfl
      · exact hrest octPts (offset + c')

/-! ## What the list should be -/

def cellIndex (p : Vec3i) : Int := p.y * 256 * 256 + p.z * 256 + p.x

/-- `octPts` lists the cells of `data` that hold `1`, each once, in increasing index order, by
coordinates that lie in the chunk. -/
structure IsCellList (data : List UInt8) (octPts : List Vec3i) : Prop where
  index : octPts.map cellIndex
    = ((List.range data.length).filter fun i => data[i]? = some 1).map Int.ofNat
  inBox : ∀ p ∈ octPts, 0 ≤ p.x ∧ p.x < 256 ∧ 0 ≤ p.y ∧ p.y < 256 ∧ 0 ≤ p.z ∧ p.z < 256

theorem cellIndex_cellCoord (v : Nat) : cellIndex (cellCoord v) = v := by
  simp only [cellIndex, cellCoord, squarePtsCt]
  omega

theorem cellCoord_inBox {v : Nat} (hv : v < cellCt) :
    0 ≤ (cellCoord v).x ∧ (cellCoord v).x < 256 ∧ 0 ≤ (cellCoord v).y ∧ (cellCoord v).y < 256 ∧
      0 ≤ (cellCoord v).z ∧ (cellCoord v).z < 256 := by
  simp only [cellCt, squarePtsCt] at hv
  simp only [cellCoord, squarePtsCt]
  omega

/-- The list the loops build is the list of the cells that are one, each once and in order. -/
theorem isCellList_onesFrom {data : List UInt8} (hlen : data.length = cellCt) :
    IsCellList data ((onesFrom 0 data).map cellCoord) := by
  have hones : onesFrom 0 data
      = (List.range data.length).filter fun i => data[i]? = some 1 := by
    rw [onesFrom_eq_filter, List.range_eq_range']
    rfl
  refine ⟨?_, ?_⟩
  · rw [hones, List.map_map]
    exact List.map_congr_left fun i _ => cellIndex_cellCoord i
  · intro p hp
    obtain ⟨i, hi, rfl⟩ := List.mem_map.mp hp
    rw [hones] at hi
    have hlt : i < data.length := List.mem_range.mp (List.mem_filter.mp hi).1
    exact cellCoord_inBox (hlen ▸ hlt)

/-- A block of 256 ones is one run of the cut that is at least that long. -/
theorem long_run_iff (data : List UInt8) :
    (∃ c, (c, 1) ∈ runs maxCount data ∧ 256 ≤ c) ↔ List.replicate 256 1 <:+: data := by
  have hcan : Canonical maxCount (runs maxCount data) := canonical_runs (by decide) data
  have hiff := mem_run_iff_replicate_infix (by decide : 1 ≤ 256) (by decide) (1 : UInt8) hcan
  rwa [expand_runs] at hiff

/-- With 256 ones in a row somewhere, `LoadVB` does not return. -/
theorem loadVBPts_never {data rledata : List UInt8} (hr : rleEncode data = .ok rledata)
    (hblock : List.replicate 256 1 <:+: data) (fuel : Nat) :
    loadVBPts fuel rledata = .error .outOfFuel := by
  obtain rfl := rleEncode_inv hr
  have hcan : Canonical maxCount (runs maxCount data) := canonical_runs (by decide) data
  obtain ⟨c, hmem, hc⟩ := (long_run_iff data).mpr hblock
  exact loadLoop_long fuel _ hcan.le_cap hmem hc [] 0

/-- Without 256 ones one after the other, every run of ones ends. -/
theorem loadVBPts_short {data rledata : List UInt8} (hr : rleEncode data = .ok rledata)
    (hblock : ¬ List.replicate 256 1 <:+: data) {fuel : Nat} (hf : 256 ≤ fuel) :
    loadVBPts fuel rledata = .ok ((onesFrom 0 data).map cellCoord) := by
  obtain rfl := rleEncode_inv hr
  have hcan : Canonical maxCount (runs maxCount data) := canonical_runs (by decide) data
  have hones : ∀ r ∈ runs maxCount data, r.2 = 1 → r.1 < 256 := by
    intro r hr h1
    by_contra hge
    exact hblock ((long_run_iff data).mp ⟨r.1, by rw [← h1]; exact hr, by omega⟩)
  rw [loadVBPts, loadLoop_short hf _ hcan.le_cap hones, expand_runs]
  rfl

/-- **The two decoders agree exactly on the chunks without 256 ones in a row.** On the left is
what is wanted of `LoadVB` on `RleEncode(data)`: it returns, and its list is the cell list of
what `RleDecode` makes of the same bytes. -/
theorem loadVBPts_agrees_iff {data rledata : List UInt8} (hlen : data.length = cellCt)
    (hr : rleEncode data = .ok rledata) :
    (∃ fuel octPts decoded, loadVBPts fuel rledata = .ok octPts ∧
        rleDecode cellCt rledata = .ok decoded ∧ IsCellList decoded octPts) ↔
      ¬ List.replicate 256 1 <:+: data := by
  constructor
  · rintro ⟨fuel, octPts, decoded, hok, -, -⟩ hblock
    rw [loadVBPts_never hr hblock fuel] at hok
    cases hok
  · intro hblock
    have hdec := rleDecode_of_rleEncode hr
    rw [hlen] at hdec
    exact ⟨256, _, data, loadVBPts_short hr hblock (Nat.le_refl 256), hdec,
      isCellList_onesFrom hlen⟩

/-- Two runs of ground of 255 cells each, with one empty cell between them. -/
def ditch : List UInt8 :=
  List.replicate 255 1 ++ (0 :: (List.replicate 255 1 ++ List.replicate (cellCt - 511) 0))

theorem length_ditch : ditch.length = cellCt := by
  rw [ditch, List.length_append, List.length_cons, List.length_append, List.length_replicate,
    List.length_replicate]
  decide

/-- Wherever 256 cells in a row begin, one of them is the ditch or behind the second run. -/
theorem ditch_short : ¬ List.replicate 256 1 <:+: ditch := by
  intro hblock
  obtain ⟨v, -, hones⟩ := List.infix_iff_getElem?.mp hblock
  simp only [List.length_replicate, List.getElem_replicate] at hones
  -- 256 cells in a row reach the gap, or start behind it and run out
  by_cases hv : v ≤ 255
  · have hone := hones (255 - v) (by omega)
    rw [show 255 - v + v = 255 by omega, ditch, List.getElem?_append_right (by
      rw [List.length_replicate]), List.length_replicate, Nat.sub_self,
      List.getElem?_cons_zero] at hone
    exact absurd (Option.some.inj hone) (by decide)
  · have hone := hones 255 (by omega)
    have hnext : 255 + v - 255 = v - 1 + 1 := by omega
    rw [ditch, List.getElem?_append_right (by rw [List.length_replicate]; omega),
      List.length_replicate, hnext, List.getElem?_cons_succ,
      List.getElem?_append_right (by rw [List.length_replicate]; omega)] at hone
    have hmem := List.mem_of_getElem? hone
    exact absurd (List.eq_of_mem_replicate hmem) (by decide)

/-- The longest runs that are listed in full. -/
theorem loadVBPts_agrees_iff_ditch :
    ∃ rledata, rleEncode ditch = .ok rledata ∧ (1 : UInt8) ∈ ditch ∧
      ∃ fuel octPts decoded, loadVBPts fuel rledata = .ok octPts ∧
        rleDecode cellCt rledata = .ok decoded ∧ IsCellList decoded octPts := by
  have hne := ne_nil_of_length_cellCt length_ditch
  have hmem : (1 : UInt8) ∈ ditch :=
    List.mem_append_left _ (List.mem_replicate.mpr ⟨by decide, rfl⟩)
  exact ⟨_, rleEncode_eq hne, hmem,
    (loadVBPts_agrees_iff length_ditch (rleEncode_eq hne)).mpr ditch_short⟩

/-- A chunk with one flat row of ground: the 256 cells of `y = 0`, `z = 0`. -/
def flatRow : List UInt8 := List.replicate 256 1 ++ List.replicate (cellCt - 256) 0

/-- On the flat row `LoadVB` does not return, so there is no list to agree on. -/
theorem loadVBPts_flatRow :
    flatRow.length = cellCt ∧ ∃ rledata, rleEncode flatRow = .ok rledata ∧
      ¬ ∃ fuel octPts, loadVBPts fuel rledata = .ok octPts := by
  have hlen : flatRow.length = cellCt := by
    rw [flatRow, List.length_append, List.length_replicate, List.length_replicate]
    decide
  have hne := ne_nil_of_length_cellCt hlen
  refine ⟨hlen, _, rleEncode_eq hne, ?_⟩
  rintro ⟨fuel, octPts, hok⟩
  have hblock : List.replicate 256 1 <:+: flatRow := (List.prefix_append _ _).isInfix
  rw [loadVBPts_never (rleEncode_eq hne) hblock fuel] at hok
  cases hok

end MapBg
