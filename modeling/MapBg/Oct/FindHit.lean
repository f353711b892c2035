import Mathlib.Data.Nat.Find
import MapBg.Lib.Line
import MapBg.Oct.LoadVB

/-!
# `OctTile::FindHit`: walking a line through the cells

`FindHit` clamps its two points to the cube and tests the cells on the line between them, one after
the other, until one holds something. What it walks is the rounded line (`linePoint`), axis by axis
the one of `Line.along`, with as many steps as the longest axis has.

The source writes the loop three times, once for each axis that can be the longest. They differ in
which coordinate plays which part, and in nothing else, so here the loop is written once: `u` is the
driving coordinate, `v` and `w` are the other two with their accumulators `p1` and `p2`, and `cell`
puts the three back in their places. The X branch drives with (x; y, z), the Y branch with
(y; x, z) and the Z branch with (z; y, x).

The loop runs `while (u != u2)`, so that it ends has to be proved, and each test reads
`data[y * 256 * 256 + z * 256 + x]` unchecked, so that it stays in the array has to be proved too.
A run that does not end is `.error .outOfFuel` at every step bound, a read outside the array is
`.error .readPastEnd`, and a run that returns says which cells it tested. That it walks the line and
nothing else is `findHit_eq_search`; `findHit_line` spells out what this means.
-/

set_option autoImplicit false

namespace MapBg

/-! ## The code -/

/-- What `FindHit` does, as a walk: the cells it has looked at, in order, and the one it returns. -/
structure Walk where
  tested : List Vec3i
  hit : Vec3i
  deriving DecidableEq, Repr

/-- The macro `R`. -/
def clampCell (x : Int) : Int := max 0 (min ((squarePtsCt : Int) - 1) x)

/-- A point is moved to the nearest cell of the tile. -/
def Vec3i.clamp (p : Vec3i) : Vec3i := ⟨clampCell p.x, clampCell p.y, clampCell p.z⟩

/-- The condition of the macro `checkhit`. -/
def checkHit (data : List UInt8) (c : Vec3i) : Except Stop Bool :=
  let i := c.y * squarePtsCt * squarePtsCt + c.z * squarePtsCt + c.x
  if i < 0 then .error .readPastEnd
  else match data[i.toNat]? with
    | some v => .ok (decide (v > 0))
    | none => .error .readPastEnd

def noHit : Vec3i := ⟨-1, -1, -1⟩

/-- The loop of one of the three cases, along the axis `u` on which the line is longest; `cell` puts
the coordinates back in their order. `p1` and `p2` decide when the other two axes step. -/
def driveLoop (data : List UInt8) (cell : Int → Int → Int → Vec3i) (u2 us vs ws du dv dw : Int) :
    Nat → Int → Int → Int → Int → Int → List Vec3i → Except Stop Walk
  | 0, _, _, _, _, _, _ => .error .outOfFuel
  | fuel + 1, u1, v1, w1, p1, p2, tested =>
    if u1 ≠ u2 then do
      let u1 := u1 + us
      let (v1, p1) := if p1 ≥ 0 then (v1 + vs, p1 - 2 * du) else (v1, p1)
      let (w1, p2) := if p2 ≥ 0 then (w1 + ws, p2 - 2 * du) else (w1, p2)
      let p1 := p1 + 2 * dv
      let p2 := p2 + 2 * dw
      let c := cell u1 v1 w1
      if ← checkHit data c then .ok ⟨tested ++ [c], c⟩
      else driveLoop data cell u2 us vs ws du dv dw fuel u1 v1 w1 p1 p2 (tested ++ [c])
    else .ok ⟨tested, noHit⟩

/-- `OctTile::FindHit`. The three cases differ in which axis drives the loop. -/
def findHit (fuel : Nat) (data : List UInt8) (pt1 pt2 : Vec3i) : Except Stop Walk := do
  let ⟨x1, y1, z1⟩ := pt1.clamp
  let ⟨x2, y2, z2⟩ := pt2.clamp
  let c : Vec3i := ⟨x1, y1, z1⟩
  if ← checkHit data c then .ok ⟨[c], c⟩
  else
    let dx : Int := (x2 - x1).natAbs
    let dy : Int := (y2 - y1).natAbs
    let dz : Int := (z2 - z1).natAbs
    let xs : Int := if x2 > x1 then 1 else -1
    let ys : Int := if y2 > y1 then 1 else -1
    let zs : Int := if z2 > z1 then 1 else -1
    -- the axis with the longest way drives, the first of them if there are several
    if dx ≥ dy ∧ dx ≥ dz then
      driveLoop data (fun x y z => ⟨x, y, z⟩) x2 xs ys zs dx dy dz fuel
        x1 y1 z1 (2 * dy - dx) (2 * dz - dx) [c]
    else if dy ≥ dx ∧ dy ≥ dz then
      driveLoop data (fun y x z => ⟨x, y, z⟩) y2 ys xs zs dy dx dz fuel
        y1 x1 z1 (2 * dx - dy) (2 * dz - dy) [c]
    else
      driveLoop data (fun z y x => ⟨x, y, z⟩) z2 zs ys xs dz dy dx fuel
        z1 y1 x1 (2 * dy - dz) (2 * dx - dz) [c]

/-! ## What it is for

The line between two cells, and the search for the first of a list of cells that is solid. -/

/-- The number of steps between two cells, along the axis on which they are furthest apart. -/
def span (a b : Vec3i) : Nat :=
  max (b.x - a.x).natAbs (max (b.y - a.y).natAbs (b.z - a.z).natAbs)

/-- The cells of the line between two cells: each coordinate is the exact one, rounded to the
nearest whole number. -/
def linePoint (a b : Vec3i) (k : Nat) : Vec3i :=
  ⟨Line.along a.x b.x (span a b) k, Line.along a.y b.y (span a b) k,
    Line.along a.z b.z (span a b) k⟩

def line (a b : Vec3i) : List Vec3i := (List.range (span a b + 1)).map (linePoint a b)

def solid (data : List UInt8) (c : Vec3i) : Bool :=
  decide ((data[(cellIndex c).toNat]?).getD 0 > 0)

/-- A search along some cells, without any arithmetic; what the loop has to come to. -/
def search (data : List UInt8) : List Vec3i → List Vec3i → Walk
  | tested, [] => ⟨tested, noHit⟩
  | tested, c :: cs =>
    if solid data c then ⟨tested ++ [c], c⟩ else search data (tested ++ [c]) cs

/-! ## The line -/

/-- In the cube. -/
structure Vec3i.InCube (c : Vec3i) : Prop where
  x : 0 ≤ c.x ∧ c.x ≤ 255
  y : 0 ≤ c.y ∧ c.y ≤ 255
  z : 0 ≤ c.z ∧ c.z ≤ 255

theorem clampCell_mem (x : Int) : 0 ≤ clampCell x ∧ clampCell x ≤ 255 := by
  unfold clampCell squarePtsCt
  omega

theorem inCube_clamp (p : Vec3i) : p.clamp.InCube :=
  ⟨clampCell_mem p.x, clampCell_mem p.y, clampCell_mem p.z⟩

theorem Vec3i.InCube.cellIndex {c : Vec3i} (h : c.InCube) :
    0 ≤ cellIndex c ∧ cellIndex c < 256 ^ 3 := by
  obtain ⟨hx, hy, hz⟩ := h
  unfold MapBg.cellIndex
  omega

section Line

variable {a b : Vec3i}

theorem linePoint_zero : linePoint a b 0 = a := by
  rw [linePoint, Line.along_zero, Line.along_zero, Line.along_zero]

theorem linePoint_last : linePoint a b (span a b) = b := by
  rw [linePoint, Line.along_last (by unfold span; omega), Line.along_last (by unfold span; omega),
    Line.along_last (by unfold span; omega)]

/-- A line between two cells of the tile does not leave it, so the data is never read past its end.
-/
theorem inCube_linePoint (ha : a.InCube) (hb : b.InCube) {k : Nat} (hk : k ≤ span a b) :
    (linePoint a b k).InCube :=
  ⟨Line.along_between hk (by unfold span; omega) ha.x hb.x,
    Line.along_between hk (by unfold span; omega) ha.y hb.y,
    Line.along_between hk (by unfold span; omega) ha.z hb.z⟩

theorem span_le (ha : a.InCube) (hb : b.InCube) : span a b ≤ 255 := by
  obtain ⟨⟨hx, hx'⟩, ⟨hy, hy'⟩, hz, hz'⟩ := ha
  obtain ⟨⟨gx, gx'⟩, ⟨gy, gy'⟩, gz, gz'⟩ := hb
  unfold span
  omega

theorem line_eq_cons : line a b = a :: (List.range' 1 (span a b)).map (linePoint a b) := by
  rw [line, List.range_eq_range', List.range'_succ, List.map_cons, linePoint_zero]

end Line

/-- Inside the tile, the test of the source is a look at the cell. -/
theorem checkHit_eq {data : List UInt8} (hlen : data.length = cellCt) {c : Vec3i}
    (hc : c.InCube) : checkHit data c = .ok (solid data c) := by
  obtain ⟨hpos, hlt⟩ := hc.cellIndex
  have hindex : c.y * squarePtsCt * squarePtsCt + c.z * squarePtsCt + c.x = cellIndex c := rfl
  have hin : (cellIndex c).toNat < data.length := by
    rw [hlen]
    unfold cellCt squarePtsCt
    omega
  rw [checkHit]
  simp only [hindex, if_neg (Int.not_lt.mpr hpos)]
  rw [solid, List.getElem?_eq_getElem hin]
  rfl

/-! ## The loop -/

section Drive

variable {data : List UInt8} {cell : Int → Int → Int → Vec3i} {u1 u2 v1 v2 w1 w2 : Int} {D : Nat}

/-- From the `k`-th cell on, the loop searches the rest of the line. The accumulators are
`Line.err`, and the induction is on the number of steps to go. -/
theorem driveLoop_eq_search (hu : (u2 - u1).natAbs = D) (hv : (v2 - v1).natAbs ≤ D)
    (hw : (w2 - w1).natAbs ≤ D) (hcheck : ∀ k ≤ D,
      checkHit data (cell (Line.along u1 u2 D k) (Line.along v1 v2 D k) (Line.along w1 w2 D k))
        = .ok (solid data
            (cell (Line.along u1 u2 D k) (Line.along v1 v2 D k) (Line.along w1 w2 D k)))) :
    ∀ (n k fuel : Nat) (tested : List Vec3i), k + n = D → n < fuel →
      driveLoop data cell u2 (Line.dir u1 u2) (Line.dir v1 v2) (Line.dir w1 w2) D
          (v2 - v1).natAbs (w2 - w1).natAbs fuel
          (Line.along u1 u2 D k) (Line.along v1 v2 D k) (Line.along w1 w2 D k)
          (Line.err (v2 - v1).natAbs D k) (Line.err (w2 - w1).natAbs D k) tested
        = .ok (search data tested ((List.range' (k + 1) n).map fun j =>
            cell (Line.along u1 u2 D j) (Line.along v1 v2 D j) (Line.along w1 w2 D j))) := by
  intro n
  -- on the steps that are left; the errors are those of the exact line at step `k`
  induction n with
  | zero =>
    intro k fuel tested hk hfuel
    obtain ⟨fuel, rfl⟩ : ∃ m, fuel = m + 1 := ⟨fuel - 1, by omega⟩
    have hend : Line.along u1 u2 D k = u2 :=
      (Line.along_drive_eq_iff hu (by omega)).mpr (by omega)
    rw [driveLoop, if_neg (by simp [hend])]
    rfl
  | succ n ih =>
    intro k fuel tested hk hfuel
    obtain ⟨fuel, rfl⟩ : ∃ m, fuel = m + 1 := ⟨fuel - 1, by omega⟩
    have hD : 0 < D := by omega
    -- the loop tests for the end on the driving axis only, which gets there last
    have hgoes : Line.along u1 u2 D k ≠ u2 := by
      rw [Ne, Line.along_drive_eq_iff hu (by omega)]
      omega
    rw [driveLoop, if_pos hgoes, List.range'_succ, List.map_cons, search]
    simp only [Line.pass_eq hD hv, Line.pass_eq hD hw, ← Line.along_drive_succ hD hu,
      Int.sub_add_cancel, hcheck (k + 1) (by omega)]
    show (if solid data _ = true then _ else _) = _
    split
    · rfl
    · exact ih (k + 1) fuel _ (by omega) (by omega)

/-- The loop with the numbers the source starts it with. -/
theorem driveLoop_start (hu : (u2 - u1).natAbs = D) (hv : (v2 - v1).natAbs ≤ D)
    (hw : (w2 - w1).natAbs ≤ D) (hcheck : ∀ k ≤ D,
      checkHit data (cell (Line.along u1 u2 D k) (Line.along v1 v2 D k) (Line.along w1 w2 D k))
        = .ok (solid data
            (cell (Line.along u1 u2 D k) (Line.along v1 v2 D k) (Line.along w1 w2 D k))))
    {fuel : Nat} (hfuel : D < fuel) (tested : List Vec3i) :
    driveLoop data cell u2 (if u2 > u1 then 1 else -1) (if v2 > v1 then 1 else -1)
        (if w2 > w1 then 1 else -1) (u2 - u1).natAbs (v2 - v1).natAbs (w2 - w1).natAbs fuel
        u1 v1 w1 (2 * (v2 - v1).natAbs - (u2 - u1).natAbs)
        (2 * (w2 - w1).natAbs - (u2 - u1).natAbs) tested
      = .ok (search data tested ((List.range' 1 D).map fun j =>
          cell (Line.along u1 u2 D j) (Line.along v1 v2 D j) (Line.along w1 w2 D j))) := by
  have hloop := driveLoop_eq_search hu hv hw hcheck D 0 fuel tested (Nat.zero_add D) hfuel
  simp only [Line.along_zero, Line.err_zero] at hloop
  rw [hu]
  exact hloop

end Drive

/-- **`FindHit` searches the line between the clamped points.** -/
theorem findHit_eq_search {data : List UInt8} (hlen : data.length = cellCt) (pt1 pt2 : Vec3i)
    {fuel : Nat} (hfuel : span pt1.clamp pt2.clamp < fuel) :
    findHit fuel data pt1 pt2 = .ok (search data [] (line pt1.clamp pt2.clamp)) := by
  have ha := inCube_clamp pt1
  have hb := inCube_clamp pt2
  rw [findHit]
  generalize pt1.clamp = a at ha hfuel ⊢
  generalize pt2.clamp = b at hb hfuel ⊢
  have hcheck : ∀ k ≤ span a b,
      checkHit data (linePoint a b k) = .ok (solid data (linePoint a b k)) :=
    fun k hk => checkHit_eq hlen (inCube_linePoint ha hb hk)
  have hsearch : search data [] (line a b) = if solid data a then ⟨[a], a⟩
      else search data [a] ((List.range' 1 (span a b)).map (linePoint a b)) := by
    rw [line_eq_cons, search]
    rfl
  simp only [checkHit_eq hlen ha, hsearch]
  show (if solid data a = true then _ else _) = _
  split
  · rfl
  -- each branch is the loop at its own axes, and the longest axis is as long as the line
  · split
    · refine driveLoop_start ?_ ?_ ?_ ?_ hfuel [a]
      all_goals first | exact hcheck | (unfold span; omega)
    · split
      · refine driveLoop_start ?_ ?_ ?_ ?_ hfuel [a]
        all_goals first | exact hcheck | (unfold span; omega)
      · refine driveLoop_start ?_ ?_ ?_ ?_ hfuel [a]
        all_goals first | exact hcheck | (unfold span; omega)

/-! ## The search -/

section Search

variable {data : List UInt8} {cells : List Vec3i} {tested : List Vec3i}

theorem search_none (h : ∀ c ∈ cells, solid data c = false) :
    search data tested cells = ⟨tested ++ cells, noHit⟩ := by
  induction cells generalizing tested with
  | nil => rw [search, List.append_nil]
  | cons c cells ih =>
    have hc := h c List.mem_cons_self
    rw [search, if_neg (by simp [hc]), ih fun c' hc' => h c' (List.mem_cons_of_mem _ hc'),
      List.append_assoc, List.singleton_append]

theorem search_first {c : Vec3i} {rest : List Vec3i} (h : ∀ c ∈ cells, solid data c = false)
    (hc : solid data c = true) :
    search data tested (cells ++ c :: rest) = ⟨tested ++ cells ++ [c], c⟩ := by
  induction cells generalizing tested with
  | nil => rw [List.nil_append, search, if_pos hc, List.append_nil]
  | cons c' cells ih =>
    have hc' := h c' List.mem_cons_self
    rw [List.cons_append, search, if_neg (by simp [hc']),
      ih fun d hd => h d (List.mem_cons_of_mem _ hd)]
    simp

end Search

/-- The line up to its `k`-th cell, that cell, and the rest. -/
theorem line_split {a b : Vec3i} {k : Nat} (hk : k ≤ span a b) :
    ∃ rest, line a b = (List.range k).map (linePoint a b) ++ linePoint a b k :: rest := by
  refine ⟨(List.range' (k + 1) (span a b - k)).map (linePoint a b), ?_⟩
  have hsplit := @List.range'_append_1 0 k (span a b - k + 1)
  rw [Nat.zero_add, show k + (span a b - k + 1) = span a b + 1 by omega] at hsplit
  rw [line, ← List.map_cons, ← List.range'_succ, ← List.map_append, List.range_eq_range',
    List.range_eq_range', hsplit]

theorem forall_range_linePoint {data : List UInt8} {a b : Vec3i} {n : Nat}
    (h : ∀ j < n, solid data (linePoint a b j) = false) :
    ∀ c ∈ (List.range n).map (linePoint a b), solid data c = false := by
  intro c hc
  obtain ⟨j, hj, rfl⟩ := List.mem_map.mp hc
  exact h j (List.mem_range.mp hj)

/-- The `k`-th cell of the line is the first solid one. -/
structure FirstHit (data : List UInt8) (a b : Vec3i) (k : Nat) : Prop where
  on_line : k ≤ span a b
  hit : solid data (linePoint a b k) = true
  first : ∀ j < k, solid data (linePoint a b j) = false

theorem FirstHit.unique {data : List UInt8} {a b : Vec3i} {j k : Nat} (hj : FirstHit data a b j)
    (hk : FirstHit data a b k) : j = k := by
  rcases Nat.lt_trichotomy j k with hlt | heq | hgt
  · exact absurd hj.hit (by simp [hk.first j hlt])
  · exact heq
  · exact absurd hk.hit (by simp [hj.first k hgt])

/-- Either there is a first cell that is solid, or there is none at all. -/
theorem firstHit_or_none (data : List UInt8) (a b : Vec3i) :
    (∃ k, FirstHit data a b k) ∨ ∀ k ≤ span a b, solid data (linePoint a b k) = false := by
  by_cases h : ∃ k, k ≤ span a b ∧ solid data (linePoint a b k) = true
  · refine .inl ⟨Nat.find h, (Nat.find_spec h).1, (Nat.find_spec h).2, fun j hj => ?_⟩
    have hle := (Nat.find_spec h).1
    simpa using fun hsolid => Nat.find_min h hj ⟨by omega, hsolid⟩
  · refine .inr fun k hk => ?_
    simpa using fun hsolid => h ⟨k, hk, hsolid⟩

theorem search_line_none {data : List UInt8} {a b : Vec3i}
    (h : ∀ k ≤ span a b, solid data (linePoint a b k) = false) :
    search data [] (line a b) = ⟨line a b, noHit⟩ :=
  search_none (forall_range_linePoint fun j hj => h j (by omega))

theorem FirstHit.search_line {data : List UInt8} {a b : Vec3i} {k : Nat} (h : FirstHit data a b k) :
    search data [] (line a b)
      = ⟨(List.range (k + 1)).map (linePoint a b), linePoint a b k⟩ := by
  obtain ⟨rest, hrest⟩ := line_split h.on_line
  rw [hrest, search_first (forall_range_linePoint h.first) h.hit, List.range_succ]
  simp

/-- **`FindHit` walks the exact rounded line and stays in range.** It returns; the cells it tests
are those of the line, from the clamped first point to the first solid cell or else to the clamped
second point; each of them is in the array; and the result is the first solid cell. -/
theorem findHit_line {data : List UInt8} (hlen : data.length = cellCt) (pt1 pt2 : Vec3i)
    {fuel : Nat} (hfuel : span pt1.clamp pt2.clamp < fuel) :
    ∃ w, findHit fuel data pt1 pt2 = .ok w ∧
      linePoint pt1.clamp pt2.clamp 0 = pt1.clamp ∧
      linePoint pt1.clamp pt2.clamp (span pt1.clamp pt2.clamp) = pt2.clamp ∧
      (∀ k ≤ span pt1.clamp pt2.clamp, 0 ≤ cellIndex (linePoint pt1.clamp pt2.clamp k) ∧
        cellIndex (linePoint pt1.clamp pt2.clamp k) < 256 ^ 3) ∧
      ((∀ k ≤ span pt1.clamp pt2.clamp, solid data (linePoint pt1.clamp pt2.clamp k) = false) →
        w.tested = line pt1.clamp pt2.clamp ∧ w.hit = ⟨-1, -1, -1⟩) ∧
      ∀ k, FirstHit data pt1.clamp pt2.clamp k →
        w.tested = (List.range (k + 1)).map (linePoint pt1.clamp pt2.clamp) ∧
        w.hit = linePoint pt1.clamp pt2.clamp k := by
  refine ⟨_, findHit_eq_search hlen pt1 pt2 hfuel, linePoint_zero, linePoint_last, fun k hk => ?_,
    fun hnone => ?_, fun k hk => ?_⟩
  · exact (inCube_linePoint (inCube_clamp pt1) (inCube_clamp pt2) hk).cellIndex
  · rw [search_line_none hnone]
    exact ⟨rfl, rfl⟩
  · rw [hk.search_line]
    exact ⟨rfl, rfl⟩

/-- A cube that is empty but for one cell. -/
def loneCell (i : Nat) : List UInt8 := (List.replicate cellCt 0).set i 1

theorem length_loneCell (i : Nat) : (loneCell i).length = cellCt := by
  rw [loneCell, List.length_set, List.length_replicate]

theorem solid_loneCell {i : Nat} (hi : i < cellCt) (c : Vec3i) :
    solid (loneCell i) c = decide ((cellIndex c).toNat = i) := by
  rw [solid, loneCell, List.getElem?_set, List.length_replicate, List.getElem?_replicate]
  by_cases heq : i = (cellIndex c).toNat
  · rw [if_pos heq, if_pos hi, decide_eq_true heq.symm]
    rfl
  · rw [if_neg heq, decide_eq_false (Ne.symm heq)]
    split <;> rfl

/-- The solid cell is (100, 3, 1). -/
def obstacle : List UInt8 := loneCell (3 * 65536 + 1 * 256 + 100)

theorem length_obstacle : obstacle.length = cellCt := length_loneCell _

/-- From one face of the cube to the other, with the obstacle two fifths along. -/
theorem firstHit_obstacle : FirstHit obstacle ⟨0, 0, 0⟩ ⟨255, 7, 2⟩ 100 where
  on_line := by decide
  hit := by
    rw [obstacle, solid_loneCell (by decide)]
    decide
  first j hj := by
    rw [obstacle, solid_loneCell (by decide)]
    revert j
    decide

theorem findHit_line_obstacle :
    ∃ w, findHit 256 obstacle ⟨-5, 0, 0⟩ ⟨300, 7, 2⟩ = .ok w ∧
      w.tested = (List.range 101).map (linePoint ⟨0, 0, 0⟩ ⟨255, 7, 2⟩) ∧
      w.hit = ⟨100, 3, 1⟩ := by
  obtain ⟨w, hw, -, -, -, -, hhit⟩ :=
    findHit_line length_obstacle ⟨-5, 0, 0⟩ ⟨300, 7, 2⟩ (show _ < 256 by decide)
  exact ⟨w, hw, hhit 100 firstHit_obstacle⟩

end MapBg
