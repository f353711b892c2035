import Mathlib.Data.Rat.Floor
import Mathlib.LinearAlgebra.Matrix.Notation
import Mathlib.LinearAlgebra.Matrix.NonsingularInverse
import MapBg.Lib.Elimination
import MapBg.Loc.Exact

/-!
# gmtl's matrices, and how they are inverted

`gmtl::invert` looks at the kind of the matrix, which the operations keep track of. The camera's
matrix is of the kind `FULL`, as everything is that was made with `set`, and for that kind there is
`invertFull_orig`: elimination with the largest entry of the rows and columns left as the pivot. The
working matrix has the matrix on the left and the identity on the right; `left` and `right` are the
two halves. The data of a matrix is stored by columns and read by rows, so that what is inverted is
the transpose, and the result is stored in the same way.

If there is an inverse, and its entries are not in the order of 10²⁰, that is what comes out
(`invertFull_eq`). The proof does not depend on how the pivot is found, only on that none of the
entries left is larger: see `Elimination`.

If there is none, the documented error bit is not to be relied on. When the entries left are all 0,
the search keeps the row and the column it starts with, which are 0, and the pivot is read from
there. If that row and that column were used before, it is 1.
-/

set_option autoImplicit false

namespace MapBg

namespace Gmtl

variable {F : Type} [FloatLike F] {n : Nat}

/-! ## The code -/

/-- The product is added up from 0, in the order of the columns. -/
def mult (lhs rhs : Matrix (Fin n) (Fin n) F) : Matrix (Fin n) (Fin n) F := fun i j =>
  (List.finRange n).foldl (fun sum k => sum + lhs i k * rhs k j) (FloatLike.ofInt 0)

/-- `xform` of a vector, added up in the same way. -/
def xform (matrix : Matrix (Fin n) (Fin n) F) (vector : Fin n → F) : Fin n → F := fun i =>
  (List.finRange n).foldl (fun sum k => sum + matrix i k * vector k) (FloatLike.ofInt 0)

/-! The coordinates, by their names in gmtl. -/

def Xelt : Fin 4 := (Fin.last 0).castSucc.castSucc.castSucc

def Yelt : Fin 4 := (Fin.last 1).castSucc.castSucc

def Zelt : Fin 4 := (Fin.last 2).castSucc

def Welt : Fin 4 := Fin.last 3

theorem elt_eq : Xelt = 0 ∧ Yelt = 1 ∧ Zelt = 2 ∧ Welt = 3 := ⟨rfl, rfl, rfl, rfl⟩

section Invert

/-- The working matrix, the rows and columns that have had their pivot, and `r[k]` and `c[k]`. -/
structure Work (F : Type) (n : Nat) where
  left : Matrix (Fin n) (Fin n) F
  right : Matrix (Fin n) (Fin n) F
  row : Fin n → Bool
  col : Fin n → Bool
  pivots : List (Fin n × Fin n)

/-- `max_m`, `r[k]` and `c[k]`. -/
structure Best (F : Type) (n : Nat) where
  max_m : F
  r : Fin n
  c : Fin n

/-- `a` is the data of the matrix, by rows. -/
def Work.start (a : Matrix (Fin n) (Fin n) F) : Work F n where
  left := a
  right i j := if i = j then FloatLike.ofInt 1 else FloatLike.ofInt 0
  row _ := false
  col _ := false
  pivots := []

/-- The two loops of the search, row by row. -/
def entries (n : Nat) : List (Fin n × Fin n) :=
  (List.finRange n).flatMap fun i => (List.finRange n).map fun j => (i, j)

/-- An entry in a row and a column with no pivot yet, larger than those before. -/
def Work.consider (w : Work F n) (best : Best F n) (entry : Fin n × Fin n) : Best F n :=
  if w.row entry.1 then best
  else if w.col entry.2 then best
  else
    let tmp_m := mathAbs (w.left entry.1 entry.2)
    if FloatLike.lt best.max_m tmp_m then ⟨tmp_m, entry.1, entry.2⟩ else best

/-- The search for the pivot. What it starts with is also what it finds if all that is left is 0. -/
def Work.choosePivot [NeZero n] (w : Work F n) : Best F n :=
  (entries n).foldl w.consider ⟨FloatLike.ofInt 0, 0, 0⟩

/-- The normalization of the pivot's row and the reduction of the others. -/
def Work.reduce (w : Work F n) (r c : Fin n) : Work F n :=
  let pivot := w.left r c
  let leftRow := fun j => if j = c then FloatLike.ofInt 1 else w.left r j / pivot
  let rightRow := fun j => w.right r j / pivot
  { left := fun i j =>
      if i = r then leftRow j
      else if j = c then FloatLike.ofInt 0
      else w.left i j - w.left i c * leftRow j
    right := fun i j => if i = r then rightRow j else w.right i j - w.left i c * rightRow j
    row := fun i => if i = r then true else w.row i
    col := fun j => if j = c then true else w.col j
    pivots := w.pivots ++ [(r, c)] }

/-- `1e-20`. -/
def tiny : F := FloatLike.ofInt 1 / FloatLike.ofInt (10 ^ 20)

variable [LE F] [DecidableLE F] [NeZero n]

/-- One round of the elimination, which may end with the error. -/
def Work.step (w : Work F n) : Option (Work F n) :=
  let best := w.choosePivot
  if mathAbs (w.left best.r best.c) ≤ tiny then none else some (w.reduce best.r best.c)

/-- `for (k = 0; k < n; ++k)`. -/
def Work.loop : Nat → Work F n → Option (Work F n)
  | 0, w => some w
  | k + 1, w => do
    let w ← w.step
    w.loop k

/-- `row` is used once more, for where the rows of the inverse are. -/
def Work.rowOf (w : Work F n) (i : Fin n) : Fin n :=
  w.pivots.foldl (fun row q => if q.2 = i then q.1 else row) (if w.row i then 1 else 0)

/-- `invertFull_orig`, with no value for the error bit. The data is stored by columns, so it is the
transpose that is inverted, and transposed again. -/
def invertFull (src : Matrix (Fin n) (Fin n) F) : Option (Matrix (Fin n) (Fin n) F) := do
  let w ← (Work.start fun i j => src j i).loop n
  return fun j i => w.right (w.rowOf i) j

/-- `invert` of a `Matrix44f`, in place. With the error it stays as it is. -/
def invert (mat : Matrix (Fin 4) (Fin 4) F) : Matrix (Fin 4) (Fin 4) F :=
  (invertFull mat).getD mat

end Invert

/-! ## In exact arithmetic -/

section Exact

variable {K : Type} [Field K] [LinearOrder K] [FloorRing K]

theorem foldl_sum (f : Fin n → K) :
    (List.finRange n).foldl (fun sum k => sum + f k) (FloatLike.ofInt 0) = ∑ k, f k := by
  have hfold : ∀ (l : List (Fin n)) (s : K),
      l.foldl (fun sum k => sum + f k) s = s + (l.map f).sum := by
    intro l
    induction l with
    | nil => exact fun s => (add_zero s).symm
    | cons k l ih =>
      intro s
      rw [List.foldl_cons, ih, List.map_cons, List.sum_cons, add_assoc]
  rw [Fin.sum_univ_def, hfold, ofInt_exact, Int.cast_zero, zero_add]

theorem mult_exact (lhs rhs : Matrix (Fin n) (Fin n) K) : mult lhs rhs = lhs * rhs := by
  ext i j
  exact (foldl_sum fun k => lhs i k * rhs k j).trans Matrix.mul_apply.symm

theorem xform_exact (matrix : Matrix (Fin n) (Fin n) K) (vector : Fin n → K) :
    xform matrix vector = matrix.mulVec vector := by
  ext i
  exact foldl_sum fun k => matrix i k * vector k

variable [IsStrictOrderedRing K]

/-! ### The pivot -/

/-- The entry is in a row and a column that are left. -/
def Work.Left (w : Work K n) (entry : Fin n × Fin n) : Prop :=
  w.row entry.1 = false ∧ w.col entry.2 = false

theorem mem_entries (entry : Fin n × Fin n) : entry ∈ entries n := by
  simp [entries]

/-- The search ends with the first entry it started with, or with one of those left, and none of
those is larger. -/
theorem Work.foldl_consider (w : Work K n) (l : List (Fin n × Fin n)) (best : Best K n) :
    let out := l.foldl w.consider best
    best.max_m ≤ out.max_m ∧ (∀ entry ∈ l, w.Left entry → |w.left entry.1 entry.2| ≤ out.max_m) ∧
      (out = best ∨ w.Left (out.r, out.c) ∧ out.max_m = |w.left out.r out.c|) := by
  induction l generalizing best with
  | nil => exact ⟨le_refl _, by simp, .inl rfl⟩
  | cons entry l ih =>
    -- one entry; the rest is the induction hypothesis from there
    have hstep : best.max_m ≤ (w.consider best entry).max_m ∧
        (w.Left entry → |w.left entry.1 entry.2| ≤ (w.consider best entry).max_m) ∧
        (w.consider best entry = best ∨
          w.Left ((w.consider best entry).r, (w.consider best entry).c) ∧
          (w.consider best entry).max_m
            = |w.left (w.consider best entry).r (w.consider best entry).c|) := by
      unfold consider
      rw [mathAbs_exact]
      split
      · next hrow => exact ⟨le_refl _, fun h => absurd (h.1.symm.trans hrow) (by simp), .inl rfl⟩
      · next hrow =>
        split
        · next hcol => exact ⟨le_refl _, fun h => absurd (h.2.symm.trans hcol) (by simp), .inl rfl⟩
        · next hcol =>
          rw [Bool.not_eq_true] at hrow hcol
          dsimp only
          split
          · next hlt => exact ⟨(lt_exact.mp hlt).le, fun _ => le_refl _, .inr ⟨⟨hrow, hcol⟩, rfl⟩⟩
          · next hlt =>
            exact ⟨le_refl _, fun _ => lt_exact_false.mp (Bool.not_eq_true _ ▸ hlt), .inl rfl⟩
    obtain ⟨hle, hall, hout⟩ := ih (w.consider best entry)
    refine ⟨hstep.1.trans hle, ?_, ?_⟩
    · intro entry' hentry' hleft
      rcases List.mem_cons.mp hentry' with rfl | hentry'
      · exact (hstep.2.1 hleft).trans hle
      · exact hall entry' hentry' hleft
    · rcases hout with hout | hout
      · rw [List.foldl_cons, hout]
        exact hstep.2.2
      · exact .inr hout

/-- A pivot that is not 0 was found by the search and is among what is left. -/
theorem Work.choosePivot_spec [NeZero n] (w : Work K n) (hpos : 0 < w.choosePivot.max_m) :
    w.Left (w.choosePivot.r, w.choosePivot.c) ∧
      w.choosePivot.max_m = |w.left w.choosePivot.r w.choosePivot.c| := by
  refine (w.foldl_consider (entries n) ⟨FloatLike.ofInt 0, 0, 0⟩).2.2.resolve_left fun heq => ?_
  have hzero : w.choosePivot.max_m = ((0 : Int) : K) := congrArg Best.max_m heq
  rw [hzero, Int.cast_zero] at hpos
  exact lt_irrefl 0 hpos

theorem Work.le_choosePivot [NeZero n] (w : Work K n) (entry : Fin n × Fin n) (h : w.Left entry) :
    |w.left entry.1 entry.2| ≤ w.choosePivot.max_m :=
  (w.foldl_consider (entries n) ⟨FloatLike.ofInt 0, 0, 0⟩).2.1 entry (mem_entries entry) h

/-! ### The loop -/

/-- What holds at the top of the loop. -/
structure Work.Inv (A : Matrix (Fin n) (Fin n) K) (w : Work K n) : Prop where
  reduced : Elimination.Reduced A w.left w.right w.pivots
  row : ∀ i, w.row i = true ↔ i ∈ w.pivots.map Prod.fst
  col : ∀ j, w.col j = true ↔ j ∈ w.pivots.map Prod.snd
  rows : (w.pivots.map Prod.fst).Nodup
  cols : (w.pivots.map Prod.snd).Nodup

variable {A B : Matrix (Fin n) (Fin n) K} {w : Work K n}

omit [IsStrictOrderedRing K] in
theorem Work.inv_start (A : Matrix (Fin n) (Fin n) K) : (Work.start A).Inv A := by
  have hone : (Work.start A).right = 1 := by
    ext i j
    rw [Matrix.one_apply]
    show (if i = j then ((1 : Int) : K) else ((0 : Int) : K)) = _
    rw [Int.cast_one, Int.cast_zero]
  refine ⟨?_, ?_, ?_, List.nodup_nil, List.nodup_nil⟩
  · rw [hone]
    exact Elimination.reduced_start A
  · intro i
    exact iff_of_false Bool.false_ne_true (by simp [start])
  · intro j
    exact iff_of_false Bool.false_ne_true (by simp [start])

omit [IsStrictOrderedRing K] in
/-- Setting the column of the pivot is what dividing and subtracting would come to. -/
theorem Work.left_reduce (w : Work K n) {r c : Fin n} (hp : w.left r c ≠ 0) :
    (w.reduce r c).left = Elimination.sweep (w.left · c) (w.left r c) r w.left := by
  ext i j
  simp only [reduce, Elimination.sweep, ofInt_exact, Int.cast_one, Int.cast_zero]
  by_cases hj : j = c
  · rw [if_pos hj, if_pos hj, hj, div_self hp, mul_one, sub_self]
  · rw [if_neg hj, if_neg hj]

omit [LinearOrder K] [FloorRing K] [IsStrictOrderedRing K] in
theorem Work.Left.notMem {q : Fin n × Fin n} (hq : w.Left q) (h : w.Inv A) :
    q.1 ∉ w.pivots.map Prod.fst ∧ q.2 ∉ w.pivots.map Prod.snd := by
  rw [← h.row, ← h.col, hq.1, hq.2]
  exact ⟨Bool.false_ne_true, Bool.false_ne_true⟩

omit [IsStrictOrderedRing K] in
/-- One round keeps the invariant, by the rule for a row operation of `Elimination`. -/
theorem Work.Inv.reduce (h : w.Inv A) {r c : Fin n} (hleft : w.Left (r, c))
    (hp : w.left r c ≠ 0) : (w.reduce r c).Inv A := by
  obtain ⟨hrow, hcol⟩ := hleft.notMem h
  have hpivots : (w.reduce r c).pivots = w.pivots ++ [(r, c)] := rfl
  -- the row operation, the two arrays of flags, and that no row or column is used twice
  refine ⟨?_, fun i => ?_, fun j => ?_, ?_, ?_⟩
  · rw [w.left_reduce hp]
    refine h.reduced.step (fun q hq heq => hrow ?_) hp
    exact List.mem_map.mpr ⟨q, hq, heq⟩
  · rw [hpivots, List.map_append, List.mem_append, ← h.row]
    show (if i = r then true else w.row i) = true ↔ _
    split
    · next hi => simp [hi]
    · next hi => simp [hi]
  · rw [hpivots, List.map_append, List.mem_append, ← h.col]
    show (if j = c then true else w.col j) = true ↔ _
    split
    · next hj => simp [hj]
    · next hj => simp [hj]
  · rw [hpivots, List.map_append]
    exact List.nodup_append_comm.mp (List.nodup_cons.mpr ⟨hrow, h.rows⟩)
  · rw [hpivots, List.map_append]
    exact List.nodup_append_comm.mp (List.nodup_cons.mpr ⟨hcol, h.cols⟩)

theorem exists_unused {pivots : List (Fin n × Fin n)} (hlt : pivots.length < n) :
    ∃ i, ∀ q ∈ pivots, q.1 ≠ i := by
  by_contra hall
  push Not at hall
  have hsub : Finset.univ ⊆ (pivots.map Prod.fst).toFinset := fun i _ => by
    obtain ⟨q, hq, rfl⟩ := hall i
    exact List.mem_toFinset.mpr (List.mem_map_of_mem hq)
  have hcard := (Finset.card_le_card hsub).trans (List.toFinset_card_le _)
  rw [Finset.card_univ, Fintype.card_fin, List.length_map] at hcard
  exact absurd hlt (not_lt.mpr hcard)

variable [NeZero n] {M : K}

/-- If there is an inverse with small entries, what is left cannot all be tiny: some row is unused,
and its product with the inverse is a row of the identity. -/
theorem Work.Inv.lt_choosePivot (h : w.Inv A) (hlt : w.pivots.length < n) (hB : A * B = 1)
    (hM : ∀ i j, |B i j| ≤ M) (hsmall : n * M < 10 ^ 20) : 1 / 10 ^ 20 < w.choosePivot.max_m := by
  obtain ⟨i, hi⟩ := exists_unused hlt
  have h0 : 0 ≤ w.choosePivot.max_m :=
    Int.cast_zero.symm.le.trans (w.foldl_consider (entries n) ⟨FloatLike.ofInt 0, 0, 0⟩).1
  have hrow : w.row i = false := by
    rw [← Bool.not_eq_true, h.row]
    exact fun hmem => by
      obtain ⟨q, hq, heq⟩ := List.mem_map.mp hmem
      exact hi q hq heq
  -- the columns with a pivot are 0 in a row without one
  have hbound : ∀ j, |w.left i j| ≤ w.choosePivot.max_m := by
    intro j
    cases hcol : w.col j with
    | true =>
      obtain ⟨q, hq, rfl⟩ := List.mem_map.mp ((h.col j).mp hcol)
      rw [h.reduced.eq_zero hi hq, abs_zero]
      exact h0
    | false => exact w.le_choosePivot (i, j) ⟨hrow, hcol⟩
  -- the row times a column of the inverse is 1, so its entries are not all small
  have hone := h.reduced.one_le hB hi hbound fun j => hM j i
  rw [Fintype.card_fin, mul_left_comm] at hone
  have hpos : 0 < w.choosePivot.max_m := by
    rcases h0.lt_or_eq with hpos | hzero
    · exact hpos
    · rw [← hzero, zero_mul] at hone
      exact absurd zero_lt_one (not_lt.mpr hone)
  rw [div_lt_iff₀ (by positivity)]
  exact hone.trans_lt (mul_lt_mul_of_pos_left hsmall hpos)

/-- So no round ends with the error. -/
theorem Work.Inv.step (h : w.Inv A) (hlt : w.pivots.length < n) (hB : A * B = 1)
    (hM : ∀ i j, |B i j| ≤ M) (hsmall : n * M < 10 ^ 20) :
    ∃ w', w.step = some w' ∧ w'.Inv A ∧ w'.pivots.length = w.pivots.length + 1 := by
  have hmax := h.lt_choosePivot hlt hB hM hsmall
  have hpos : 0 < w.choosePivot.max_m := lt_trans (by positivity) hmax
  obtain ⟨hleft, heq⟩ := w.choosePivot_spec hpos
  have htiny : (tiny : K) = 1 / 10 ^ 20 := by
    rw [tiny, ofInt_exact, ofInt_exact]
    norm_num
  refine ⟨_, if_neg ?_, h.reduce hleft ?_, List.length_append⟩
  · rw [mathAbs_exact, ← heq, htiny]
    exact not_le.mpr hmax
  · exact abs_pos.mp (heq ▸ hpos)

theorem Work.Inv.loop (hB : A * B = 1) (hM : ∀ i j, |B i j| ≤ M) (hsmall : n * M < 10 ^ 20)
    (k : Nat) {w : Work K n} (h : w.Inv A) (hk : w.pivots.length + k = n) :
    ∃ w', w.loop k = some w' ∧ w'.Inv A ∧ w'.pivots.length = n := by
  induction k generalizing w with
  | zero => exact ⟨w, rfl, h, hk⟩
  | succ k ih =>
    obtain ⟨w₁, hstep, hinv, hlen⟩ := h.step (by omega) hB hM hsmall
    obtain ⟨w', hloop, hinv', hlen'⟩ := ih hinv (by omega)
    refine ⟨w', ?_, hinv', hlen'⟩
    rw [Work.loop, hstep]
    exact hloop

/-! ### The inverse -/

omit [NeZero n] in
theorem foldl_row_of_notMem {l : List (Fin n × Fin n)} {j : Fin n} (hj : j ∉ l.map Prod.snd)
    (row : Fin n) : l.foldl (fun row q => if q.2 = j then q.1 else row) row = row := by
  induction l with
  | nil => rfl
  | cons p l ih =>
    rw [List.map_cons, List.mem_cons, not_or] at hj
    rw [List.foldl_cons, if_neg (Ne.symm hj.1)]
    exact ih hj.2

omit [NeZero n] in
/-- The last assignment to `row[j]` counts, and there is only one. -/
theorem foldl_row {l : List (Fin n × Fin n)} (hl : (l.map Prod.snd).Nodup) {q : Fin n × Fin n}
    (hq : q ∈ l) (row : Fin n) :
    l.foldl (fun row p => if p.2 = q.2 then p.1 else row) row = q.1 := by
  induction l generalizing row with
  | nil => exact absurd hq (by simp)
  | cons p l ih =>
    rw [List.map_cons, List.nodup_cons] at hl
    rw [List.foldl_cons]
    rcases List.mem_cons.mp hq with rfl | hq
    · rw [if_pos rfl]
      exact foldl_row_of_notMem hl.1 _
    · exact ih hl.2 hq _

omit [NeZero n] in
theorem exists_pivot {pivots : List (Fin n × Fin n)} (hcols : (pivots.map Prod.snd).Nodup)
    (hlen : pivots.length = n) (j : Fin n) : ∃ q ∈ pivots, q.2 = j := by
  have hcard : (pivots.map Prod.snd).toFinset.card = Fintype.card (Fin n) := by
    rw [List.toFinset_card_of_nodup hcols, List.length_map, hlen, Fintype.card_fin]
  have hmem := Finset.mem_univ j
  rw [← Finset.eq_univ_of_card _ hcard, List.mem_toFinset] at hmem
  exact List.mem_map.mp hmem

/-- **The inverse is what `invertFull` returns, if there is one, and no error is reported**, unless
the inverse has entries in the order of 10²⁰. -/
theorem invertFull_eq (hB : A * B = 1) (hM : ∀ i j, |B i j| ≤ M) (hsmall : n * M < 10 ^ 20) :
    invertFull A = some B := by
  -- it is the transpose that is inverted
  have hT : B.transpose * A.transpose = 1 := by
    rw [← Matrix.transpose_mul, hB, Matrix.transpose_one]
  obtain ⟨w, hloop, hinv, hlen⟩ := Work.Inv.loop (mul_eq_one_comm.mp hT) (fun i j => hM j i) hsmall
    n (Work.inv_start A.transpose) (Nat.zero_add n)
  have hinverse : w.right.submatrix w.rowOf id * A.transpose = 1 :=
    hinv.reduced.inverse hinv.rows (exists_pivot hinv.cols hlen)
      fun q hq => foldl_row hinv.cols hq _
  -- a left inverse and a right inverse are the same
  have heq : w.right.submatrix w.rowOf id = B.transpose := by
    rw [← Matrix.mul_one (w.right.submatrix w.rowOf id), ← mul_eq_one_comm.mp hT,
      ← Matrix.mul_assoc, hinverse, Matrix.one_mul]
  have hresult : (fun j i => w.right (w.rowOf i) j) = B := by
    ext j i
    exact congrFun (congrFun heq i) j
  rw [invertFull, show (Work.start fun i j => A j i).loop n = some w from hloop]
  exact congrArg some hresult

end Exact

theorem invertFull_eq_shear : (!![2, 1; 1, 1] : Matrix (Fin 2) (Fin 2) ℚ) * !![1, -1; -1, 2] = 1 ∧
    invertFull (!![2, 1; 1, 1] : Matrix (Fin 2) (Fin 2) ℚ) = some !![1, -1; -1, 2] := by
  have hinverse : (!![2, 1; 1, 1] : Matrix (Fin 2) (Fin 2) ℚ) * !![1, -1; -1, 2] = 1 := by
    decide +kernel
  exact ⟨hinverse, invertFull_eq (M := 2) hinverse (by decide +kernel) (by norm_num)⟩

/-- A matrix without inverse, and no error. -/
example : (invertFull (!![1, 0; 0, 0] : Matrix (Fin 2) (Fin 2) ℚ)).isSome = true := by
  decide +kernel

end Gmtl

end MapBg
