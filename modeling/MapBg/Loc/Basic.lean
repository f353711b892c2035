import Mathlib.Data.Int.Basic
import MapBg.Lib.Word

/-!
# `Loc`: the address of an octree cell

A `Loc` names a cell of an octree by its level and its integer coordinates at that level. The
fields are `int` in the source; here they are integers, and the operations are read without
overflow. Where the 32-bit representation matters — the bytes of a database key — `Loc.Fits`
says that the four fields are `int` values.

Two relations called `operator<` exist in the source: a member (level first) and a free function
that compares `y`, then `x`, then the level, then `z`. The containers call through `const`
references, for which only the free one is viable, so `std::map<Loc, _>` and `std::set<Loc>` are
ordered by `Loc.less`; `std::sort` on a vector of mutable `Loc`s picks the member, `Loc.memberLess`.

A `std::map` is a balanced tree ordered by its comparator, and so is `Std.TreeMap`, which the
models use for it. It asks for a three-way comparison; `Loc.cmp` is the one the standard derives
from `operator<`, and the two instances at the end say that it is a total order whose ties are
equalities. That is why looking a `Loc` up finds that `Loc` and no other.
-/

set_option autoImplicit false

namespace MapBg

/-- The class `Loc`, with its members `m_x`, `m_y`, `m_z` and `m_l`. -/
structure Loc where
  x : Int
  y : Int
  z : Int
  l : Int
  deriving DecidableEq, Repr

namespace Loc

/-- The cell that is the whole world. -/
def root : Loc := ⟨0, 0, 0, 0⟩

/-- The four members are values of an `int`. -/
def Fits (a : Loc) : Prop := Word.Fits a.x ∧ Word.Fits a.y ∧ Word.Fits a.z ∧ Word.Fits a.l

instance (a : Loc) : Decidable a.Fits := inferInstanceAs (Decidable (_ ∧ _))

/-- `((const char*)&l, sizeof(l))`: the sixteen bytes of the four fields. -/
def bytes (a : Loc) : List UInt8 :=
  Word.bytes [Word.ofInt a.x, Word.ofInt a.y, Word.ofInt a.z, Word.ofInt a.l]

theorem length_bytes (a : Loc) : a.bytes.length = 16 := Word.length_bytes _

/-- Two addresses of `int` values are the same bytes only if they are the same address. -/
theorem bytes_injOn {a b : Loc} (ha : a.Fits) (hb : b.Fits) (h : a.bytes = b.bytes) : a = b := by
  obtain ⟨hax, hay, haz, hal⟩ := ha
  obtain ⟨hbx, hby, hbz, hbl⟩ := hb
  have hws := Word.bytes_injective h
  simp only [List.cons.injEq, and_true] at hws
  obtain ⟨hx, hy, hz, hl⟩ := hws
  cases a
  cases b
  simp only [Loc.mk.injEq]
  exact ⟨Word.ofInt_injOn hax hbx hx, Word.ofInt_injOn hay hby hy, Word.ofInt_injOn haz hbz hz,
    Word.ofInt_injOn hal hbl hl⟩

/-! ## Order -/

/-- The free `operator<`, by which maps and sets are ordered. -/
def less (lhs rhs : Loc) : Bool :=
  if lhs.y ≠ rhs.y then lhs.y < rhs.y
  else if lhs.x ≠ rhs.x then lhs.x < rhs.x
  else if lhs.l ≠ rhs.l then lhs.l < rhs.l
  else if lhs.z ≠ rhs.z then lhs.z < rhs.z
  else false

/-- The member `operator<`, by which a vector is sorted. -/
def memberLess (lhs rhs : Loc) : Bool :=
  if lhs.l ≠ rhs.l then lhs.l < rhs.l
  else if lhs.x ≠ rhs.x then lhs.x < rhs.x
  else if lhs.y ≠ rhs.y then lhs.y < rhs.y
  else lhs.z < rhs.z

/-- Two addresses neither of which is less than the other are the same to a `std::map`. -/
def cmp (a b : Loc) : Ordering :=
  if a.less b then .lt else if b.less a then .gt else .eq

/-- One comparison of the chain in `operator<`, read both ways round. -/
theorem threeWay_then (i j : Int) (t u : Bool) :
    (if (if i ≠ j then decide (i < j) else t) then Ordering.lt
      else if (if j ≠ i then decide (j < i) else u) then .gt else .eq)
      = (compare i j).then (if t then .lt else if u then .gt else .eq) := by
  rcases Int.lt_trichotomy i j with h | h | h
  · rw [if_pos (by simp [h, Int.ne_of_lt h]), Int.compare_eq_lt.mpr h]
    rfl
  · subst h
    simp
  · rw [if_neg (by simp [Int.ne_of_gt h, Int.not_lt.mpr (Int.le_of_lt h)]),
      if_pos (by simp [h, Int.ne_of_lt h]), Int.compare_eq_gt.mpr h]
    rfl

/-- The nested tests of the source are the lexicographic order of the four members, for which the
library has the instances. -/
theorem cmp_eq_lex : cmp = compareLex (compareOn Loc.y) (compareLex (compareOn Loc.x)
    (compareLex (compareOn Loc.l) (compareOn Loc.z))) := by
  funext a b
  unfold cmp less
  rw [threeWay_then, threeWay_then, threeWay_then, threeWay_then]
  simp [compareLex, compareOn]

instance : Std.TransCmp cmp := by
  rw [cmp_eq_lex]
  infer_instance

instance : Std.LawfulEqCmp cmp where
  eq_of_compare {a b} h := by
    rw [cmp_eq_lex] at h
    simp only [compareLex_eq_eq, compareOn, Std.LawfulEqCmp.compare_eq_iff_eq] at h
    obtain ⟨hy, hx, hl, hz⟩ := h
    cases a
    cases b
    simp_all

@[simp] theorem cmp_eq_iff {a b : Loc} : cmp a b = .eq ↔ a = b :=
  Std.LawfulEqCmp.compare_eq_iff_eq

end Loc

end MapBg
