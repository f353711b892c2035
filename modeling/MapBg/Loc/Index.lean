import MapBg.Loc.Tree

/-!
# `Loc::GetTileIndex` and `Loc::GetLocFromIndex`

A linear index for the cells of all levels, and its inverse; nothing in the program calls either.
The encoder adds up `8 ^ 1` to `8 ^ l` for the levels and writes the coordinates to the base 256,
whatever the level. The decoder takes away `8 ^ 0` to `8 ^ (l - 1)`, stops where the rest is at most
`8 ^ l`, reads the coordinates to the base `2 ^ l`, and for the last of them subtracts `2 ^ l`
instead of what it has just read.

They do not fit at all: `index_never_inverts` says that no cell is decoded to itself, not even the
root, whose `z` becomes -1. Nor are the indices of different levels kept apart. On one level up to 8
the base 256 is large enough, and there the index of a cell is its own.

The sums are `uint64_t` and wrap; the products are `int` and must not, which is the case up to level
10. Where the decoder comes to a level whose product does not fit, it has no answer here.
-/

set_option autoImplicit false

namespace MapBg

namespace Loc

/-! ## The code -/

/-- The number of cells of a level. -/
def cube (l : Nat) : Nat := (1 <<< l) * (1 <<< l) * (1 <<< l)

/-- `GetLodOffset`. It adds up the levels from 1 to `l`, that of `l` included. -/
def getLodOffset : Nat → Nat
  | 0 => 0
  | l + 1 => cube (l + 1) + getLodOffset l

/-- `GetTileIndex`, with the arithmetic of a `uint64_t`. The strides are those of level 8, whatever
the level of the address. -/
def getTileIndex (a : Loc) : Nat :=
  ((getLodOffset a.l.toNat + a.x * (1 <<< 8) * (1 <<< 8) + a.y * (1 <<< 8) + a.z) % 2 ^ 64).toNat

/-- The loop of `GetLocFromIndex`. There is no value if the product in its condition no longer fits
an `int`, which is undefined in the source. -/
def levelLoop (index l : Nat) : Option (Nat × Nat) :=
  if 2 ^ 31 ≤ cube l then none
  else if index > cube l then levelLoop (index - cube l) (l + 1)
  else some (index, l)
termination_by index
decreasing_by
  have hpos : 0 < cube l := by simp [cube, Nat.shiftLeft_eq, Nat.two_pow_pos]
  omega

/-- The conversion of a `uint64_t` to `int`. -/
def toInt (n : Nat) : Int := (n : Int).bmod (2 ^ 32)

/-- `GetLocFromIndex`, with the subtraction of `1 << l` where that of a multiple of it would be
expected. -/
def getLocFromIndex (index : Nat) : Option Loc := do
  let (index, l) ← levelLoop index 0
  let x := toInt (index / ((1 <<< l) * (1 <<< l)))
  let index := ((index - x * ((1 <<< l) * (1 <<< l))) % 2 ^ 64).toNat
  let y := toInt (index / (1 <<< l))
  let index := (((index : Int) - (1 <<< l)) % 2 ^ 64).toNat
  return ⟨x, y, toInt index, l⟩

/-! ## The offsets -/

theorem cube_eq (l : Nat) : cube l = 8 ^ l := by
  rw [cube, Nat.shiftLeft_eq, Nat.one_mul, ← Nat.mul_pow, ← Nat.mul_pow]

/-- The levels below `l`, as the decoder takes them away. -/
def below : Nat → Nat
  | 0 => 0
  | l + 1 => below l + 8 ^ l

theorem below_succ (l : Nat) : below (l + 1) = below l + cube l := by rw [below, cube_eq]

/-- The offset of a level is one less than the number of cells up to its end, where the decoder
expects the number of cells before its start. -/
theorem getLodOffset_eq (l : Nat) : getLodOffset l + 1 = below l + 8 ^ l := by
  induction l with
  | zero => rfl
  | succ l ih =>
    rw [getLodOffset, cube_eq, below]
    omega

/-- Where the loop stops, it has taken away the levels below. -/
theorem levelLoop_spec {index l j m : Nat} (h : levelLoop index l = some (j, m)) :
    index + below l = j + below m ∧ j ≤ 8 ^ m := by
  fun_induction levelLoop index l with
  | case1 => exact absurd h (by simp)
  | case2 index l _ hgt ih =>
    obtain ⟨hsum, hle⟩ := ih h
    rw [below_succ l] at hsum
    exact ⟨by omega, hle⟩
  | case3 index l _ hle =>
    cases h
    rw [cube_eq] at hle
    exact ⟨rfl, by omega⟩

/-- It comes to a product that does not fit only if the index is above all levels up to 10. -/
theorem levelLoop_none {index l : Nat} (h : levelLoop index l = none) (hl : l ≤ 11) :
    below 11 ≤ index + below l := by
  fun_induction levelLoop index l with
  | case1 index l hbig =>
    -- only at level 11 a cube has more cells than an `int` can count
    have hfit : ∀ k < 11, ¬ 2 ^ 31 ≤ cube k := by decide
    obtain rfl : l = 11 := by
      by_contra hne
      exact hfit l (by omega) hbig
    omega
  | case2 index l hfits hgt ih =>
    have hlt : l ≠ 11 := by
      rintro rfl
      exact hfits (by decide)
    have hsum := ih h (by omega)
    rw [below_succ l] at hsum
    omega
  | case3 => exact absurd h (by simp)

/-! ## The round trip -/

/-- The coordinates to the base 256. -/
def digits (a : Loc) : Int := a.x * 65536 + a.y * 256 + a.z

/-- Without overflow up to level 10. -/
theorem getTileIndex_eq {a : Loc} (h : a.InGrid) (hl : a.l ≤ 10) :
    (getTileIndex a : Int) = getLodOffset a.l.toNat + a.digits ∧ 0 ≤ a.digits ∧
      (getTileIndex a : Int) + 1 = below a.l.toNat + 8 ^ a.l.toNat + a.digits := by
  obtain ⟨hl0, ⟨hx, hx'⟩, ⟨hy, hy'⟩, hz, hz'⟩ := h
  have hpow : (2 : Int) ^ a.l.toNat ≤ 2 ^ 10 := by
    exact_mod_cast Nat.pow_le_pow_right Nat.two_pos (show a.l.toNat ≤ 10 by omega)
  have hoffset := getLodOffset_eq a.l.toNat
  have hsmall : ∀ l ≤ 10, getLodOffset l < 2 ^ 32 := by decide
  have hoff := hsmall a.l.toNat (by omega)
  have hcode : a.x * (1 <<< 8) * (1 <<< 8) + a.y * (1 <<< 8) + a.z = a.digits := by
    unfold digits
    omega
  have hlow : 0 ≤ a.digits := by
    unfold digits
    omega
  -- up to level 10 the digits stay below 2³², so nothing wraps
  have hhigh : a.digits < 2 ^ 32 := by
    unfold digits
    omega
  have hindex : (getTileIndex a : Int) = getLodOffset a.l.toNat + a.digits := by
    unfold getTileIndex
    rw [← hcode]
    omega
  refine ⟨hindex, hlow, ?_⟩
  rw [hindex]
  exact_mod_cast (by omega : (getLodOffset a.l.toNat : Int) + a.digits + 1
    = (below a.l.toNat + 8 ^ a.l.toNat : Nat) + a.digits)

theorem toInt_of_lt {n : Nat} (h : n < 2 ^ 31) : toInt n = n := by
  unfold toInt
  rw [Int.bmod_eq_of_le] <;> omega

/-- If the decoder stops on the level of the cell, the rest is one short of the coordinates past the
level. -/
theorem rest_of_level {a : Loc} (h : a.InGrid) (hl : a.l ≤ 10) {j : Nat}
    (hloop : levelLoop (getTileIndex a) 0 = some (j, a.l.toNat)) :
    (j : Int) + 1 = (8 ^ a.l.toNat : Nat) + a.digits ∧ j ≤ 8 ^ a.l.toNat := by
  obtain ⟨hsum, hle⟩ := levelLoop_spec hloop
  obtain ⟨-, -, hindex⟩ := getTileIndex_eq h hl
  refine ⟨?_, hle⟩
  simp only [below] at hsum
  push_cast
  omega

/-- With such a rest only level 0 reads 0 for the first coordinate. -/
theorem level_of_first {j m : Nat} (hm : m ≤ 10) (hlow : 8 ^ m ≤ j + 1) (hle : j ≤ 8 ^ m)
    (hfirst : toInt (j / (1 <<< m * 1 <<< m)) = 0) : m = 0 := by
  have hsmall : ∀ m ≤ 10, 8 ^ m < 2 ^ 31 ∧ (8 ^ m - 1 < 4 ^ m → m = 0) := by decide
  obtain ⟨hfits, hroot⟩ := hsmall m hm
  have hsquare : 1 <<< m * 1 <<< m = 4 ^ m := by
    rw [Nat.shiftLeft_eq, Nat.one_mul, ← Nat.mul_pow]
  have hlt : j / 4 ^ m < 2 ^ 31 := lt_of_le_of_lt (Nat.div_le_self _ _) (by omega)
  rw [hsquare, toInt_of_lt hlt] at hfirst
  refine hroot ?_
  have hj := (Nat.div_eq_zero_iff_lt (Nat.pow_pos (by decide))).mp (Int.ofNat_eq_zero.mp hfirst)
  omega

/-- The decoder goes past the level that was encoded, or finds another position in it. The two cases
are a level that is too deep and a remainder that is too large. -/
theorem getLocFromIndex_ne {a : Loc} (h : a.InGrid) (hl : a.l ≤ 10) :
    getLocFromIndex (getTileIndex a) ≠ some a := by
  intro hback
  obtain ⟨⟨j, m⟩, hloop, hloc⟩ := Option.bind_eq_some_iff.mp hback
  obtain rfl : a.l.toNat = m := by
    have hlevel := congrArg Loc.l (Option.some.inj hloc)
    simp only at hlevel
    have := h.1
    omega
  obtain ⟨hrest, hle⟩ := rest_of_level h hl hloop
  obtain ⟨-, ⟨hx, hx'⟩, ⟨hy, hy'⟩, hz, hz'⟩ := h
  unfold digits at hrest
  -- the rest is at most one past the level, so that the first coordinate is 0
  have hfirst : a.x = 0 := by omega
  have hread := congrArg Loc.x (Option.some.inj hloc)
  simp only at hread
  have hlevel : a.l.toNat = 0 :=
    level_of_first (by omega) (by omega) hle (hread.trans hfirst)
  -- which leaves the root, and there the last coordinate is read as -1
  rw [hlevel] at hx' hy' hz' hrest hloc
  obtain rfl : j = 0 := by omega
  have hlast := congrArg Loc.z (Option.some.inj hloc)
  have hz0 : a.z = 0 := by omega
  rw [hz0] at hlast
  exact absurd hlast (by decide)

/-- It does return, though. -/
theorem getLocFromIndex_isSome {a : Loc} (h : a.InGrid) (hl : a.l ≤ 9) :
    ∃ loc, getLocFromIndex (getTileIndex a) = some loc := by
  obtain ⟨-, -, hindex⟩ := getTileIndex_eq h (by omega)
  obtain ⟨hl0, ⟨hx, hx'⟩, ⟨hy, hy'⟩, hz, hz'⟩ := h
  cases hloop : levelLoop (getTileIndex a) 0 with
  | some found =>
    unfold getLocFromIndex
    rw [hloop]
    exact ⟨_, rfl⟩
  | none =>
    have hsum := levelLoop_none hloop (by omega)
    have hsmall : ∀ l ≤ 9, 2 ^ l ≤ 2 ^ 9 ∧ below l + 8 ^ l ≤ below 10 := by decide
    obtain ⟨hnat, hbelow⟩ := hsmall a.l.toNat (by omega)
    have hpow : (2 : Int) ^ a.l.toNat ≤ 2 ^ 9 := by exact_mod_cast hnat
    have hbound : a.digits < 2 ^ 30 := by
      unfold digits
      omega
    have hindex' : (getTileIndex a : Int) + 1
        = (below a.l.toNat + 8 ^ a.l.toNat : Nat) + a.digits := by exact_mod_cast hindex
    -- the index would have to be above all of level 10
    have htop : below 11 = below 10 + 2 ^ 30 := by decide
    rw [htop, below] at hsum
    omega

/-- Within a level the encoding loses nothing; it is the decoder that reads it with other strides.
-/
theorem digits_inj {a b : Loc} (ha : a.InGrid) (hb : b.InGrid) (hlevel : b.l = a.l)
    (hl : a.l ≤ 8) (h : a.digits = b.digits) : a = b := by
  obtain ⟨hl0, ⟨hx, hx'⟩, ⟨hy, hy'⟩, hz, hz'⟩ := ha
  obtain ⟨-, ⟨kx, kx'⟩, ⟨ky, ky'⟩, kz, kz'⟩ := hb
  rw [hlevel] at kx' ky' kz'
  have hpow : (2 : Int) ^ a.l.toNat ≤ 2 ^ 8 := by
    exact_mod_cast Nat.pow_le_pow_right Nat.two_pos (show a.l.toNat ≤ 8 by omega)
  unfold digits at h
  cases a
  cases b
  simp only [Loc.mk.injEq] at *
  omega

/-- No cell has an index that is decoded to it. The decoder comes to an end up to level 9, and up to
level 8 the cells of one level have different indices. -/
theorem index_never_inverts {a : Loc} (h : a.InGrid) (hl : a.l ≤ 10) :
    getLocFromIndex (getTileIndex a) ≠ some a ∧
    (a.l ≤ 9 → ∃ loc, getLocFromIndex (getTileIndex a) = some loc) ∧
    (∀ b : Loc, b.InGrid → b.l = a.l → a.l ≤ 8 → getTileIndex a = getTileIndex b → a = b) := by
  refine ⟨getLocFromIndex_ne h hl, getLocFromIndex_isSome h, ?_⟩
  intro b hb hlevel hl8 heq
  have ha := (getTileIndex_eq h hl).1
  have hb' := (getTileIndex_eq hb (by omega)).1
  rw [hlevel, ← heq, ha] at hb'
  exact digits_inj h hb hlevel hl8 (by omega)

theorem index_never_inverts_deep :
    InGrid ⟨100, 7, 255, 8⟩ ∧ (8 : Int) ≤ 10 ∧
    getLocFromIndex (getTileIndex ⟨100, 7, 255, 8⟩) ≠ some ⟨100, 7, 255, 8⟩ :=
  ⟨by decide, by decide, (index_never_inverts (by decide) (by decide)).1⟩

/-- The root comes back with `z` -1; a cell of level 2 has the index of one of level 3, and on level
9 the base is too small to keep the cells apart. -/
theorem root_index_decoded :
    InGrid ⟨0, 0, 0, 0⟩ ∧ getLocFromIndex (getTileIndex ⟨0, 0, 0, 0⟩) = some ⟨0, 0, -1, 0⟩ ∧
    InGrid ⟨0, 2, 0, 2⟩ ∧ InGrid ⟨0, 0, 0, 3⟩ ∧
    getTileIndex ⟨0, 2, 0, 2⟩ = getTileIndex ⟨0, 0, 0, 3⟩ ∧
    InGrid ⟨0, 256, 0, 9⟩ ∧ InGrid ⟨1, 0, 0, 9⟩ ∧
    getTileIndex ⟨0, 256, 0, 9⟩ = getTileIndex ⟨1, 0, 0, 9⟩ := by
  refine ⟨by decide, ?_, by decide, by decide, by decide, by decide, by decide, by decide⟩
  have hloop : levelLoop (getTileIndex ⟨0, 0, 0, 0⟩) 0 = some (0, 0) := by
    rw [levelLoop]
    decide
  unfold getLocFromIndex
  rw [hloop]
  decide

end Loc

end MapBg
