import Mathlib.Algebra.Order.Floor.Ring
import Mathlib.Data.Rat.Floor
import Mathlib.Tactic.GCongr
import MapBg.Terrain.Sample

/-!
# `noise.sh`: simplex noise

`snoise` is where all heights come from. A point of the plane lies in a triangle of a lattice; each
of the three corners has a gradient, chosen by a hash of its lattice coordinates, and adds a bump of
that gradient that fades out with the distance from the corner. The shader computes with vectors of
three, one component for each corner; here a component is `corner`.

The hash is made for `float`. Lattice coordinates are reduced modulo 289 first, so that no product
in `permute` is larger than what a `float` can hold: everything there is a whole number below
`2 ^ 24` (`hash_exact`).

The factor 130 is meant to bring the noise into the range from -1 to 1. What is shown here is a
bound of 3.04, for every point (`snoise_bound`). It uses nothing of the geometry of the triangle:
each of the three bumps has its own peak, and they are added up as if they could have it at once.
-/

set_option autoImplicit false

namespace MapBg

class FloatFloor (F : Type) where
  floor : F → F

namespace Noise

/-! ## The code -/

section Code

variable {F : Type} [FloatLike F] [FloatFloor F]

/-- A number that the source writes with up to fifteen places. -/
def literal (n : Int) : F := FloatLike.ofInt n / FloatLike.ofInt 1000000000000000

/-- `C.x`, which is `(3.0-sqrt(3.0))/6.0`. -/
def unskew : F := literal 211324865405187

/-- `C.y`, which is `0.5*(sqrt(3.0)-1.0)`. -/
def skew : F := literal 366025403784439

/-- `C.z`, which is `-1.0 + 2.0 * C.x`. -/
def opposite : F := literal (-577350269189626)

/-- `C.w`, which is `1.0 / 41.0`. -/
def ring41 : F := literal 24390243902439

/-- `mod289`, a remainder without the operator for it. -/
def mod289 (x : F) : F :=
  x - FloatFloor.floor (x * (FloatLike.ofInt 1 / FloatLike.ofInt 289)) * FloatLike.ofInt 289

/-- `permute`, a polynomial that permutes the remainders. -/
def permute (x : F) : F := mod289 ((x * FloatLike.ofInt 34 + FloatLike.ofInt 10) * x)

def fract (x : F) : F := x - FloatFloor.floor x

/-- `a0` and `h`: the gradient that a hash stands for, one of 41 on a diamond. -/
def gradient (p : F) : Vec2 F :=
  let x := FloatLike.ofInt 2 * fract (p * ring41) - FloatLike.ofInt 1
  let h := mathAbs x - FloatLike.powf2 (-1)
  let ox := FloatFloor.floor (x + FloatLike.powf2 (-1))
  ⟨x - ox, h⟩

/-- What a corner with hash `p` adds at the distance `x` from it. -/
def corner (p : F) (x : Vec2 F) : F :=
  let m := stdMax (FloatLike.powf2 (-1) - (x.x * x.x + x.y * x.y)) (FloatLike.ofInt 0)
  let m := m * m
  let m := m * m
  let a := gradient p
  let m := m * (literal 1792842914001590 - literal 853734720953140 * (a.x * a.x + a.y * a.y))
  let g := a.x * x.x + a.y * x.y
  m * g

/-- The permutations, for a corner at `o` from the first. -/
def hash (i o : Vec2 F) : F := permute (permute (i.y + o.y) + i.x + o.x)

/-- `snoise`: the triangle that the point is in is found on a skewed grid, and its corners
contribute by how close they are. Of the two triangles in a square it is the one on the side where
the larger coordinate is. -/
def snoise (v : Vec2 F) : F :=
  let zero : F := FloatLike.ofInt 0
  let one : F := FloatLike.ofInt 1
  let s := v.x * skew + v.y * skew
  let i : Vec2 F := ⟨FloatFloor.floor (v.x + s), FloatFloor.floor (v.y + s)⟩
  let t := i.x * unskew + i.y * unskew
  let x0 : Vec2 F := ⟨v.x - i.x + t, v.y - i.y + t⟩
  let i1 : Vec2 F := if FloatLike.lt x0.y x0.x then ⟨one, zero⟩ else ⟨zero, one⟩
  let x1 : Vec2 F := ⟨x0.x + unskew - i1.x, x0.y + unskew - i1.y⟩
  let x2 : Vec2 F := ⟨x0.x + opposite, x0.y + opposite⟩
  let i : Vec2 F := ⟨mod289 i.x, mod289 i.y⟩
  FloatLike.ofInt 130 * (corner (hash i ⟨zero, zero⟩) x0 + corner (hash i i1) x1
    + corner (hash i ⟨one, one⟩) x2)

end Code

/-! ## In exact arithmetic -/

section Exact

variable {K : Type} [Field K] [LinearOrder K] [FloorRing K]

instance (priority := low) instFloatFloorExact : FloatFloor K where
  floor f := ⌊f⌋

theorem floor_exact (f : K) : FloatFloor.floor f = (⌊f⌋ : K) := rfl

variable [IsStrictOrderedRing K]

/-! ### The hash -/

/-- A whole number is taken to its remainder. -/
theorem mod289_intCast (n : Int) : mod289 (n : K) = ((n % 289 : Int) : K) := by
  have hfloor : ⌊(n : K) * (1 / 289)⌋ = n / 289 := by
    have hdiv := Int.floor_div_natCast (n : K) 289
    rw [Int.floor_intCast] at hdiv
    rw [mul_one_div]
    exact_mod_cast hdiv
  have hmod : ((n % 289 : Int) : K) = n - 289 * (n / 289 : Int) := by
    rw [Int.emod_def]
    push_cast
    ring
  rw [mod289, ofInt_exact, ofInt_exact, Int.cast_one]
  push_cast
  rw [floor_exact, hfloor, hmod]
  ring

theorem permute_intCast (n : Int) : permute (n : K) = (((34 * n + 10) * n % 289 : Int) : K) := by
  rw [permute, ofInt_exact, ofInt_exact, ← mod289_intCast]
  push_cast
  congr 1
  ring

/-- The product that is reduced fits into the 24 bits of a mantissa. -/
theorem product_lt {n : Int} (h : 0 ≤ n) (hle : n ≤ 577) : (34 * n + 10) * n < 2 ^ 24 := by
  calc (34 * n + 10) * n ≤ (34 * 577 + 10) * 577 := by gcongr
    _ < 2 ^ 24 := by norm_num

/-- **The hash is computed on whole numbers that a `float` can hold.** In exact arithmetic, for a
corner of any triangle, both arguments of `permute` are whole numbers, the products made from them
are below `2 ^ 24`, and the hash is one of 0 to 288. The quotient in `mod289`, which is not a whole
number, is exact here and would be rounded in `float`; of that nothing is said. -/
theorem hash_exact (a b ox oy : Int) (hx : 0 ≤ ox ∧ ox ≤ 1) (hy : 0 ≤ oy ∧ oy ≤ 1) :
    ∃ n m h : Int, mod289 (b : K) + oy = n ∧ (0 ≤ n ∧ (34 * n + 10) * n < 2 ^ 24) ∧
      permute (n : K) + mod289 (a : K) + ox = m ∧ (0 ≤ m ∧ (34 * m + 10) * m < 2 ^ 24) ∧
      hash ⟨mod289 (a : K), mod289 (b : K)⟩ ⟨ox, oy⟩ = h ∧ 0 ≤ h ∧ h < 289 := by
  have hmod (k : Int) : 0 ≤ k % 289 ∧ k % 289 < 289 :=
    ⟨Int.emod_nonneg _ (by decide), Int.emod_lt_of_pos _ (by decide)⟩
  obtain ⟨ha, ha'⟩ := hmod a
  obtain ⟨hb, hb'⟩ := hmod b
  obtain ⟨n, hn⟩ : ∃ n, n = b % 289 + oy := ⟨_, rfl⟩
  obtain ⟨hin, hin'⟩ := hmod ((34 * n + 10) * n)
  obtain ⟨m, hm⟩ : ∃ m, m = (34 * n + 10) * n % 289 + a % 289 + ox := ⟨_, rfl⟩
  have hinner : mod289 (b : K) + oy = n := by
    rw [mod289_intCast, hn]
    push_cast
    rfl
  have houter : permute (n : K) + mod289 (a : K) + ox = m := by
    rw [permute_intCast, mod289_intCast, hm]
    push_cast
    rfl
  refine ⟨n, m, (34 * m + 10) * m % 289, hinner, ⟨by omega, product_lt (by omega) (by omega)⟩,
    houter, ⟨by omega, product_lt (by omega) (by omega)⟩, ?_, hmod _⟩
  rw [hash, hinner, houter, permute_intCast]

theorem hash_exact_corner : (0 ≤ (1 : Int) ∧ (1 : Int) ≤ 1) ∧ ∃ h : Int,
    hash ⟨mod289 ((-3 : Int) : ℚ), mod289 ((700 : Int) : ℚ)⟩ ⟨(1 : Int), (1 : Int)⟩ = h ∧
      0 ≤ h ∧ h < 289 := by
  obtain ⟨-, -, h, -, -, -, -, hhash⟩ :=
    hash_exact (K := ℚ) (-3) 700 1 1 (by decide) (by decide)
  exact ⟨by decide, h, hhash⟩

/-! ### The bound -/

theorem fract_mem (x : K) : 0 ≤ fract x ∧ fract x < 1 :=
  ⟨Int.fract_nonneg x, Int.fract_lt_one x⟩

/-- Three pieces of the diamond, told apart by the rounding of `x`. -/
theorem diamond {x : K} (hlow : -1 ≤ x) (hhigh : x < 1) :
    |x - ⌊x + 1 / 2⌋| + |(|x| - 1 / 2)| = 1 / 2 := by
  have hfloor (n : Int) (h : (n : K) ≤ x + 1 / 2) (h' : x + 1 / 2 < n + 1) :
      ⌊x + 1 / 2⌋ = n := Int.floor_eq_iff.mpr ⟨h, h'⟩
  rcases lt_or_ge x (-(1 / 2)) with hneg | hneg
  · have habs : |x| = -x := abs_of_neg (by linarith)
    rw [hfloor (-1) (by push_cast; linarith) (by push_cast; linarith), habs, Int.cast_neg,
      Int.cast_one, abs_of_nonneg (show 0 ≤ x - -1 by linarith),
      abs_of_nonneg (show 0 ≤ -x - 1 / 2 by linarith)]
    ring
  rcases lt_or_ge x (1 / 2) with hpos | hpos
  · have hin : |x| ≤ 1 / 2 := abs_le.mpr ⟨hneg, hpos.le⟩
    rw [hfloor 0 (by push_cast; linarith) (by push_cast; linarith), Int.cast_zero, sub_zero,
      abs_of_nonpos (show |x| - 1 / 2 ≤ 0 by linarith)]
    ring
  · have habs : |x| = x := abs_of_nonneg (by linarith)
    rw [hfloor 1 (by push_cast; linarith) (by push_cast; linarith), habs, Int.cast_one,
      abs_of_nonpos (show x - 1 ≤ 0 by linarith), abs_of_nonneg (show 0 ≤ x - 1 / 2 by linarith)]
    ring

/-- The gradients are on a diamond and not on a circle, for which `corner` scales them. -/
theorem gradient_mem (p : K) : |(gradient p).x| + |(gradient p).y| = 1 / 2 := by
  obtain ⟨hlow, hhigh⟩ := fract_mem (p * ring41)
  simp only [gradient, ofInt_exact, half_exact, mathAbs_exact, floor_exact]
  push_cast
  exact diamond (by linarith) (by linarith)

/-- The polynomial has its peak at 9/20. -/
theorem peak {u : K} (hu : 0 ≤ u) : (9 / 8 - 2 * u) * u ^ 4 ≤ 59049 / 6400000 := by
  have hfactor : 59049 / 6400000 - (9 / 8 - 2 * u) * u ^ 4
      = (u - 9 / 20) ^ 2 * (2 * u ^ 3 + 27 / 40 * u ^ 2 + 81 / 400 * u + 729 / 16000) := by
    ring
  have hcubic : 0 ≤ 2 * u ^ 3 + 27 / 40 * u ^ 2 + 81 / 400 * u + 729 / 16000 := by positivity
  linarith [mul_nonneg (sq_nonneg (u - 9 / 20)) hcubic]

/-- How far up a bump goes: `q` is the square of the distance, `w` the larger coordinate. -/
theorem bump_le {w q : K} (hq : w ^ 2 ≤ q) :
    max (1 / 2 - q) 0 ^ 4 * w ≤ 59049 / 6400000 := by
  rcases le_total (1 / 2 - q) 0 with hout | hin
  · rw [max_eq_right hout]
    norm_num
  · rw [max_eq_left hin]
    have htangent : w ≤ 9 / 8 - 2 * (1 / 2 - q) := by linarith [sq_nonneg (w - 1 / 4)]
    calc (1 / 2 - q) ^ 4 * w ≤ (1 / 2 - q) ^ 4 * (9 / 8 - 2 * (1 / 2 - q)) :=
          mul_le_mul_of_nonneg_left htangent (by positivity)
      _ = (9 / 8 - 2 * (1 / 2 - q)) * (1 / 2 - q) ^ 4 := mul_comm _ _
      _ ≤ 59049 / 6400000 := peak hin

/-- The scaling that stands in for the normalisation of the gradient. -/
theorem scaling_mem {a b : K} (h : |a| + |b| = 1 / 2) :
    0 ≤ (literal 1792842914001590 - literal 853734720953140 * (a * a + b * b) : K) ∧
      (literal 1792842914001590 - literal 853734720953140 * (a * a + b * b) : K) ≤ 8431 / 5000 := by
  have hsum : a * a + b * b = |a| ^ 2 + (1 / 2 - |a|) ^ 2 := by
    rw [← h, add_sub_cancel_left, sq_abs, sq_abs]
    ring
  have hle : |a| ≤ 1 / 2 := by linarith [abs_nonneg b]
  have hlow : 1 / 8 ≤ a * a + b * b := by
    rw [hsum]
    linarith [sq_nonneg (|a| - 1 / 4)]
  have hhigh : a * a + b * b ≤ 1 / 4 := by
    rw [hsum]
    linarith [mul_nonneg (abs_nonneg a) (sub_nonneg.mpr hle)]
  simp only [literal, ofInt_exact]
  push_cast
  constructor <;> linarith

/-- The gradient gives at most half the larger coordinate and the scaling at most 1.6862, and what
is left is a bump. -/
theorem corner_bound (p : K) (x : Vec2 K) : |corner p x| ≤ 389 / 50000 := by
  have hmem := gradient_mem p
  simp only [corner, half_exact, ofInt_exact, Int.cast_zero, stdMax_exact]
  generalize gradient p = a at hmem ⊢
  obtain ⟨hscale, hscale'⟩ := scaling_mem hmem
  have hq : max |x.x| |x.y| ^ 2 ≤ x.x * x.x + x.y * x.y := by
    rcases max_choice |x.x| |x.y| with h | h <;> rw [h, sq_abs] <;>
      linarith [mul_self_nonneg x.x, mul_self_nonneg x.y, sq x.x, sq x.y]
  have hg : |a.x * x.x + a.y * x.y| ≤ 1 / 2 * max |x.x| |x.y| := by
    calc |a.x * x.x + a.y * x.y| ≤ |a.x| * |x.x| + |a.y| * |x.y| := by
          rw [← abs_mul, ← abs_mul]
          exact abs_add_le _ _
      _ ≤ |a.x| * max |x.x| |x.y| + |a.y| * max |x.x| |x.y| := by gcongr <;> simp
      _ = 1 / 2 * max |x.x| |x.y| := by rw [← add_mul, hmem]
  have hbump := bump_le hq
  generalize max (1 / 2 - (x.x * x.x + x.y * x.y)) 0 = m at hbump ⊢
  generalize literal 1792842914001590 - literal 853734720953140 * (a.x * a.x + a.y * a.y) = n
    at hscale hscale' ⊢
  have hm : 0 ≤ m ^ 4 := by positivity
  calc |m * m * (m * m) * n * (a.x * x.x + a.y * x.y)|
      = m ^ 4 * n * |a.x * x.x + a.y * x.y| := by
        rw [show m * m * (m * m) = m ^ 4 by ring, abs_mul, abs_of_nonneg (mul_nonneg hm hscale)]
    _ ≤ m ^ 4 * (8431 / 5000) * (1 / 2 * max |x.x| |x.y|) := by gcongr
    _ = 8431 / 10000 * (m ^ 4 * max |x.x| |x.y|) := by ring
    _ ≤ 8431 / 10000 * (59049 / 6400000) := by gcongr
    _ ≤ 389 / 50000 := by norm_num

/-- There are three corners. -/
theorem snoise_bound (v : Vec2 K) : |snoise v| ≤ 76 / 25 := by
  simp only [snoise, ofInt_exact]
  push_cast
  rw [abs_mul, abs_of_nonneg (by norm_num : (0 : K) ≤ 130)]
  refine (mul_le_mul_of_nonneg_left ((abs_add_three _ _ _).trans (add_le_add (add_le_add
    (corner_bound _ _) (corner_bound _ _)) (corner_bound _ _))) (by norm_num)).trans ?_
  norm_num

end Exact

end Noise

end MapBg
