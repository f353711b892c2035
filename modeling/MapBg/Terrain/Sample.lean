import MapBg.Loc.Address
import MapBg.Oct.Ground

/-!
# Where in the world a sample of the terrain is

The heights of a tile are 384 by 384 samples, 256 across the cell and 64 more on every side. Four
places compute with their positions, each in its own way, and nothing in the program compares them:

* `cs_noise` evaluates noise at a position made from the invocation and the scale and offset that
  `Build` puts into `u_params`;
* `cs_copyparent` looks up the parent's texture at a coordinate made from `v_params`, and adds
  detail noise at another one;
* `LoadTerrainData` takes the height of a voxel column from the array that was read back;
* a neighbouring tile computes the samples of the overlap once more.

`samplePos` is the position that they should agree on. `samples_agree` says that in exact arithmetic
they do, and that the coordinate in the parent's texture stays inside it.

What the shaders compute from the positions is in `Terrain/Noise.lean`, `Terrain/Erosion.lean` and
`Terrain/Heights.lean`.
-/

set_option autoImplicit false

namespace MapBg

structure Vec2 (F : Type) where
  x : F
  y : F
  deriving DecidableEq

/-- `vec4` of the shaders, and what the uniforms hold. -/
structure Vec4 (F : Type) where
  x : F
  y : F
  z : F
  w : F
  deriving DecidableEq

namespace TerrainTile

open OctTile (overlapPtsCt totalPtsCt)

/-! ## The code -/

section Code

variable {F : Type} [FloatLike F]

/-- `offset` in `cs_noise`, for one invocation. -/
def noiseOffset (u : Vec4 F) (id : Nat × Nat) : Vec2 F :=
  let at' := fun (i : Nat) (off : F) => FloatLike.ofInt i / FloatLike.ofInt 384 * u.x + off
  ⟨at' id.1 u.z, at' id.2 u.w⟩

/-- `offset` in `cs_copyparent`: where the detail noise is evaluated. -/
def detailOffset (u : Vec4 F) (id : Nat × Nat) : Vec2 F :=
  let at' := fun (i : Nat) (off : F) =>
    (FloatLike.ofInt i - FloatLike.ofInt 64) / FloatLike.ofInt 256 * u.x + off
  ⟨at' id.1 u.z, at' id.2 u.w⟩

/-- `v` in `cs_copyparent`, in texels of the parent. -/
def parentTexel (v : Vec4 F) (id : Nat × Nat) : Vec2 F :=
  ⟨FloatLike.ofInt id.1 * v.x + v.z, FloatLike.ofInt id.2 * v.y + v.w⟩

/-- `u_params` for `cs_noise`: the scale and the offset of the samples. -/
def noiseParams (l : Loc) : Vec4 F :=
  let box : AABox F := l.getBBox
  let extents : F := l.getExtent
  let overlap := FloatLike.ofInt overlapPtsCt / FloatLike.ofInt squarePtsCt * extents
  ⟨extents + overlap * FloatLike.ofInt 2, FloatLike.ofInt 1, box.min.x - overlap,
    box.min.z - overlap⟩

/-- `u_params` for `cs_copyparent`. -/
def copyParentParams (l : Loc) : Vec4 F :=
  let extents : F := l.getExtent
  ⟨FloatLike.ofInt 1, extents / FloatLike.ofInt 16, FloatLike.ofInt l.x, FloatLike.ofInt l.z⟩

/-- `xParentOff`: where in the texture of the parent the two halves begin. -/
def xParentOff : List F :=
  [FloatLike.ofInt (overlapPtsCt - overlapPtsCt / 2),
    FloatLike.ofInt (overlapPtsCt + squarePtsCt / 2 - overlapPtsCt / 2)]

/-- `xParentOff[i]`; there are two entries. -/
def parentOff (i : Int) : Option F := if 0 ≤ i then xParentOff[i.toNat]? else none

/-- `v_params` for `cs_copyparent`: a scale of one half, and the offset of the quarter of the parent
that the tile covers. -/
def parentOffset (l : Loc) : Option (Vec4 F) := do
  let ll := l.getLocal l.parent
  let offX ← parentOff ll.x
  let offZ ← parentOff ll.z
  return ⟨FloatLike.powf2 (-1), FloatLike.powf2 (-1), offX, offZ⟩

/-- Which shader `Build` runs first, and with what. -/
inductive Dispatch (F : Type) where
  | noise (u : Vec4 F)
  | copyParent (u v : Vec4 F)

/-- The first dispatch of `Build`. Up to level 4 a tile is made from noise alone; from there on it
is a part of its parent, with detail added. -/
def firstDispatch (l : Loc) (hasParent : Bool) : Option (Dispatch F) :=
  if !hasParent || l.l < 5 then some (.noise (noiseParams l))
  else (parentOffset l).map (.copyParent (copyParentParams l))

/-- The sample that an invocation writes, in the array that is read back. -/
def sampleAt (tpts : List F) (i j : Nat) : Option F := tpts[j * totalPtsCt + i]?

end Code

/-! ## Positions -/

variable {K : Type} [Field K] [LinearOrder K] [FloorRing K]

/-- The position of a sample. A coordinate in the texture may lie between two of them. -/
def samplePos (l : Loc) (i j : K) : Vec2 K :=
  let box : AABox K := l.getBBox
  ⟨box.min.x + (i - 64) * l.extent / 256, box.min.z + (j - 64) * l.extent / 256⟩

/-- 64 samples lie before the edge of the cell, and 256 cover it. -/
theorem samplePos_eq (l : Loc) (i j : K) : samplePos l i j
    = ⟨l.edge l.x + (i - 64) * l.extent / 256, l.edge l.z + (j - 64) * l.extent / 256⟩ := by
  rw [samplePos, Loc.getBBox_exact]

/-- `cs_noise` computes for the position of the sample. -/
theorem noiseOffset_eq (l : Loc) (i j : Nat) :
    noiseOffset (noiseParams l) (i, j) = samplePos l (i : K) j := by
  have hextent : (l.getExtent : K) = l.extent := rfl
  simp only [noiseOffset, noiseParams, samplePos, ofInt_exact, hextent, overlapPtsCt, squarePtsCt,
    Vec2.mk.injEq]
  push_cast
  constructor <;> ring

/-! ## The parent's frame -/

/-- The offset of the half of the parent that the cell is in. -/
theorem parentOff_eq (i : Int) :
    (parentOff (i % 2) : Option K) = some (32 + 128 * ((i % 2 : Int) : K)) := by
  rcases Int.emod_two_eq_zero_or_one i with h | h
  · simp [parentOff, xParentOff, h, ofInt_exact, overlapPtsCt, squarePtsCt]
  · simp [parentOff, xParentOff, h, ofInt_exact, overlapPtsCt, squarePtsCt]
    norm_num

/-- Which half of the parent it is, is the parity of the coordinate. -/
theorem parentOffset_eq (l : Loc) : (parentOffset l : Option (Vec4 K))
    = some ⟨1 / 2, 1 / 2, 32 + 128 * ((l.x % 2 : Int) : K), 32 + 128 * ((l.z % 2 : Int) : K)⟩ := by
  have hhalf : (FloatLike.powf2 (-1) : K) = 1 / 2 := by
    show (2 : K) ^ (-1 : Int) = 1 / 2
    norm_num
  rw [parentOffset, Loc.getLocal_parent]
  simp only [parentOff_eq, hhalf, Option.bind_eq_bind, Option.bind_some, Option.pure_def]

theorem extent_parent (l : Loc) : (l.parent.extent : K) = 2 * l.extent := by
  have hup : 8 - (l.l - 1) = 8 - l.l + 1 := by omega
  rw [Loc.extent, Loc.extent, Loc.parent, hup, zpow_add_one₀ two_ne_zero, mul_comm]

/-- On an axis: a texel of the parent and the sample it is looked up for. -/
theorem edge_parent_add (l : Loc) (i : Int) (n : K) :
    l.parent.edge (i / 2) + (n * (1 / 2) + (32 + 128 * ((i % 2 : Int) : K)) - 64)
        * l.parent.extent / 256
      = l.edge i + (n - 64) * l.extent / 256 := by
  have hi : (i : K) = 2 * ((i / 2 : Int) : K) + ((i % 2 : Int) : K) := by
    exact_mod_cast (Int.mul_ediv_add_emod i 2).symm
  rw [extent_parent, Loc.edge, Loc.edge, extent_parent, hi]
  ring

/-- A sample and the place in the parent where it is looked up are at the same position in the
world. -/
theorem samplePos_parent (l : Loc) (n m : K) :
    samplePos l.parent (n * (1 / 2) + (32 + 128 * ((l.x % 2 : Int) : K)))
        (m * (1 / 2) + (32 + 128 * ((l.z % 2 : Int) : K)))
      = samplePos l n m := by
  rw [samplePos_eq, samplePos_eq, ← edge_parent_add l l.x, ← edge_parent_add l l.z, Loc.parent_eq]

/-- The texel stays inside the texture. -/
theorem parentTexel_mem [IsStrictOrderedRing K] {i : Nat} (hi : i < 384) (k : Int) :
    (i : K) * (1 / 2) + (32 + 128 * ((k % 2 : Int) : K)) ∈ Set.Icc (0 : K) (383 + 1 / 2) := by
  have hlow : (0 : K) ≤ i := Nat.cast_nonneg i
  have hhigh : (i : K) ≤ 383 := by exact_mod_cast Nat.le_of_lt_succ hi
  rcases Int.emod_two_eq_zero_or_one k with h | h <;> rw [h] <;> push_cast <;> constructor <;>
    linarith

theorem parentTexel_eq (l : Loc) (i j : Nat) : ∃ v : Vec4 K, parentOffset l = some v ∧
    parentTexel v (i, j) = ⟨i * (1 / 2) + (32 + 128 * ((l.x % 2 : Int) : K)),
      j * (1 / 2) + (32 + 128 * ((l.z % 2 : Int) : K))⟩ := by
  refine ⟨_, parentOffset_eq l, ?_⟩
  simp only [parentTexel, ofInt_exact, Int.cast_natCast]

/-! ## The voxel columns -/

/-- `LoadTerrainData` reads the sample that lies `overlapPtsCt` further. -/
theorem voxelColumn_eq {F : Type} [FloatLike F] (bboxoct : AABox F) (tpts : List F)
    (data : List UInt8) (x z : Nat) : OctTile.voxelColumn bboxoct tpts data (z, x)
      = match sampleAt tpts (x + overlapPtsCt) (z + overlapPtsCt) with
        | none => .error .readPastEnd
        | some h => match OctTile.voxelRow bboxoct h with
          | none => .ok data
          | some y => .ok (data.set (OctTile.cell y z x) 1) := by
  unfold OctTile.voxelColumn sampleAt OctTile.voxelRow
  simp only
  cases tpts[(z + overlapPtsCt) * totalPtsCt + (x + overlapPtsCt)]? with
  | none => rfl
  | some h =>
    simp only
    split <;> rfl

theorem samplePos_column (l : Loc) (x z : Nat) :
    samplePos l ((x + overlapPtsCt : Nat) : K) ((z + overlapPtsCt : Nat) : K)
      = ⟨(l.getBBox : AABox K).min.x + x * l.extent / 256,
          (l.getBBox : AABox K).min.z + z * l.extent / 256⟩ := by
  simp only [samplePos, overlapPtsCt, squarePtsCt, Nat.cast_add]
  norm_num

/-! ## The neighbours -/

def nextX (l : Loc) : Loc := { l with x := l.x + 1 }

/-- The last 128 samples of a tile are the first 128 of the next one. -/
theorem samplePos_nextX (l : Loc) (i j : K) :
    samplePos l (i + 256) j = samplePos (nextX l) i j := by
  have hnext : (nextX l).edge (nextX l).x = (l.edge l.x + l.extent : K) := Loc.edge_succ l l.x
  rw [samplePos_eq, samplePos_eq, hnext]
  simp only [nextX, Loc.extent, Loc.edge, Vec2.mk.injEq, and_true]
  ring

theorem detailOffset_nextX (l : Loc) (i j : Nat) :
    detailOffset (copyParentParams l : Vec4 K) (i + 256, j)
      = detailOffset (copyParentParams (nextX l)) (i, j) := by
  simp only [detailOffset, copyParentParams, nextX, ofInt_exact, Vec2.mk.injEq, and_true]
  push_cast
  ring

/-- **All paths put a sample at the same place in the world.** -/
theorem samples_agree [IsStrictOrderedRing K] (l : Loc) {i j : Nat} (hi : i < 384) (hj : j < 384) :
    (noiseOffset (noiseParams l) (i, j) = samplePos l (i : K) j) ∧
    (∃ v : Vec4 K, parentOffset l = some v ∧
      (parentTexel v (i, j)).x ∈ Set.Icc (0 : K) (383 + 1 / 2) ∧
      (parentTexel v (i, j)).y ∈ Set.Icc (0 : K) (383 + 1 / 2) ∧
      samplePos l.parent (parentTexel v (i, j)).x (parentTexel v (i, j)).y
        = samplePos l (i : K) j) ∧
    (∀ (tpts : List K) (data : List UInt8) (x z : Nat),
      OctTile.voxelColumn l.getBBox tpts data (z, x)
        = (match sampleAt tpts (x + overlapPtsCt) (z + overlapPtsCt) with
          | none => .error .readPastEnd
          | some h => match OctTile.voxelRow l.getBBox h with
            | none => .ok data
            | some y => .ok (data.set (OctTile.cell y z x) 1)) ∧
      samplePos l ((x + overlapPtsCt : Nat) : K) ((z + overlapPtsCt : Nat) : K)
        = ⟨(l.getBBox : AABox K).min.x + x * l.extent / 256,
            (l.getBBox : AABox K).min.z + z * l.extent / 256⟩) ∧
    noiseOffset (noiseParams l : Vec4 K) (i + 256, j) = noiseOffset (noiseParams (nextX l)) (i, j) ∧
    detailOffset (copyParentParams l : Vec4 K) (i + 256, j)
      = detailOffset (copyParentParams (nextX l)) (i, j) := by
  refine ⟨noiseOffset_eq l i j, ?_, fun tpts data x z =>
    ⟨voxelColumn_eq l.getBBox tpts data x z, samplePos_column l x z⟩, ?_, detailOffset_nextX l i j⟩
  · obtain ⟨v, hv, htexel⟩ := parentTexel_eq (K := K) l i j
    refine ⟨v, hv, ?_⟩
    rw [htexel]
    exact ⟨parentTexel_mem hi l.x, parentTexel_mem hj l.z, samplePos_parent l _ _⟩
  · rw [noiseOffset_eq, noiseOffset_eq, ← samplePos_nextX]
    push_cast
    rfl

theorem samples_agree_corner : 0 < 384 ∧ 383 < 384 ∧
    noiseOffset (noiseParams ⟨3, 0, 2, 5⟩) (0, 383) = samplePos ⟨3, 0, 2, 5⟩ (0 : Rat) 383 :=
  ⟨by decide, by decide, (samples_agree (K := Rat) ⟨3, 0, 2, 5⟩ (by decide) (by decide)).1⟩

end TerrainTile

end MapBg
