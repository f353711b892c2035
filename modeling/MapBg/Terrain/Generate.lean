import MapBg.Terrain.Heights
import MapBg.Terrain.Noise

/-!
# The terrain of the world

The heights of a tile are made on the GPU, from the noise alone at the levels up to 4, and from
level 5 on from the heights of the parent with noise of a smaller scale added. The parent was made
in the same way, so taken together the shaders define the heights of every tile there is:
`worldHeights` is this function of the address, defined by recursion on the level.

Whether the parent was built in this session or read from the database makes no difference to its
children. `GetTerrain` has the texture the shaders wrote in the one case and makes one from
`m_heightData` in the other, and `m_heightData` is what was read back from the first
(`textureOf_heightsOf`).

The sampler of that texture has no flags but those for clamping, so it filters linearly. `bilinear`
is how a GPU does this, and is the only thing here that is not in the source.

The noise is bounded, the detail that a level adds is half of what the level before has added, and
the erosion raises no height by more than 2.754 at a level. So the world has a top, whatever the
address: about 15 at the levels that are made from the noise alone, and 29 at the finest
(`worldHeights_bounded`).
-/

set_option autoImplicit false

namespace MapBg

namespace TerrainTile

open OctTile (totalPtsCt)
open Erosion (InTexture zeroTexel)

/-! ## The code -/

section Code

variable {F : Type}

section Sampler

variable [FloatLike F] [FloatFloor F]

/-- `BGFX_SAMPLER_U_CLAMP` and `BGFX_SAMPLER_V_CLAMP`. -/
def clampTexel (i : Int) : Int := max 0 (min (totalPtsCt - 1) i)

def mix (a b t : F) : F := a * (FloatLike.ofInt 1 - t) + b * t

/-- Between the texels, at a coordinate that is counted in texels from the middle of the first. -/
def between (tex : Texture F) (p : Vec2 F) : F :=
  let i := FloatLike.toInt (FloatFloor.floor p.x)
  let j := FloatLike.toInt (FloatFloor.floor p.y)
  let texel (i j : Int) : F := tex (clampTexel i, clampTexel j)
  let row (j : Int) : F := mix (texel i j) (texel (i + 1) j) (Noise.fract p.x)
  mix (row j) (row (j + 1)) (Noise.fract p.y)

/-- A sampler that is linear between the centres of the texels. -/
def bilinear (tex : Texture F) (v : Vec2 F) : F :=
  let size : F := FloatLike.ofInt totalPtsCt
  let half : F := FloatLike.powf2 (-1)
  between tex ⟨v.x * size - half, v.y * size - half⟩

end Sampler

variable [FloatLike F]

/-- The texture that `GetTerrain` makes of the heights. -/
def textureOf (heightData : List F) : Texture F := fun uv =>
  (heightData[(uv.2 * totalPtsCt + uv.1).toNat]?).getD (FloatLike.ofInt 0)

/-- The two textures agree where there are texels. -/
def SameTexels (tex tex' : Texture F) : Prop := ∀ uv, InTexture uv → tex uv = tex' uv

/-- What the shaders are given, apart from the tile. A sampler knows of the texels and nothing else.
-/
structure Shading (F : Type) where
  snoise : Vec2 F → F
  texture2DLod : Texture F → Vec2 F → F
  diagonalDist : F
  texels : ∀ tex tex', SameTexels tex tex' → texture2DLod tex = texture2DLod tex'

/-- The heights of a tile, made in step 0 and read back in step 1, from the texture of the parent if
there is one. `other` is what the second work texture holds to begin with. -/
def generate [BEq F] (sh : Shading F) (other : Texture (Vec4 F)) (l : Loc)
    (parent : Option (Texture F)) : Option (List F) :=
  (firstDispatch l parent.isSome).map fun d =>
    heightsOf (terrain sh.diagonalDist
      (firstTexture sh.snoise (sh.texture2DLod (parent.getD fun _ => FloatLike.ofInt 0)) d) other)

/-- By recursion on the level: a cell's heights need those of its parent, whichever tile held them
and whether they were read from the database or not. -/
def worldHeightsAt [BEq F] (sh : Shading F) : Nat → Loc → Option (List F)
  | 0, l => generate sh (fun _ => zeroTexel) l none
  | n + 1, l => (worldHeightsAt sh n l.parent).bind fun parent =>
      generate sh (fun _ => zeroTexel) l (some (textureOf parent))

/-- The heights of the world, which no run and no order of requests is mentioned in. -/
def worldHeights [BEq F] (sh : Shading F) (l : Loc) : Option (List F) :=
  worldHeightsAt sh l.l.toNat l

end Code

/-! ## Any arithmetic -/

section Any

variable {F : Type} [FloatLike F]

theorem parentOff_isSome (i : Int) : (parentOff (i % 2) : Option F).isSome := by
  rcases Int.emod_two_eq_zero_or_one i with h | h <;> rw [h] <;> rfl

/-- `xParentOff` is not read past its end. -/
theorem firstDispatch_isSome (l : Loc) (hasParent : Bool) :
    (firstDispatch l hasParent : Option (Dispatch F)).isSome := by
  unfold firstDispatch
  split
  · rfl
  · obtain ⟨offX, hx⟩ := Option.isSome_iff_exists.mp (parentOff_isSome (F := F) l.x)
    obtain ⟨offZ, hz⟩ := Option.isSome_iff_exists.mp (parentOff_isSome (F := F) l.z)
    rw [parentOffset, Loc.getLocal_parent]
    simp [hx, hz]

theorem firstDispatch_coarse {l : Loc} (hl : l.l < 5) (hasParent : Bool) :
    (firstDispatch l hasParent : Option (Dispatch F)) = some (.noise (noiseParams l)) := by
  rw [firstDispatch, if_pos (by simp [hl])]

theorem firstDispatch_fine {l : Loc} (hl : 5 ≤ l.l) {v : Vec4 F} (hv : parentOffset l = some v) :
    firstDispatch l true = some (.copyParent (copyParentParams l) v) := by
  have hfine : ¬ l.l < 5 := by omega
  rw [firstDispatch, if_neg (by simp [hfine]), hv]
  rfl

theorem textureOf_natCast (hs : List F) (i j : Nat) :
    textureOf hs (i, j) = (sampleAt hs i j).getD (FloatLike.ofInt 0) := by
  have hindex : ((j : Int) * totalPtsCt + i).toNat = j * totalPtsCt + i := by omega
  rw [textureOf, sampleAt, hindex]

/-- The texture of a tile that was read from the database, against that of one that was built. -/
theorem textureOf_heightsOf (t : Texture F) : SameTexels (textureOf (heightsOf t)) t := by
  rintro ⟨u, v⟩ ⟨⟨hu, hu'⟩, hv, hv'⟩
  obtain ⟨i, rfl⟩ := Int.eq_ofNat_of_zero_le hu
  obtain ⟨j, rfl⟩ := Int.eq_ofNat_of_zero_le hv
  have hsample := sampleAt_heightsOf t (Int.ofNat_lt.mp hu') (Int.ofNat_lt.mp hv')
  rw [textureOf_natCast, hsample, Option.getD_some]

variable [BEq F] (sh : Shading F)

/-- The heights depend on the texels of the parent only, and not on what is left in the other of the
two textures. -/
theorem generate_congr (other other' : Texture (Vec4 F)) (l : Loc) {tex tex' : Texture F}
    (h : SameTexels tex tex') :
    generate sh other l (some tex) = generate sh other' l (some tex') := by
  simp only [generate, erode_eq, Option.getD_some, sh.texels _ _ h, Option.isSome_some]

theorem exists_generate (other : Texture (Vec4 F)) (l : Loc) (parent : Option (Texture F)) :
    ∃ hs, generate sh other l parent = some hs ∧ hs.length = totalPtsCt * totalPtsCt := by
  obtain ⟨d, hd⟩ := Option.isSome_iff_exists.mp (firstDispatch_isSome (F := F) l parent.isSome)
  rw [generate, hd]
  exact ⟨_, rfl, length_heightsOf _⟩

theorem exists_worldHeightsAt (n : Nat) (l : Loc) : ∃ hs, worldHeightsAt sh n l = some hs ∧
    hs.length = totalPtsCt * totalPtsCt := by
  induction n generalizing l with
  | zero => exact exists_generate sh _ l none
  | succ n ih =>
    obtain ⟨parent, hparent, -⟩ := ih l.parent
    rw [worldHeightsAt, hparent]
    exact exists_generate sh _ l _

theorem worldHeights_parent {l : Loc} (hl : 0 < l.l) : worldHeights sh l
    = (worldHeights sh l.parent).bind fun parent =>
      generate sh (fun _ => zeroTexel) l (some (textureOf parent)) := by
  have hlevel : l.l.toNat = l.parent.l.toNat + 1 := by
    show l.l.toNat = (l.l - 1).toNat + 1
    omega
  rw [worldHeights, hlevel]
  rfl

end Any

/-! ## The linear filter -/

section Linear

theorem clampTexel_mem (i j : Int) : InTexture (clampTexel i, clampTexel j) := by
  unfold InTexture clampTexel
  rw [show (totalPtsCt : Int) = 384 from rfl]
  omega

theorem clampTexel_of_mem {i : Int} (h : 0 ≤ i ∧ i < totalPtsCt) : clampTexel i = i := by
  unfold clampTexel
  omega

theorem between_congr {F : Type} [FloatLike F] [FloatFloor F] {tex tex' : Texture F}
    (h : SameTexels tex tex') (p : Vec2 F) : between tex p = between tex' p := by
  simp only [between, h _ (clampTexel_mem _ _)]

def linearShading {F : Type} [FloatLike F] [FloatFloor F] (snoise : Vec2 F → F)
    (diagonalDist : F) : Shading F where
  snoise
  texture2DLod := bilinear
  diagonalDist
  texels _ _ h := funext fun _ => between_congr h _

variable {K : Type} [Field K] [LinearOrder K] [FloorRing K] [IsStrictOrderedRing K]

omit [IsStrictOrderedRing K] in
/-- `cs_copyparent` adds half a texel, and the sampler takes it off again. -/
theorem bilinear_texel (tex : Texture K) (p : Vec2 K) :
    bilinear tex ⟨p.x / 384 + 1 / 2 / 384, p.y / 384 + 1 / 2 / 384⟩ = between tex p := by
  have hsize : (FloatLike.ofInt totalPtsCt : K) = 384 := by
    rw [ofInt_exact]
    norm_num [totalPtsCt, OctTile.overlapPtsCt, squarePtsCt]
  have hcoord (a : K) : (a / 384 + 1 / 2 / 384) * 384 - 1 / 2 = a := by ring
  simp only [bilinear, hsize, half_exact, hcoord]

theorem mix_mem {lo hi a b t : K} (ha : a ∈ Set.Icc lo hi) (hb : b ∈ Set.Icc lo hi)
    (ht : 0 ≤ t ∧ t < 1) : mix a b t ∈ Set.Icc lo hi := by
  have hrest : 0 ≤ 1 - t := by linarith
  rw [mix, ofInt_exact, Int.cast_one]
  constructor
  · linarith [mul_le_mul_of_nonneg_right ha.1 hrest, mul_le_mul_of_nonneg_right hb.1 ht.1]
  · linarith [mul_le_mul_of_nonneg_right ha.2 hrest, mul_le_mul_of_nonneg_right hb.2 ht.1]

/-- Between the texels there is nothing higher or lower than the texels. -/
theorem between_mem {tex : Texture K} {lo hi : K}
    (h : ∀ uv, InTexture uv → tex uv ∈ Set.Icc lo hi) (p : Vec2 K) :
    between tex p ∈ Set.Icc lo hi := by
  have htexel (i j : Int) : tex (clampTexel i, clampTexel j) ∈ Set.Icc lo hi :=
    h _ (clampTexel_mem i j)
  exact mix_mem (mix_mem (htexel _ _) (htexel _ _) (Noise.fract_mem p.x))
    (mix_mem (htexel _ _) (htexel _ _) (Noise.fract_mem p.x)) (Noise.fract_mem p.y)

end Linear

/-! ## How high the world is -/

section Bounded

variable {K : Type} [Field K] [LinearOrder K] [FloorRing K] [IsStrictOrderedRing K]
  {snoise : Vec2 K → K} {diagonalDist : K} {l : Loc}

/-- The erosion, from heights that are bounded. -/
theorem heightsOf_mem {texture2DLod : Vec2 K → K} {d : Dispatch K} {top : K} (htop : -1 ≤ top)
    (hfirst : ∀ id, firstHeight snoise texture2DLod d id ≤ top) (other : Texture (Vec4 K)) :
    ∀ h ∈ heightsOf (terrain diagonalDist (firstTexture snoise texture2DLod d) other),
      h ∈ Set.Icc (-1) (top + 1377 / 500) := by
  intro h hh
  obtain ⟨uv, huv, rfl⟩ := exists_texel hh
  obtain ⟨hge, -, hle⟩ := terrain_bounds snoise texture2DLod d diagonalDist other huv
  exact ⟨hge, hle.trans (add_le_add_left (max_le (hfirst _) htop) _)⟩

variable {bound top : K} {other : Texture (Vec4 K)} {hs : List K}

/-- From the noise alone. -/
theorem generate_coarse_mem (hnoise : ∀ p, |snoise p| ≤ bound) {parent : Option (Texture K)}
    (hl : l.l < 5)
    (hgen : generate (linearShading snoise diagonalDist) other l parent = some hs) :
    ∀ h ∈ hs, h ∈ Set.Icc (-1) (2 * bound + 1377 / 500) := by
  have hbound : 0 ≤ bound := (abs_nonneg _).trans (hnoise ⟨0, 0⟩)
  rw [generate, firstDispatch_coarse hl, Option.map_some, Option.some.injEq] at hgen
  subst hgen
  exact heightsOf_mem (by linarith) (fun id => (abs_le.mp (noiseOctaves_le hnoise _)).2) other

/-- From the parent. -/
theorem generate_fine_mem (hnoise : ∀ p, |snoise p| ≤ bound) {tex : Texture K} (hl : 5 ≤ l.l)
    (htop : -1 ≤ top) (htex : ∀ uv, InTexture uv → tex uv ∈ Set.Icc (-1) top)
    (hgen : generate (linearShading snoise diagonalDist) other l (some tex) = some hs) :
    ∀ h ∈ hs, h ∈ Set.Icc (-1) (top + 2 * bound * (l.extent / 16) + 1377 / 500) := by
  have hbound : 0 ≤ bound := (abs_nonneg _).trans (hnoise ⟨0, 0⟩)
  have hscale : (0 : K) ≤ l.extent / 16 := div_nonneg l.extent_pos.le (by norm_num)
  have hmore : 0 ≤ 2 * bound * (l.extent / 16) := mul_nonneg (by linarith) hscale
  have hy : (copyParentParams l : Vec4 K).y = l.extent / 16 := by
    simp only [copyParentParams, ofInt_exact, Int.cast_ofNat]
    rfl
  obtain ⟨v, hv⟩ : ∃ v : Vec4 K, parentOffset l = some v := ⟨_, parentOffset_eq l⟩
  rw [generate, Option.isSome_some, firstDispatch_fine hl hv, Option.map_some,
    Option.some.injEq] at hgen
  subst hgen
  -- the parent between its texels, and detail in the scale of the cell
  refine heightsOf_mem (by linarith) (fun id => add_le_add (between_mem htex _).2 ?_) other
  rw [hy]
  exact mul_le_mul_of_nonneg_right (abs_le.mp (noiseOctaves_le hnoise _)).2 hscale

omit [IsStrictOrderedRing K] in
/-- Nothing outside of the array is read that is out of the bounds, as long as 0 is in them. -/
theorem textureOf_mem {lo hi : K} (hlo : lo ≤ 0) (hhi : 0 ≤ hi) (h : ∀ h ∈ hs, h ∈ Set.Icc lo hi)
    (uv : Int × Int) : textureOf hs uv ∈ Set.Icc lo hi := by
  unfold textureOf
  cases hget : hs[(uv.2 * totalPtsCt + uv.1).toNat]? with
  | none =>
    rw [Option.getD_none, ofInt_exact, Int.cast_zero]
    exact ⟨hlo, hhi⟩
  | some v => exact h v (List.mem_of_getElem? hget)

theorem worldHeightsAt_coarse_mem {n : Nat} (hl : l.l < 5)
    (hworld : worldHeightsAt (linearShading Noise.snoise diagonalDist) n l = some hs) :
    ∀ h ∈ hs, h ∈ Set.Icc (-1) (4417 / 500) := by
  have htop : (2 * (76 / 25) + 1377 / 500 : K) = 4417 / 500 := by norm_num
  rw [← htop]
  cases n with
  | zero => exact generate_coarse_mem Noise.snoise_bound hl hworld
  | succ n =>
    obtain ⟨parent, -, hgen⟩ := Option.bind_eq_some_iff.mp hworld
    exact generate_coarse_mem Noise.snoise_bound hl hgen

/-- The top of a level: 15, less the details that are still to come, and what the erosion has
added. -/
def levelTop (l : Loc) : K :=
  let n : Int → K := FloatLike.ofInt
  n 15 - n 152 / n 25 * (l.extent / n 16) + n 1377 / n 500 * n (l.l - 4)

omit [IsStrictOrderedRing K] in
theorem levelTop_eq (l : Loc) :
    (levelTop l : K) = 15 - 152 / 25 * (l.extent / 16) + 1377 / 500 * ((l.l : K) - 4) := by
  simp only [levelTop, ofInt_exact]
  push_cast
  rfl

theorem extent_le (hl : 4 ≤ l.l) : (l.extent : K) ≤ 16 := by
  have hpow : (2 : K) ^ (8 - l.l) ≤ 2 ^ (4 : Int) := zpow_le_zpow_right₀ one_le_two (by omega)
  calc (l.extent : K) = 2 ^ (8 - l.l) := rfl
    _ ≤ 2 ^ (4 : Int) := hpow
    _ = 16 := by norm_num

theorem levelTop_ge (hl : 4 ≤ l.l) : (4417 / 500 : K) ≤ levelTop l := by
  have hlevel : (4 : K) ≤ l.l := by exact_mod_cast hl
  have hextent : (l.extent : K) ≤ 16 := extent_le hl
  rw [levelTop_eq]
  linarith

omit [IsStrictOrderedRing K] in
/-- What a level adds to the bound: twice that of the noise, for all octaves together, and that of
the erosion. -/
theorem levelTop_parent (l : Loc) :
    (levelTop l.parent + 2 * (76 / 25) * (l.extent / 16) + 1377 / 500 : K) = levelTop l := by
  have hlevel : ((l.parent.l : Int) : K) = l.l - 1 := by
    rw [show l.parent.l = l.l - 1 from rfl]
    push_cast
    rfl
  rw [levelTop_eq, levelTop_eq, extent_parent, hlevel]
  ring

theorem worldHeightsAt_mem {n : Nat} (hn : l.l.toNat = n) (hl : 4 ≤ l.l)
    (hworld : worldHeightsAt (linearShading Noise.snoise diagonalDist) n l = some hs) :
    ∀ h ∈ hs, h ∈ Set.Icc (-1) (levelTop l) := by
  induction n generalizing l hs with
  | zero => omega
  | succ n ih =>
    -- level 4 does not look at its parent, and is where the bound starts
    by_cases hcoarse : l.l < 5
    · intro h hh
      have hmem := worldHeightsAt_coarse_mem hcoarse hworld h hh
      exact ⟨hmem.1, hmem.2.trans (levelTop_ge hl)⟩
    · have hparent : 4 ≤ l.parent.l := by
        show 4 ≤ l.l - 1
        omega
      have htop : (0 : K) ≤ levelTop l.parent := le_trans (by norm_num) (levelTop_ge hparent)
      obtain ⟨parent, hparentWorld, hgen⟩ := Option.bind_eq_some_iff.mp hworld
      have hheights := ih (show (l.l - 1).toNat = n by omega) hparent hparentWorld
      rw [← levelTop_parent l]
      exact generate_fine_mem Noise.snoise_bound (by omega) (by linarith)
        (fun uv _ => textureOf_mem (by norm_num) htop hheights uv) hgen

/-- **The world has a top and a bottom.** No height of any tile is below -1, and none is above 15
but for 2.754 at each level from 5 on. -/
theorem worldHeights_bounded (diagonalDist : K) (l : Loc) :
    ∃ hs, worldHeights (linearShading Noise.snoise diagonalDist) l = some hs ∧
      hs.length = totalPtsCt * totalPtsCt ∧
      ∀ h ∈ hs, -1 ≤ h ∧ h ≤ 15 + 1377 / 500 * (max (l.l - 4) 0 : Int) := by
  obtain ⟨hs, hworld, hlen⟩ := exists_worldHeightsAt (linearShading Noise.snoise diagonalDist)
    l.l.toNat l
  refine ⟨hs, hworld, hlen, fun h hh => ?_⟩
  -- up to level 4 the bound does not grow
  by_cases hl : 4 ≤ l.l
  · obtain ⟨hge, hle⟩ := worldHeightsAt_mem rfl hl hworld h hh
    have hextent : (0 : K) < l.extent := l.extent_pos
    rw [max_eq_left (by omega)]
    rw [levelTop_eq] at hle
    push_cast
    exact ⟨hge, by linarith⟩
  · obtain ⟨hge, hle⟩ := worldHeightsAt_coarse_mem (by omega) hworld h hh
    rw [max_eq_right (by omega)]
    push_cast
    exact ⟨hge, by linarith⟩

/-- At the finest level, anywhere. -/
theorem worldHeights_bounded_finest :
    ∃ hs : List ℚ, worldHeights (linearShading Noise.snoise (7 / 10)) ⟨300, 0, -7, 9⟩ = some hs ∧
      ∀ h ∈ hs, -1 ≤ h ∧ h ≤ 29 := by
  obtain ⟨hs, hworld, -, hmem⟩ := worldHeights_bounded (7 / 10 : ℚ) ⟨300, 0, -7, 9⟩
  refine ⟨hs, hworld, fun h hh => ⟨(hmem h hh).1, (hmem h hh).2.trans ?_⟩⟩
  norm_num

end Bounded

end TerrainTile

end MapBg
