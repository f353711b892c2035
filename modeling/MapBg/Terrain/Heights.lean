import MapBg.Terrain.Erosion

/-!
# What `Build` computes: noise, ten passes of erosion, and the heights

The first step of a build is a sequence of dispatches. `cs_noise`, or `cs_copyparent` from level 5
on, writes a height into every texel of the first of two work textures. Ten times `cs_erosion` reads
the one that was written last and writes the other. `cs_copysect` takes the heights from the result.
Both shaders store the height plus one, and `cs_copysect` takes the one off again: in between, zero
is the lowest the terrain can be.

Which of the two textures is read is a number that alternates, `m_texpingpong`. The model has both
textures and the number, and `erode_eq` says that this is the iteration of the pass, whatever was in
the second texture.

That zero is the lowest is the work of the erosion alone. The noise may well be below -1, and
nothing clamps it; but the first pass takes a height that is negative to exactly zero
(`heights_bounded`). So no height of a tile is below -1, and every octree tile that lies lower is
empty (`empty_beyond`).

The noise function `snoise` and the filter by which the parent's texture is sampled are parameters.
-/

set_option autoImplicit false

namespace MapBg

namespace TerrainTile

open OctTile (totalPtsCt)
open Erosion (InTexture texelFetch mainImage Worn Dry zeroTexel)

/-! ## The code -/

section Code

variable {F : Type} [FloatLike F]

/-- The variables of the loop of `fbm`. -/
structure Octave (F : Type) where
  val : F
  p : Vec2 F
  scale : F

def octave (snoise : Vec2 F → F) (s : Octave F) : Octave F :=
  let lacunarity : F := FloatLike.ofInt 189 / FloatLike.ofInt 100
  { val := s.val + snoise s.p * s.scale
    p := ⟨s.p.x * lacunarity, s.p.y * lacunarity⟩
    scale := s.scale * FloatLike.powf2 (-1) }

/-- `noise_octaves`; both shaders have a copy of it. -/
def noiseOctaves (snoise : Vec2 F → F) (p : Vec2 F) : F :=
  ((octave snoise)^[10] ⟨FloatLike.ofInt 0, p, FloatLike.ofInt 1⟩).val

/-- `vec4(0, 0, 0, height + 1)`. -/
def stored (height : F) : Vec4 F :=
  ⟨FloatLike.ofInt 0, FloatLike.ofInt 0, FloatLike.ofInt 0, height + FloatLike.ofInt 1⟩

/-- The height `cs_noise` computes in one invocation. -/
def noiseHeight (snoise : Vec2 F → F) (u : Vec4 F) (id : Nat × Nat) : F :=
  let offset := noiseOffset u id
  let tenth : F := FloatLike.ofInt 1 / FloatLike.ofInt 10
  noiseOctaves snoise ⟨offset.x * tenth, offset.y * tenth⟩

/-- The height `cs_copyparent` computes in one invocation. -/
def copyParentHeight (snoise texture2DLod : Vec2 F → F) (u v : Vec4 F) (id : Nat × Nat) : F :=
  let val := noiseOctaves snoise (detailOffset u id) * u.y
  let texel := parentTexel v id
  let size : F := FloatLike.ofInt 384
  let half : F := FloatLike.powf2 (-1)
  texture2DLod ⟨texel.x / size + half / size, texel.y / size + half / size⟩ + val

/-- The height that the first shader computes, which is one of two. -/
def firstHeight (snoise texture2DLod : Vec2 F → F) (d : Dispatch F) (id : Nat × Nat) : F :=
  match d with
  | .noise u => noiseHeight snoise u id
  | .copyParent u v => copyParentHeight snoise texture2DLod u v id

def firstTexture (snoise texture2DLod : Vec2 F → F) (d : Dispatch F) : Texture (Vec4 F) :=
  fun uv => stored (firstHeight snoise texture2DLod d (uv.1.toNat, uv.2.toNat))

/-- `m_tex` and `m_texpingpong`. -/
structure WorkTextures (T : Type) where
  tex : Fin 2 → T
  texpingpong : Fin 2

/-- One dispatch of the erosion: from the one texture to the other, which is then the current one.
-/
def pass {T : Type} (shader : T → T) (b : WorkTextures T) : WorkTextures T where
  tex := Function.update b.tex (1 - b.texpingpong) (shader (b.tex b.texpingpong))
  texpingpong := 1 - b.texpingpong

def erode [BEq F] (diagonalDist : F) (b : WorkTextures (Texture (Vec4 F))) :
    WorkTextures (Texture (Vec4 F)) :=
  (pass (mainImage diagonalDist))^[numErosionIters.toNat] b

/-- `cs_copysect`. -/
def copySect (tex : Texture (Vec4 F)) : Texture F := fun uv =>
  (texelFetch tex uv).w - FloatLike.ofInt 1

/-- `m_terrain` after step 0. The second work texture holds whatever it did. -/
def terrain [BEq F] (diagonalDist : F) (first other : Texture (Vec4 F)) : Texture F :=
  let b := erode diagonalDist ⟨fun i => if i = 0 then first else other, 0⟩
  copySect (b.tex b.texpingpong)

/-- What `readTexture` leaves in `m_heightData`: the texels, row by row. -/
def heightsOf (terrain : Texture F) : List F :=
  (List.range (totalPtsCt * totalPtsCt)).map fun k =>
    terrain ((k % totalPtsCt : Nat), (k / totalPtsCt : Nat))

end Code

/-! ## The two work textures -/

theorem pass_current {T : Type} (shader : T → T) (b : WorkTextures T) :
    (pass shader b).tex (pass shader b).texpingpong = shader (b.tex b.texpingpong) :=
  Function.update_self ..

/-- The two textures and the switching between them come to nothing but iterating the shader. -/
theorem iterate_pass {T : Type} (shader : T → T) (n : Nat) (b : WorkTextures T) :
    ((pass shader)^[n] b).tex ((pass shader)^[n] b).texpingpong
      = shader^[n] (b.tex b.texpingpong) := by
  induction n with
  | zero => rfl
  | succ n ih =>
    rw [Function.iterate_succ_apply', Function.iterate_succ_apply', pass_current, ih]

/-- The passes, one after the other; the second texture does not matter. -/
theorem erode_eq {F : Type} [FloatLike F] [BEq F] (diagonalDist : F)
    (first other : Texture (Vec4 F)) :
    terrain diagonalDist first other = copySect ((mainImage diagonalDist)^[10] first) := by
  rw [terrain, erode]
  simp only [iterate_pass]
  rfl

/-! ## The bounds -/

section Exact

variable {K : Type} [Field K] [LinearOrder K] [FloorRing K]

/-- What `texelFetch` reads has a property if what is stored has, and zero. -/
theorem texelFetch_of {P : Vec4 K → Prop} (hzero : P zeroTexel) {tex : Texture (Vec4 K)}
    (htex : ∀ uv, InTexture uv → P (tex uv)) (uv : Int × Int) : P (texelFetch tex uv) := by
  unfold texelFetch
  split
  · exact htex uv ‹_›
  · exact hzero

theorem texelFetch_inside {tex : Texture (Vec4 K)} {uv : Int × Int} (h : InTexture uv) :
    texelFetch tex uv = tex uv := if_pos h

variable (snoise texture2DLod : Vec2 K → K) (d : Dispatch K)

theorem firstTexture_dry (uv : Int × Int) : Dry (firstTexture snoise texture2DLod d uv) :=
  ⟨Int.cast_zero, Int.cast_zero⟩

theorem firstTexture_height (uv : Int × Int) : (firstTexture snoise texture2DLod d uv).w
    = firstHeight snoise texture2DLod d (uv.1.toNat, uv.2.toNat) + 1 :=
  congrArg _ Int.cast_one

variable [IsStrictOrderedRing K] (diagonalDist : K) {first tex : Texture (Vec4 K)} {n : Nat}

/-- A texture after the first pass and `n` more. -/
structure Passed (first tex : Texture (Vec4 K)) (n : Nat) : Prop where
  worn : ∀ uv, InTexture uv → Worn (tex uv)
  height_ge : ∀ uv, InTexture uv → (first uv).w - (n + 1) * (3 / 100000) ≤ (tex uv).w
  height_le : ∀ uv, InTexture uv → (tex uv).w ≤ max (first uv).w 0 + n * (153 / 500)

theorem passed_first (h : ∀ uv, InTexture uv → Dry (first uv)) :
    Passed first (mainImage diagonalDist first) 0 := by
  have hpass := Erosion.mainImage_dry diagonalDist (texelFetch_of Erosion.zeroTexel_dry h)
  refine ⟨fun uv _ => (hpass uv).1, ?_, ?_⟩
  · intro uv huv
    have hge := (hpass uv).2.1
    rw [texelFetch_inside huv] at hge
    simpa using hge
  · intro uv huv
    have hle := (hpass uv).2.2
    rw [texelFetch_inside huv] at hle
    simpa using hle

/-- A further pass. What one pass can do to a height is bounded, and the bounds add up. -/
theorem Passed.step (h : Passed first tex n) :
    Passed first (mainImage diagonalDist tex) (n + 1) := by
  have hpass := Erosion.mainImage_worn diagonalDist (texelFetch_of Erosion.zeroTexel_worn h.worn)
  refine ⟨fun uv _ => (hpass uv).1, ?_, ?_⟩
  · intro uv huv
    have hge := (hpass uv).2.1
    have hbefore := h.height_ge uv huv
    rw [texelFetch_inside huv] at hge
    push_cast
    linarith
  · intro uv huv
    have hle := (hpass uv).2.2
    have hbefore := h.height_le uv huv
    rw [texelFetch_inside huv] at hle
    push_cast
    linarith

theorem passed_iterate (h : ∀ uv, InTexture uv → Dry (first uv)) (n : Nat) :
    Passed first ((mainImage diagonalDist)^[n + 1] first) n := by
  induction n with
  | zero => exact passed_first diagonalDist h
  | succ n ih =>
    rw [Function.iterate_succ_apply']
    exact ih.step diagonalDist

/-- A texel of the terrain, against the height it started from. -/
theorem terrain_bounds (other : Texture (Vec4 K)) {uv : Int × Int} (huv : InTexture uv) :
    let before := firstHeight snoise texture2DLod d (uv.1.toNat, uv.2.toNat)
    let after := terrain diagonalDist (firstTexture snoise texture2DLod d) other uv
    (-1 : K) ≤ after ∧ before - 3 / 10000 ≤ after ∧ after ≤ max before (-1) + 1377 / 500 := by
  -- ten passes: the first over dry ground and nine more
  have hpassed := passed_iterate diagonalDist
    (fun uv _ => firstTexture_dry snoise texture2DLod d uv) 9
  have hworn := (hpassed.worn uv huv).height_nonneg
  have hge := hpassed.height_ge uv huv
  have hle := hpassed.height_le uv huv
  rw [firstTexture_height] at hge hle
  -- the heights are stored with 1 added, which `cs_copysect` takes off again
  have hmax : max (firstHeight snoise texture2DLod d (uv.1.toNat, uv.2.toNat) + 1) 0
      = max (firstHeight snoise texture2DLod d (uv.1.toNat, uv.2.toNat)) (-1) + 1 := by
    rw [← max_add_add_right, neg_add_cancel]
  rw [hmax] at hle
  push_cast at hge hle
  rw [erode_eq]
  simp only [copySect, texelFetch_inside huv, ofInt_exact, Int.cast_one]
  refine ⟨?_, ?_, ?_⟩ <;> linarith

/-! ## In the array -/

theorem inTexture_natCast {i j : Nat} (hi : i < totalPtsCt) (hj : j < totalPtsCt) :
    InTexture ((i : Int), (j : Int)) :=
  ⟨⟨Int.natCast_nonneg i, Int.ofNat_lt.mpr hi⟩, Int.natCast_nonneg j, Int.ofNat_lt.mpr hj⟩

theorem length_heightsOf {F : Type} (t : Texture F) :
    (heightsOf t).length = totalPtsCt * totalPtsCt := by
  rw [heightsOf, List.length_map, List.length_range]

/-- The heights are in the order in which the voxel tiles read them. -/
theorem sampleAt_heightsOf {F : Type} (t : Texture F) {i j : Nat} (hi : i < totalPtsCt)
    (hj : j < totalPtsCt) : sampleAt (heightsOf t) i j = some (t (i, j)) := by
  have hcol : (j * totalPtsCt + i) % totalPtsCt = i := by
    rw [Nat.mul_add_mod', Nat.mod_eq_of_lt hi]
  have hrow : (j * totalPtsCt + i) / totalPtsCt = j := by
    rw [Nat.mul_comm, Nat.mul_add_div (Nat.zero_lt_of_lt hi), Nat.div_eq_of_lt hi, Nat.add_zero]
  have hin : j * totalPtsCt + i < totalPtsCt * totalPtsCt := by
    calc j * totalPtsCt + i < j * totalPtsCt + totalPtsCt := Nat.add_lt_add_left hi _
      _ = (j + 1) * totalPtsCt := (Nat.succ_mul j totalPtsCt).symm
      _ ≤ totalPtsCt * totalPtsCt := Nat.mul_le_mul_right _ hj
  rw [sampleAt, heightsOf, List.getElem?_map, List.getElem?_range hin, Option.map_some, hcol, hrow]

theorem exists_texel {F : Type} {t : Texture F} {h : F} (hmem : h ∈ heightsOf t) :
    ∃ uv, InTexture uv ∧ t uv = h := by
  rw [heightsOf, List.mem_map] at hmem
  obtain ⟨k, hk, hheight⟩ := hmem
  have hrow : k / totalPtsCt < totalPtsCt := Nat.div_lt_of_lt_mul (List.mem_range.mp hk)
  have hcol : k % totalPtsCt < totalPtsCt := Nat.mod_lt k (Nat.zero_lt_of_lt hrow)
  exact ⟨_, inTexture_natCast hcol hrow, hheight⟩

/-- **The heights of a built tile.** No height is below -1, none has lost more than `0.0003` to the
erosion, and none has gained more than `2.754`, from -1 if it was lower. -/
theorem heights_bounded (other : Texture (Vec4 K)) :
    let tpts := heightsOf (terrain diagonalDist (firstTexture snoise texture2DLod d) other)
    tpts.length = totalPtsCt * totalPtsCt ∧
    ∀ i j, i < totalPtsCt → j < totalPtsCt → ∃ h, sampleAt tpts i j = some h ∧ -1 ≤ h ∧
      firstHeight snoise texture2DLod d (i, j) - 3 / 10000 ≤ h ∧
      h ≤ max (firstHeight snoise texture2DLod d (i, j)) (-1) + 1377 / 500 := by
  refine ⟨length_heightsOf _, ?_⟩
  intro i j hi hj
  exact ⟨_, sampleAt_heightsOf _ hi hj,
    terrain_bounds snoise texture2DLod d diagonalDist other (inTexture_natCast hi hj)⟩

/-- A tile that starts from a noise of -3 everywhere. -/
theorem heights_bounded_corner : (0 < totalPtsCt ∧ 383 < totalPtsCt) ∧
    ∃ h : ℚ, sampleAt (heightsOf (terrain (7 / 10) (firstTexture (fun _ => -3) (fun _ => 0)
      (.noise (noiseParams ⟨3, 0, 2, 4⟩))) fun _ => zeroTexel)) 0 383 = some h ∧ -1 ≤ h := by
  obtain ⟨h, hsample, hge, -⟩ := (heights_bounded (fun _ => -3) (fun _ => 0)
    (.noise (noiseParams ⟨3, 0, 2, 4⟩)) (7 / 10 : ℚ) fun _ => zeroTexel).2 0 383 (by decide)
    (by decide)
  exact ⟨by decide, h, hsample, hge⟩

/-! ## What the octree sees of it

A height box that ends above a tile, or below it, does not meet its box, and then the tile holds
nothing and is not drawn. -/

theorem maxVal_nonneg : (0 : K) ≤ FloatLike.maxVal := by
  show (0 : K) ≤ (2 ^ 24 - 1) * 2 ^ 104
  positivity

/-- The range of the heights starts at 0 on one side, for which there is the condition on `lo`. -/
theorem le_heightRange {tpts : List K} {lo : K} (hlo : lo ≤ 0) (h : ∀ v ∈ tpts, lo ≤ v) :
    lo ≤ (heightRange tpts).1 := by
  rw [OctTile.heightRange_exact]
  cases (Extreme.foldl_min tpts FloatLike.maxVal).2.2 with
  | inl hmax =>
    rw [hmax]
    exact hlo.trans maxVal_nonneg
  | inr hmem => exact h _ hmem

theorem heightRange_le {tpts : List K} {hi : K} (hhi : 0 ≤ hi) (h : ∀ v ∈ tpts, v ≤ hi) :
    (heightRange tpts).2 ≤ hi := by
  rw [OctTile.heightRange_exact]
  cases (Extreme.foldl_max tpts (-FloatLike.maxVal)).2.2 with
  | inl hmin =>
    rw [hmin]
    exact (neg_nonpos.mpr maxVal_nonneg).trans hhi
  | inr hmem => exact h _ hmem

omit [IsStrictOrderedRing K] in
theorem terrainRle_of_above {l tl : Loc} {tpts : List K}
    (h : (l.getBBox : AABox K).max.y < (heightRange tpts).1) :
    OctTile.terrainRle l (heightBox tl tpts) tpts = .ok none := by
  refine OctTile.terrainRle_of_apart (Bool.eq_false_of_not_eq_true fun hmeet => ?_)
  exact absurd (intersect_exact.mp hmeet).2.1.1 (not_le_of_gt h)

omit [IsStrictOrderedRing K] in
theorem terrainRle_of_below {l tl : Loc} {tpts : List K}
    (h : (heightRange tpts).2 < (l.getBBox : AABox K).min.y) :
    OctTile.terrainRle l (heightBox tl tpts) tpts = .ok none := by
  refine OctTile.terrainRle_of_apart (Bool.eq_false_of_not_eq_true fun hmeet => ?_)
  exact absurd (intersect_exact.mp hmeet).2.1.2 (not_le_of_gt h)

/-- Ten octaves, each of half the amplitude, are less than two of the first. -/
theorem noiseOctaves_le {snoise : Vec2 K → K} {bound : K} (h : ∀ p, |snoise p| ≤ bound)
    (p : Vec2 K) : |noiseOctaves snoise p| ≤ 2 * bound := by
  have hbound : 0 ≤ bound := (abs_nonneg _).trans (h p)
  -- the scale that is left bounds what the octaves to come can add
  have hstep : ∀ s : Octave K, 0 ≤ s.scale ∧ |s.val| ≤ 2 * bound * (1 - s.scale) →
      0 ≤ (octave snoise s).scale ∧
        |(octave snoise s).val| ≤ 2 * bound * (1 - (octave snoise s).scale) := by
    intro s hs
    have hoctave : |snoise s.p * s.scale| ≤ bound * s.scale := by
      rw [abs_mul, abs_of_nonneg hs.1]
      exact mul_le_mul_of_nonneg_right (h _) hs.1
    simp only [octave, half_exact]
    refine ⟨by linarith [hs.1], (abs_add_le _ _).trans ?_⟩
    linarith [hs.2]
  have hten : ∀ n : Nat, 0 ≤ ((octave snoise)^[n] ⟨0, p, 1⟩).scale ∧
      |((octave snoise)^[n] ⟨0, p, 1⟩).val|
        ≤ 2 * bound * (1 - ((octave snoise)^[n] ⟨0, p, 1⟩).scale) := by
    intro n
    induction n with
    | zero => simp
    | succ n ih =>
      rw [Function.iterate_succ_apply']
      exact hstep _ ih
  rw [noiseOctaves, ofInt_exact, ofInt_exact, Int.cast_zero, Int.cast_one]
  refine (hten 10).2.trans ?_
  have hscale := mul_nonneg (mul_nonneg zero_le_two hbound) (hten 10).1
  linarith

/-- **Octree tiles that the terrain does not reach are empty.** Those are all that lie below -1, for
any noise and any parent; and if the tile was made from the noise alone, and the noise is bounded,
those that lie above twice the bound by more than the erosion can have added. -/
theorem empty_beyond (other : Texture (Vec4 K)) (l : Loc) :
    let tpts := heightsOf (terrain diagonalDist (firstTexture snoise texture2DLod d) other)
    ((l.getBBox : AABox K).max.y < -1 →
      OctTile.terrainRle l (heightBox { l with y := 0 } tpts) tpts = .ok none) ∧
    ∀ (bound : K) (u : Vec4 K), (∀ p, |snoise p| ≤ bound) → d = .noise u →
      2 * bound + 1377 / 500 < (l.getBBox : AABox K).min.y →
      OctTile.terrainRle l (heightBox { l with y := 0 } tpts) tpts = .ok none := by
  constructor
  · intro hbelow
    refine terrainRle_of_above (hbelow.trans_le (le_heightRange (by norm_num) ?_))
    intro v hv
    obtain ⟨uv, huv, rfl⟩ := exists_texel hv
    exact (terrain_bounds snoise texture2DLod d diagonalDist other huv).1
  · intro bound u hnoise hd habove
    have hbound : 0 ≤ bound := (abs_nonneg _).trans (hnoise ⟨0, 0⟩)
    refine terrainRle_of_below ((heightRange_le (by linarith) ?_).trans_lt habove)
    intro v hv
    obtain ⟨uv, huv, rfl⟩ := exists_texel hv
    have hle := (terrain_bounds snoise texture2DLod d diagonalDist other huv).2.2
    -- only for noise from scratch; a copy of the parent is bounded by the parent
    have hfirst : firstHeight snoise texture2DLod d (uv.1.toNat, uv.2.toNat) ≤ 2 * bound := by
      rw [hd]
      exact (abs_le.mp (noiseOctaves_le hnoise _)).2
    have hmax : max (firstHeight snoise texture2DLod d (uv.1.toNat, uv.2.toNat)) (-1)
        ≤ 2 * bound := max_le hfirst (by linarith)
    exact hle.trans (by linarith)

theorem empty_beyond_deep : ((⟨0, 0, 0, 8⟩ : Loc).getBBox : AABox ℚ).max.y < -1 ∧
    OctTile.terrainRle ⟨0, 0, 0, 8⟩ (heightBox ⟨0, 0, 0, 8⟩ (heightsOf (terrain (7 / 10 : ℚ)
      (firstTexture (fun _ => -3) (fun _ => 0) (.noise (noiseParams ⟨3, 0, 2, 4⟩)))
      fun _ => zeroTexel))) (heightsOf (terrain (7 / 10 : ℚ)
      (firstTexture (fun _ => -3) (fun _ => 0) (.noise (noiseParams ⟨3, 0, 2, 4⟩)))
      fun _ => zeroTexel)) = .ok none := by
  have hlow : ((⟨0, 0, 0, 8⟩ : Loc).getBBox : AABox ℚ).max.y < -1 := by decide +kernel
  exact ⟨hlow, (empty_beyond (fun _ => -3) (fun _ => 0) (.noise (noiseParams ⟨3, 0, 2, 4⟩))
    (7 / 10 : ℚ) (fun _ => zeroTexel) ⟨0, 0, 0, 8⟩).1 hlow⟩

end Exact

end TerrainTile

end MapBg
