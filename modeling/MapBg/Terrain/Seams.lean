import MapBg.Terrain.Generate

/-!
# Neighbouring tiles fit together

Every tile computes its heights on its own, 64 samples beyond its sides included, and nothing that
one tile has computed is shared with the next. The erosion is not a function of the place: water
runs from texel to texel, and at the edge of the texture there is nothing for it to come from. So
what a tile has near the edge of its texture is wrong, in that a larger texture would have given
something else. The overlap is there to keep that away from the part of the texture that is used.

A pass looks at the texels up to two away (`mainImage_congr`), and ten passes at those up to twenty
away. Two textures that overlap by 128 samples and start out the same there are still the same after
the passes at all but 21 of them on either side (`Fit.erode`). From level 5 on they start from the
textures of the parents, which are two different ones or one and the same. If they are two, they are
neighbours themselves, and the overlap of the children is in the half of the parents' overlap in
which these agree. This is the induction step of `no_seams`: at every level, across every side and
every corner, the tiles have the same heights within 43 samples of their border.

It holds for any noise function. What it takes is that the overlap is large enough for the passes
and that all positions are computed alike. Arithmetic is exact here; a `float` has the position of a
sample from two different sums.
-/

set_option autoImplicit false

namespace MapBg

namespace Erosion

/-! ## How far a pass looks -/

section Local

variable {F : Type} [FloatLike F] {diagonalDist : F} {s s' : Int → Vec4 F}

theorem outFlow_congr (h : ∀ k, 0 ≤ k → k < 25 → s k = s' k) {idx : Int} (hlow : 6 ≤ idx)
    (hhigh : idx ≤ 18) : outFlow diagonalDist s idx = outFlow diagonalDist s' idx := by
  refine List.foldl_ext _ _ _ fun low tap htap => ?_
  rw [outTaps_eq, List.mem_map] at htap
  obtain ⟨dir, hdir, rfl⟩ := htap
  obtain ⟨hcol, hrow⟩ := directions_mem dir hdir
  simp only [testOutFlow, h idx (by omega) (by omega),
    h (idx + (dir.2 * 5 + dir.1)) (by omega) (by omega)]

theorem flowAt_congr (h : ∀ k, 0 ≤ k → k < 25 → s k = s' k) :
    flowAt diagonalDist s = flowAt diagonalDist s' := by
  refine List.foldl_ext _ _ _ fun flow tap htap => ?_
  rw [inTaps_eq, List.mem_map] at htap
  obtain ⟨dir, hdir, rfl⟩ := htap
  obtain ⟨hcol, hrow⟩ := directions_mem dir (neighbours_perm.mem_iff.mp hdir)
  have hidx : 6 ≤ (dir + (2, 2)).2 * 5 + (dir + (2, 2)).1 ∧
      (dir + (2, 2)).2 * 5 + (dir + (2, 2)).1 ≤ 18 := by
    show 6 ≤ (dir.2 + 2) * 5 + (dir.1 + 2) ∧ (dir.2 + 2) * 5 + (dir.1 + 2) ≤ 18
    omega
  simp only [processNeighbour, outFlow_congr h hidx.1 hidx.2, h meIdx (by decide) (by decide),
    h _ (show 0 ≤ (dir + (2, 2)).2 * 5 + (dir + (2, 2)).1 by omega) (by omega)]

/-- The texel itself, and the 25 samples around it. -/
theorem mainImage_congr [BEq F] {tex tex' : Texture (Vec4 F)} {uv uv' : Int × Int}
    (hme : texelFetch tex uv = texelFetch tex' uv')
    (h : ∀ dir : Int × Int, (-2 ≤ dir.1 ∧ dir.1 ≤ 2) → (-2 ≤ dir.2 ∧ dir.2 ≤ 2) →
      seen tex (uv + dir) = seen tex' (uv' + dir)) :
    mainImage diagonalDist tex uv = mainImage diagonalDist tex' uv' := by
  have hsamples (k : Int) (hlow : 0 ≤ k) (hhigh : k < 25) :
      samples tex uv k = samples tex' uv' k := by
    have hk : k = ((k / 5 - 2) + 2) * 5 + ((k % 5 - 2) + 2) := by omega
    rw [hk, samples_eq tex uv (k % 5 - 2, k / 5 - 2) (by simp only; omega),
      samples_eq tex' uv' (k % 5 - 2, k / 5 - 2) (by simp only; omega)]
    exact h _ (by simp only; omega) (by simp only; omega)
  simp only [mainImage, hme, flowAt_congr hsamples]

end Local

end Erosion

namespace TerrainTile

open OctTile (totalPtsCt)
open Erosion (InTexture texelFetch seen mainImage)

/-! ## Across a border

`e` says which axes are crossed; `(0, 0)` is the tile itself, which the induction needs. -/

/-- The tile next to this one, in x, in z or in both, or this one itself. -/
def neighbour (e : Fin 2 × Fin 2) (l : Loc) : Loc :=
  { l with x := l.x + e.1.val, z := l.z + e.2.val }

/-- The place in the texture of a tile that a texel of its neighbour has. -/
def across (e : Fin 2 × Fin 2) (p : Int × Int) : Int × Int :=
  (p.1 + 256 * e.1.val, p.2 + 256 * e.2.val)

/-- On the axes that are crossed, from `lo` to `hi`. -/
def Window (e : Fin 2 × Fin 2) (lo hi : Int) (p : Int × Int) : Prop :=
  (e.1.val = 1 → lo ≤ p.1 ∧ p.1 ≤ hi) ∧ (e.2.val = 1 → lo ≤ p.2 ∧ p.2 ≤ hi)

theorem Window.mono {e : Fin 2 × Fin 2} {lo hi lo' hi' : Int} {p : Int × Int}
    (h : Window e lo hi p) (hlo : lo' ≤ lo) (hhi : hi ≤ hi') : Window e lo' hi' p := by
  obtain ⟨hx, hz⟩ := h
  constructor
  · intro h1
    exact ⟨hlo.trans (hx h1).1, (hx h1).2.trans hhi⟩
  · intro h1
    exact ⟨hlo.trans (hz h1).1, (hz h1).2.trans hhi⟩

/-- Two further in, the texels up to two away are inside. -/
theorem Window.near {e : Fin 2 × Fin 2} {lo hi : Int} {p dir : Int × Int}
    (h : Window e (lo + 2) (hi - 2) p) (hcol : -2 ≤ dir.1 ∧ dir.1 ≤ 2)
    (hrow : -2 ≤ dir.2 ∧ dir.2 ≤ 2) : Window e lo hi (p + dir) := by
  obtain ⟨hx, hz⟩ := h
  constructor
  · intro h1
    have := hx h1
    show lo ≤ p.1 + dir.1 ∧ p.1 + dir.1 ≤ hi
    omega
  · intro h1
    have := hz h1
    show lo ≤ p.2 + dir.2 ∧ p.2 + dir.2 ≤ hi
    omega

theorem across_add (e : Fin 2 × Fin 2) (p dir : Int × Int) :
    across e p + dir = across e (p + dir) :=
  Prod.ext (add_right_comm ..) (add_right_comm ..)

theorem across_natCast (e : Fin 2 × Fin 2) (i j : Nat) :
    across e (i, j) = (((i + 256 * e.1.val : Nat) : Int), ((j + 256 * e.2.val : Nat) : Int)) := by
  simp only [across, Nat.cast_add, Nat.cast_mul, Nat.cast_ofNat]

section Passes

variable {F : Type} [FloatLike F] {e : Fin 2 × Fin 2} {lo hi : Int} {p : Int × Int}
  {tex tex' : Texture (Vec4 F)}

/-- Two textures agree on a window that both contain. -/
def Fit (e : Fin 2 × Fin 2) (lo hi : Int) (tex tex' : Texture (Vec4 F)) : Prop :=
  ∀ p, Window e lo hi p → texelFetch tex (across e p) = texelFetch tex' p

/-- In the window neither texture ends where the other goes on. -/
theorem inTexture_across (h : Window e 0 127 p) : InTexture (across e p) ↔ InTexture p := by
  obtain ⟨hx, hz⟩ := h
  have hx2 := e.1.isLt
  have hz2 := e.2.isLt
  unfold InTexture across
  rw [show (totalPtsCt : Int) = 384 from rfl]
  simp only
  omega

/-- Away from the edge the texel in the corner is not met, in either texture. -/
theorem Fit.seen_eq (h : Fit e lo hi tex tex') (hlo : 1 ≤ lo) (hp : Window e lo hi p) :
    seen tex (across e p) = seen tex' p := by
  have hx2 := e.1.isLt
  have hz2 := e.2.isLt
  -- a tile against itself is trivial; otherwise the data texel of either is outside of the window
  by_cases he : e.1.val = 0 ∧ e.2.val = 0
  · have hacross (q : Int × Int) : across e q = q := by
      unfold across
      rw [he.1, he.2]
      simp
    have hsame := h (Erosion.skipDataTexel p) ⟨fun h1 => by omega, fun h1 => by omega⟩
    rw [hacross] at hsame ⊢
    exact hsame
  · have hne : p ≠ (0, 0) := by
      rintro rfl
      obtain ⟨hx, hz⟩ := hp
      simp only at hx hz
      omega
    have hne' : across e p ≠ (0, 0) := by
      intro hzero
      obtain ⟨hx, hz⟩ := hp
      unfold across at hzero
      simp only [Prod.mk.injEq] at hzero
      omega
    rw [Erosion.seen_of_ne hne, Erosion.seen_of_ne hne']
    exact h p hp

/-- A pass looks two texels far, and the window loses two on each side. -/
theorem Fit.pass [BEq F] (h : Fit e lo hi tex tex') (diagonalDist : F) (hlo : 1 ≤ lo)
    (hhi : hi ≤ 127) :
    Fit e (lo + 2) (hi - 2) (mainImage diagonalDist tex) (mainImage diagonalDist tex') := by
  intro p hp
  have hin := inTexture_across (hp.mono (show 0 ≤ lo + 2 by omega) (show hi - 2 ≤ 127 by omega))
  have hme := h p (hp.mono (show lo ≤ lo + 2 by omega) (show hi - 2 ≤ hi by omega))
  have hpass : mainImage diagonalDist tex (across e p) = mainImage diagonalDist tex' p := by
    apply Erosion.mainImage_congr hme
    intro dir hcol hrow
    rw [across_add]
    exact h.seen_eq hlo (hp.near hcol hrow)
  unfold texelFetch
  rw [hpass]
  -- where neither texture has a texel both are read as 0
  by_cases hp : InTexture p
  · rw [if_pos hp, if_pos (hin.mpr hp)]
  · rw [if_neg hp, if_neg (mt hin.mp hp)]

/-- Each pass takes two samples on either side. -/
theorem Fit.erode [BEq F] (h : Fit e 1 127 tex tex') (diagonalDist : F) (n : Nat) :
    Fit e (1 + 2 * n) (127 - 2 * n) ((mainImage diagonalDist)^[n] tex)
      ((mainImage diagonalDist)^[n] tex') := by
  induction n with
  | zero => exact h
  | succ n ih =>
    rw [Function.iterate_succ_apply', Function.iterate_succ_apply']
    have hpass := ih.pass diagonalDist (by omega) (by omega)
    have hlo : (1 + 2 * n + 2 : Int) = 1 + 2 * ((n + 1 : Nat) : Int) := by omega
    have hhi : (127 - 2 * n - 2 : Int) = 127 - 2 * ((n + 1 : Nat) : Int) := by omega
    rw [hlo, hhi] at hpass
    exact hpass

/-- What the first shaders wrote. -/
theorem fit_firstTexture {snoise texture2DLod texture2DLod' : Vec2 F → F} {d d' : Dispatch F}
    (h : ∀ i j : Nat, i < totalPtsCt → j < totalPtsCt → Window e 0 127 (i, j) →
      firstHeight snoise texture2DLod d (i + 256 * e.1.val, j + 256 * e.2.val)
        = firstHeight snoise texture2DLod' d' (i, j)) :
    Fit e 1 127 (firstTexture snoise texture2DLod d) (firstTexture snoise texture2DLod' d') := by
  intro p hp
  have hwide : Window e 0 127 p := hp.mono (by decide) le_rfl
  unfold texelFetch
  -- inside, both shaders compute for the same position; outside, both read 0
  by_cases hin : InTexture p
  · rw [if_pos hin, if_pos ((inTexture_across hwide).mpr hin)]
    obtain ⟨⟨hx, hx'⟩, hz, hz'⟩ := hin
    obtain ⟨u, v⟩ := p
    obtain ⟨i, rfl⟩ := Int.eq_ofNat_of_zero_le hx
    obtain ⟨j, rfl⟩ := Int.eq_ofNat_of_zero_le hz
    have hheight := h i j (Int.ofNat_lt.mp hx') (Int.ofNat_lt.mp hz') hwide
    simp only [across_natCast, firstTexture, Int.toNat_natCast, hheight]
  · rw [if_neg hin, if_neg (mt (inTexture_across hwide).mp hin)]

end Passes

/-- The heights of two tiles, from 21 to 107 on the axes that are crossed. -/
def Fits {F : Type} (e : Fin 2 × Fin 2) (hs hs' : List F) : Prop :=
  ∀ i j : Nat, i < totalPtsCt → j < totalPtsCt → Window e 21 107 (i, j) →
    sampleAt hs (i + 256 * e.1.val) (j + 256 * e.2.val) = sampleAt hs' i j

/-- After the ten passes. -/
theorem Fit.heights {F : Type} [FloatLike F] [BEq F] {e : Fin 2 × Fin 2}
    {first first' : Texture (Vec4 F)} (h : Fit e 1 127 first first') (diagonalDist : F)
    (other other' : Texture (Vec4 F)) :
    Fits e (heightsOf (terrain diagonalDist first other))
      (heightsOf (terrain diagonalDist first' other')) := by
  intro i j hi hj hp
  have hin := (inTexture_across (hp.mono (by decide) (by decide))).mpr (inTexture_natCast hi hj)
  rw [across_natCast] at hin
  obtain ⟨⟨-, hi'⟩, -, hj'⟩ := hin
  have hpassed := h.erode diagonalDist 10 (i, j) hp
  rw [across_natCast] at hpassed
  rw [sampleAt_heightsOf _ (Int.ofNat_lt.mp hi') (Int.ofNat_lt.mp hj'), sampleAt_heightsOf _ hi hj,
    erode_eq, erode_eq]
  exact congrArg (fun texel : Vec4 F => some (texel.w - FloatLike.ofInt 1)) hpassed

/-! ## The parents

`parentStep` is the step between the parents, on one axis: from an odd coordinate to the next one,
the parent changes too. -/

/-- The step from parent to parent: the neighbour has the same one or the next. -/
def parentStep (c : Int) (k : Fin 2) : Fin 2 := ⟨((c + k.val) / 2 - c / 2).toNat, by omega⟩

theorem parentStep_val (c : Int) (k : Fin 2) :
    ((parentStep c k).val : Int) = (c + k.val) / 2 - c / 2 := by
  have hk := k.isLt
  show (((c + k.val) / 2 - c / 2).toNat : Int) = _
  omega

def parentSteps (e : Fin 2 × Fin 2) (l : Loc) : Fin 2 × Fin 2 :=
  (parentStep l.x e.1, parentStep l.z e.2)

/-- The parent of a neighbour is a neighbour of the parent, or the parent itself. -/
theorem parent_neighbour (e : Fin 2 × Fin 2) (l : Loc) :
    (neighbour e l).parent = neighbour (parentSteps e l) l.parent := by
  rw [Loc.parent_eq, Loc.parent_eq]
  simp only [neighbour, parentSteps, parentStep_val, Loc.mk.injEq, and_true, true_and]
  omega

/-- The texel of the parent's texture that is below a sample, on one axis. -/
def texelBelow (c : Int) (i : Nat) : Int := (i / 2 : Nat) + 32 + 128 * (c % 2)

/-- It is inside of the texture with the one after it, and if there are two parents, where they
agree. -/
theorem texelBelow_mem (c : Int) {k : Fin 2} {i : Nat} (hi : i < totalPtsCt)
    (hwindow : k.val = 1 → (0 : Int) ≤ i ∧ (i : Int) ≤ 127) :
    (0 ≤ texelBelow (c + k.val) i ∧ texelBelow (c + k.val) i + 1 < totalPtsCt) ∧
      ((parentStep c k).val = 1 →
        21 ≤ texelBelow (c + k.val) i ∧ texelBelow (c + k.val) i + 1 ≤ 107) := by
  have hk := k.isLt
  have hstep := parentStep_val c k
  unfold texelBelow
  rw [show totalPtsCt = 384 from rfl] at hi ⊢
  constructor
  · omega
  · intro h
    rw [h] at hstep
    omega

/-! ## Any two tiles

A tile has its neighbours on all sides, and `neighbour` goes up only. Two tiles that have a place in
common are both neighbours, in that sense, of the one with the lower coordinates on each axis. On
the other diagonal this is a third tile. -/

/-- One place of the world on one axis: `i` in the texture of a tile at `c`, and `i'` in the texture
of one at `c'`. If these are two, the border between them is at 320 in the lower one and at 64 in
the other, and the place is at most 43 samples away from it. -/
structure Shared (c c' : Int) (i i' : Nat) : Prop where
  here : i < totalPtsCt
  there : i' < totalPtsCt
  place : (i : Int) + 256 * c = i' + 256 * c'
  near : c ≠ c' → 21 ≤ min i i' ∧ min i i' ≤ 107

/-- On one axis, the lower coordinate and how far the two are from it. -/
theorem Shared.base {c c' : Int} {i i' : Nat} (h : Shared c c' i i') :
    ∃ (base : Int) (k k' : Fin 2), c = base + k.val ∧ c' = base + k'.val ∧
      i + 256 * k.val = i' + 256 * k'.val ∧
      (k.val = 1 → 21 ≤ (i : Int) ∧ (i : Int) ≤ 107) ∧
      (k'.val = 1 → 21 ≤ (i' : Int) ∧ (i' : Int) ≤ 107) := by
  obtain ⟨hi, hi', hplace, hnear⟩ := h
  rw [show totalPtsCt = 384 from rfl] at hi hi'
  -- the base is the lower of the two
  rcases Int.lt_trichotomy c c' with hlt | heq | hgt
  · refine ⟨c, 0, 1, by simp, by simp; omega, by simp; omega, by simp, ?_⟩
    intro _
    have := hnear (by omega)
    omega
  · exact ⟨c, 0, 0, by simp, by simp [heq], by simp; omega, by simp, by simp⟩
  · refine ⟨c', 1, 0, by simp; omega, by simp, by simp; omega, ?_, by simp⟩
    intro _
    have := hnear (by omega)
    omega

/-- Two tiles with a sample in common are both neighbours of some third, which may be one of them.
-/
theorem exists_base {l l' : Loc} (hy : l'.y = l.y) (hl : l'.l = l.l) {i j i' j' : Nat}
    (hx : Shared l.x l'.x i i') (hz : Shared l.z l'.z j j') :
    ∃ (e e' : Fin 2 × Fin 2) (base : Loc), neighbour e base = l ∧ neighbour e' base = l' ∧
      i + 256 * e.1.val = i' + 256 * e'.1.val ∧ j + 256 * e.2.val = j' + 256 * e'.2.val ∧
      Window e 21 107 (i, j) ∧ Window e' 21 107 (i', j') := by
  obtain ⟨x, kx, kx', hc, hc', hi, hw, hw'⟩ := hx.base
  obtain ⟨z, kz, kz', hcz, hcz', hj, hwz, hwz'⟩ := hz.base
  refine ⟨(kx, kz), (kx', kz'), ⟨x, l.y, z, l.l⟩, ?_, ?_, hi, hj, ⟨hw, hwz⟩, ⟨hw', hwz'⟩⟩
  · simp only [neighbour, ← hc, ← hcz]
  · simp only [neighbour, ← hc', ← hcz', ← hy, ← hl]

theorem exists_sampleAt {F : Type} {hs : List F} (hlen : hs.length = totalPtsCt * totalPtsCt)
    {i j : Nat} (hi : i < totalPtsCt) (hj : j < totalPtsCt) : ∃ h, sampleAt hs i j = some h := by
  have hin : j * totalPtsCt + i < hs.length := by
    rw [hlen]
    calc j * totalPtsCt + i < j * totalPtsCt + totalPtsCt := Nat.add_lt_add_left hi _
      _ = (j + 1) * totalPtsCt := (Nat.succ_mul j totalPtsCt).symm
      _ ≤ totalPtsCt * totalPtsCt := Nat.mul_le_mul_right _ hj
  exact ⟨_, List.getElem?_eq_getElem hin⟩

section Exact

variable {K : Type} [Field K] [LinearOrder K] [FloorRing K] {l : Loc} {e : Fin 2 × Fin 2}
  {snoise : Vec2 K → K} {diagonalDist : K} {other : Texture (Vec4 K)} {hs hs' : List K}

theorem samplePos_neighbour (e : Fin 2 × Fin 2) (l : Loc) (i j : K) :
    samplePos l (i + 256 * e.1.val) (j + 256 * e.2.val) = samplePos (neighbour e l) i j := by
  rw [samplePos_eq, samplePos_eq]
  simp only [neighbour, Loc.edge, Loc.extent, Vec2.mk.injEq]
  push_cast
  constructor <;> ring

theorem detailOffset_neighbour (e : Fin 2 × Fin 2) (l : Loc) (i j : Nat) :
    detailOffset (copyParentParams l : Vec4 K) (i + 256 * e.1.val, j + 256 * e.2.val)
      = detailOffset (copyParentParams (neighbour e l)) (i, j) := by
  simp only [detailOffset, copyParentParams, neighbour, ofInt_exact, Vec2.mk.injEq]
  push_cast
  constructor <;> ring

/-- The noise is that of a position on the map, whichever tile asks. -/
theorem noiseHeight_across (snoise : Vec2 K → K) (e : Fin 2 × Fin 2) (l : Loc) (i j : Nat) :
    noiseHeight snoise (noiseParams l) (i + 256 * e.1.val, j + 256 * e.2.val)
      = noiseHeight snoise (noiseParams (neighbour e l)) (i, j) := by
  have hoffset : noiseOffset (noiseParams l : Vec4 K) (i + 256 * e.1.val, j + 256 * e.2.val)
      = noiseOffset (noiseParams (neighbour e l)) (i, j) := by
    rw [noiseOffset_eq, noiseOffset_eq, ← samplePos_neighbour]
    push_cast
    rfl
  simp only [noiseHeight, hoffset]

/-- At the coarse levels both textures start out as noise of positions on the map, and each of the
ten passes takes two texels off the window on either side. -/
theorem fits_coarse (hl : l.l < 5) {parent parent' : Option (Texture K)}
    (hgen : generate (linearShading snoise diagonalDist) other l parent = some hs)
    (hgen' : generate (linearShading snoise diagonalDist) other (neighbour e l) parent'
      = some hs') : Fits e hs hs' := by
  have hl' : (neighbour e l).l < 5 := hl
  rw [generate, firstDispatch_coarse hl, Option.map_some, Option.some.injEq] at hgen
  rw [generate, firstDispatch_coarse hl', Option.map_some, Option.some.injEq] at hgen'
  subst hgen hgen'
  apply Fit.heights
  apply fit_firstTexture
  intro i j _ _ _
  exact noiseHeight_across snoise e l i j

theorem copyParentHeight_exact (snoise : Vec2 K → K) (tex : Texture K) (u v : Vec4 K)
    (id : Nat × Nat) : copyParentHeight snoise (bilinear tex) u v id
      = between tex (parentTexel v id) + noiseOctaves snoise (detailOffset u id) * u.y := by
  have hsize : (FloatLike.ofInt 384 : K) = 384 := by
    rw [ofInt_exact]
    norm_num
  simp only [copyParentHeight, hsize, half_exact, bilinear_texel]

/-- A texel of the parents' textures. -/
theorem Fits.texel (h : Fits e hs hs') {a b : Int} (hin : InTexture (a, b))
    (hw : Window e 21 107 (a, b)) :
    textureOf hs (clampTexel (a + 256 * e.1.val), clampTexel (b + 256 * e.2.val))
      = textureOf hs' (clampTexel a, clampTexel b) := by
  have hin' := (inTexture_across (hw.mono (by decide) (by decide))).mpr hin
  obtain ⟨⟨ha, ha'⟩, hb, hb'⟩ := hin
  unfold across at hin'
  obtain ⟨hx, hz⟩ := hin'
  simp only at ha ha' hb hb' hx hz
  rw [clampTexel_of_mem ⟨ha, ha'⟩, clampTexel_of_mem ⟨hb, hb'⟩, clampTexel_of_mem hx,
    clampTexel_of_mem hz]
  obtain ⟨i, rfl⟩ := Int.eq_ofNat_of_zero_le ha
  obtain ⟨j, rfl⟩ := Int.eq_ofNat_of_zero_le hb
  have hsample := h i j (Int.ofNat_lt.mp ha') (Int.ofNat_lt.mp hb') hw
  have hplace := across_natCast e i j
  unfold across at hplace
  rw [hplace, textureOf_natCast, textureOf_natCast, hsample]

variable [IsStrictOrderedRing K]

/-- Where a sample is in the parent's texture, on one axis: as many texels on as the parents are
apart. -/
theorem texel_across (c : Int) (k : Fin 2) (i : Nat) :
    ((i + 256 * k.val : Nat) : K) * (1 / 2) + (32 + 128 * ((c % 2 : Int) : K))
      = i * (1 / 2) + (32 + 128 * (((c + k.val) % 2 : Int) : K)) + 256 * (parentStep c k).val := by
  have hstep : (128 * k.val + 128 * (c % 2) : Int)
      = 128 * ((c + k.val) % 2) + 256 * (parentStep c k).val := by
    rw [parentStep_val]
    omega
  have hcast : (128 * (k.val : K) + 128 * ((c % 2 : Int) : K))
      = 128 * (((c + k.val) % 2 : Int) : K) + 256 * ((parentStep c k).val : K) := by
    exact_mod_cast congrArg (Int.cast : Int → K) hstep
  push_cast
  linarith

theorem floor_texel (c : Int) (i : Nat) :
    ⌊(i : K) * (1 / 2) + (32 + 128 * ((c % 2 : Int) : K))⌋ = texelBelow c i := by
  have hcast : ((texelBelow c i : Int) : K)
      = ((i / 2 : Nat) : K) + 32 + 128 * ((c % 2 : Int) : K) := by
    simp only [texelBelow, Int.cast_add, Int.cast_mul, Int.cast_natCast, Int.cast_ofNat]
  have hhalf : (i : K) = 2 * ((i / 2 : Nat) : K) + ((i % 2 : Nat) : K) := by
    exact_mod_cast (Nat.div_add_mod i 2).symm
  have hlow : (0 : K) ≤ ((i % 2 : Nat) : K) := Nat.cast_nonneg _
  have hhigh : ((i % 2 : Nat) : K) ≤ 1 := by
    exact_mod_cast Nat.le_of_lt_succ (Nat.mod_lt i (by decide))
  rw [Int.floor_eq_iff, hcast, hhalf]
  constructor <;> linarith

/-! ## Between the texels -/

theorem between_across {tex tex' : Texture K} {p p' : Vec2 K}
    (hx : p.x = p'.x + 256 * e.1.val) (hy : p.y = p'.y + 256 * e.2.val)
    (h : ∀ a b : Int, 0 ≤ a ∧ a ≤ 1 → 0 ≤ b ∧ b ≤ 1 →
      tex (clampTexel (⌊p'.x⌋ + a + 256 * e.1.val), clampTexel (⌊p'.y⌋ + b + 256 * e.2.val))
        = tex' (clampTexel (⌊p'.x⌋ + a), clampTexel (⌊p'.y⌋ + b))) :
    between tex p = between tex' p' := by
  have hfloor (a : K) (k : Nat) : ⌊a + 256 * (k : K)⌋ = ⌊a⌋ + 256 * (k : Int) := by
    exact_mod_cast Int.floor_add_intCast a (256 * (k : Int))
  have hfract (a : K) (k : Nat) : Noise.fract (a + 256 * (k : K)) = Noise.fract a := by
    simp only [Noise.fract, Noise.floor_exact, hfloor]
    push_cast
    ring
  -- the four texels around the point
  have h00 := h 0 0 (by decide) (by decide)
  have h10 := h 1 0 (by decide) (by decide)
  have h01 := h 0 1 (by decide) (by decide)
  have h11 := h 1 1 (by decide) (by decide)
  simp only [add_zero, add_right_comm _ (1 : Int)] at h00 h10 h01 h11
  simp only [between, hx, hy, Noise.floor_exact, toInt_intCast, hfloor, hfract, h00, h10, h01, h11]

/-- From parents that fit, or from the same one. -/
theorem copyParentHeight_across (snoise : Vec2 K → K) (h : Fits (parentSteps e l) hs hs')
    {v v' : Vec4 K} (hv : parentOffset l = some v)
    (hv' : parentOffset (neighbour e l) = some v') {i j : Nat} (hi : i < totalPtsCt)
    (hj : j < totalPtsCt) (hw : Window e 0 127 (i, j)) :
    copyParentHeight snoise (bilinear (textureOf hs)) (copyParentParams l) v
        (i + 256 * e.1.val, j + 256 * e.2.val)
      = copyParentHeight snoise (bilinear (textureOf hs')) (copyParentParams (neighbour e l)) v'
        (i, j) := by
  obtain ⟨w, hw1, htexel⟩ := parentTexel_eq (K := K) l (i + 256 * e.1.val) (j + 256 * e.2.val)
  obtain rfl : w = v := Option.some.inj (hw1.symm.trans hv)
  obtain ⟨w', hw1', htexel'⟩ := parentTexel_eq (K := K) (neighbour e l) i j
  obtain rfl : w' = v' := Option.some.inj (hw1'.symm.trans hv')
  obtain ⟨hx, hxw⟩ := texelBelow_mem l.x hi hw.1
  obtain ⟨hz, hzw⟩ := texelBelow_mem l.z hj hw.2
  have hscale : (copyParentParams l : Vec4 K).y = (copyParentParams (neighbour e l)).y := rfl
  rw [copyParentHeight_exact, copyParentHeight_exact, detailOffset_neighbour, hscale, htexel,
    htexel']
  congr 1
  -- the noise is that of one position; what is left is to read the two parents
  refine between_across (e := parentSteps e l) (texel_across l.x e.1 i) (texel_across l.z e.2 j) ?_
  intro a b ha hb
  have hfx := floor_texel (K := K) (l.x + e.1.val) i
  have hfz := floor_texel (K := K) (l.z + e.2.val) j
  simp only [neighbour, hfx, hfz]
  -- both texels around the sample are in the window on which the parents agree
  apply h.texel
  · exact ⟨by simp only; omega, by simp only; omega⟩
  · constructor
    · intro h1
      have := hxw h1
      simp only
      omega
    · intro h1
      have := hzw h1
      simp only
      omega

/-! ## All levels -/

/-- At a fine level the first texture is made from that of the parent, where the two parents agree
by induction. -/
theorem fits_fine (hl : 5 ≤ l.l) {parent parent' : List K}
    (h : Fits (parentSteps e l) parent parent')
    (hgen : generate (linearShading snoise diagonalDist) other l (some (textureOf parent))
      = some hs)
    (hgen' : generate (linearShading snoise diagonalDist) other (neighbour e l)
      (some (textureOf parent')) = some hs') : Fits e hs hs' := by
  have hl' : 5 ≤ (neighbour e l).l := hl
  obtain ⟨v, hv⟩ : ∃ v : Vec4 K, parentOffset l = some v := ⟨_, parentOffset_eq l⟩
  obtain ⟨v', hv'⟩ : ∃ v : Vec4 K, parentOffset (neighbour e l) = some v := ⟨_, parentOffset_eq _⟩
  rw [generate, Option.isSome_some, firstDispatch_fine hl hv, Option.map_some,
    Option.some.injEq] at hgen
  rw [generate, Option.isSome_some, firstDispatch_fine hl' hv', Option.map_some,
    Option.some.injEq] at hgen'
  subst hgen hgen'
  -- the passes keep what the first textures have in common
  apply Fit.heights
  apply fit_firstTexture
  intro i j hi hj hw
  exact copyParentHeight_across snoise h hv hv' hi hj hw

/-- By induction on the level. Ten passes of two texels each are within the 64 of the border. -/
theorem fits_worldHeightsAt {n : Nat} (hn : l.l.toNat = n)
    (hworld : worldHeightsAt (linearShading snoise diagonalDist) n l = some hs)
    (hworld' : worldHeightsAt (linearShading snoise diagonalDist) n (neighbour e l) = some hs') :
    Fits e hs hs' := by
  induction n generalizing l e hs hs' with
  | zero => exact fits_coarse (by omega) hworld hworld'
  | succ n ih =>
    obtain ⟨parent, hparent, hgen⟩ := Option.bind_eq_some_iff.mp hworld
    obtain ⟨parent', hparent', hgen'⟩ := Option.bind_eq_some_iff.mp hworld'
    by_cases hl : l.l < 5
    · exact fits_coarse hl hgen hgen'
    · -- the parents are neighbours as well, or one and the same
      rw [parent_neighbour] at hparent'
      have hlevel : l.parent.l.toNat = n := by
        show (l.l - 1).toNat = n
        omega
      exact fits_fine (by omega) (ih hlevel hparent hparent') hgen hgen'

/-- **There are no seams.** Two tiles of a level, on either side of a border or around a corner in
any way: what both of them have, up to 43 samples from the border, is the same, at every level and
for any noise. -/
theorem no_seams (snoise : Vec2 K → K) (diagonalDist : K) (l l' : Loc) (hy : l'.y = l.y)
    (hl : l'.l = l.l) :
    ∃ hs hs', worldHeights (linearShading snoise diagonalDist) l = some hs ∧
      worldHeights (linearShading snoise diagonalDist) l' = some hs' ∧
      ∀ i j i' j' : Nat, Shared l.x l'.x i i' → Shared l.z l'.z j j' →
        ∃ h, sampleAt hs i j = some h ∧ sampleAt hs' i' j' = some h := by
  obtain ⟨hs, hworld, hlen⟩ := exists_worldHeightsAt (linearShading snoise diagonalDist) l.l.toNat l
  obtain ⟨hs', hworld', -⟩ :=
    exists_worldHeightsAt (linearShading snoise diagonalDist) l'.l.toNat l'
  refine ⟨hs, hs', hworld, hworld', ?_⟩
  intro i j i' j' hx hz
  -- both are neighbours of the tile with the lower coordinates, which may be a third one
  obtain ⟨e, e', base, rfl, rfl, hi, hj, hw, hw'⟩ := exists_base hy hl hx hz
  obtain ⟨hb, hbase, -⟩ := exists_worldHeightsAt (linearShading snoise diagonalDist)
    base.l.toNat base
  have hfit := fits_worldHeightsAt rfl hbase hworld i j hx.here hz.here hw
  have hfit' := fits_worldHeightsAt rfl hbase hworld' i' j' hx.there hz.there hw'
  obtain ⟨h, hh⟩ := exists_sampleAt hlen hx.here hz.here
  refine ⟨h, hh, ?_⟩
  rw [← hfit', ← hi, ← hj, hfit, hh]

/-- Where four parents meet, right at the corner, across the two diagonals. -/
theorem no_seams_corner : ∃ a b c d : List ℚ, ∃ h h' : ℚ,
    worldHeights (linearShading Noise.snoise (7 / 10)) ⟨7, 0, -1, 6⟩ = some a ∧
    worldHeights (linearShading Noise.snoise (7 / 10)) ⟨8, 0, 0, 6⟩ = some b ∧
    worldHeights (linearShading Noise.snoise (7 / 10)) ⟨8, 0, -1, 6⟩ = some c ∧
    worldHeights (linearShading Noise.snoise (7 / 10)) ⟨7, 0, 0, 6⟩ = some d ∧
    (sampleAt a 320 320 = some h ∧ sampleAt b 64 64 = some h) ∧
    (sampleAt c 64 320 = some h' ∧ sampleAt d 320 64 = some h') := by
  have hup : Shared 7 8 320 64 := ⟨by decide, by decide, by decide, by decide⟩
  have hdown : Shared 8 7 64 320 := ⟨by decide, by decide, by decide, by decide⟩
  have hup' : Shared (-1) 0 320 64 := ⟨by decide, by decide, by decide, by decide⟩
  obtain ⟨a, b, ha, hb, hab⟩ := no_seams Noise.snoise (7 / 10 : ℚ) ⟨7, 0, -1, 6⟩ ⟨8, 0, 0, 6⟩
    rfl rfl
  obtain ⟨c, d, hc, hd, hcd⟩ := no_seams Noise.snoise (7 / 10 : ℚ) ⟨8, 0, -1, 6⟩ ⟨7, 0, 0, 6⟩
    rfl rfl
  obtain ⟨h, hh⟩ := hab 320 320 64 64 hup hup'
  obtain ⟨h', hh'⟩ := hcd 64 320 320 64 hdown hup'
  exact ⟨a, b, c, d, h, h', ha, hb, hc, hd, hh, hh'⟩

end Exact

end TerrainTile

end MapBg
