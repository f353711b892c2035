import Mathlib.Data.Real.Sign
import MapBg.Select.Camera
import MapBg.World.Keys

/-!
# The second half of `World::Update`: how the camera moves

Once a frame the camera moves by the velocities of the keys, along its own right, the vertical, and
the horizontal direction ahead, which is made from the right by a cross product. Flying is ten times
as fast as walking and inspecting fifty times. The fall adds to the vertical velocity; it begins
anew when flying or inspecting, or where there is no tile that is loaded.

In flight the way is straight, and its length depends on the keys only, not on the direction or the
tilt (`moves_straight`), if the camera does not look straight up or down and no fall is left over
from walking. When walking, a check for collisions decides whether the camera falls on.
`IsCollided` prepares one and returns false. So nothing holds the camera up: it falls through
whatever is loaded, out of the world at the bottom, and only there it comes to rest (`moves_out`).

Velocities are those of `Keys`, in units of `speed`. At most two keys of an axis are held in the
same direction, so that this is what the sum is in floating point as well.
-/

set_option autoImplicit false

namespace MapBg

/-! ## The code -/

section Code

variable {F : Type} [FloatMath F]

/-- `m_camVel`. -/
def Controls.velocity (s : Controls) (a : Axis) : F :=
  FloatLike.ofInt (s.camVel a) * (FloatLike.ofInt 1 / FloatLike.ofInt 1000)

/-- `flyspeedup`, which is 500 for inspecting while flying. -/
def Controls.flyspeedup (s : Controls) : F :=
  let flyspeedup : F := FloatLike.ofInt 1
  let flyspeedup := if s.flymode then flyspeedup * FloatLike.ofInt 10 else flyspeedup
  if s.inspectmode then flyspeedup * FloatLike.ofInt 50 else flyspeedup

/-- The position after a frame. The direction ahead is horizontal, as `right` is. -/
def Controls.newPos [BEq F] (s : Controls) (gravityVel : F) (dfly : Fly F) : Point3 F :=
  let right := dfly.getDirs.right
  let upworld : Point3 F := ⟨FloatLike.ofInt 0, FloatLike.ofInt 1, FloatLike.ofInt 0⟩
  -- horizontal, however the camera is tilted
  let fwWorld := cross right upworld
  let x : F := s.velocity .x
  let y := s.velocity .y + gravityVel
  let z : F := s.velocity .z
  let k : F := s.flyspeedup
  ⟨dfly.pos.x + x * right.x * k + y * upworld.x * k + z * fwWorld.x * k,
    dfly.pos.y + x * right.y * k + y * upworld.y * k + z * fwWorld.y * k,
    dfly.pos.z + x * right.z * k + y * upworld.z * k + z * fwWorld.z * k⟩

/-- `OctTile::IsCollided`, which computes two corners and returns this. -/
def isCollided : Bool := false

/-- `tile` is the `readyState` of the tile the camera is in, if there is one. -/
def Controls.nextGravity (s : Controls) (tile : Option Int) (gravityVel : F) : F :=
  if !s.inspectmode then
    match tile with
    | none => FloatLike.ofInt 0
    | some readyState =>
      if readyState < 3 then FloatLike.ofInt 0
      else if !isCollided && !s.flymode then gravityVel - FloatLike.ofInt 1 / FloatLike.ofInt 2000
      else FloatLike.ofInt 0
  else FloatLike.ofInt 0

/-- What `m_gravityVel` is after so many frames of falling: it begins at 0 and is lowered by the
same amount each time. -/
def fallen (n : Nat) : F :=
  (fun g : F => g - FloatLike.ofInt 1 / FloatLike.ofInt 2000)^[n] (FloatLike.ofInt 0)

/-- A frame lowers it once more or resets it, so that it never has another value. -/
theorem nextGravity_fallen (s : Controls) (tile : Option Int) (n : Nat) :
    ∃ m, s.nextGravity tile (fallen n) = (fallen m : F) := by
  have hlower : fallen n - FloatLike.ofInt 1 / FloatLike.ofInt 2000 = (fallen (n + 1) : F) := by
    rw [fallen, fallen, Function.iterate_succ_apply']
  unfold Controls.nextGravity
  split
  · cases tile with
    | none => exact ⟨0, rfl⟩
    | some readyState =>
      simp only
      split
      · exact ⟨0, rfl⟩
      · split
        · exact ⟨n + 1, hlower⟩
        · exact ⟨0, rfl⟩
  · exact ⟨0, rfl⟩

/-- The camera that moves, and `m_gravityVel`. -/
structure Body (F : Type) where
  fly : Fly F
  gravityVel : F

/-- One frame. The position is moved by the fall as it was before the frame. -/
def Controls.move [BEq F] (s : Controls) (tile : Option Int) (b : Body F) : Body F where
  fly := { b.fly with pos := s.newPos b.gravityVel b.fly }
  gravityVel := s.nextGravity tile b.gravityVel

/-- Frame after frame, with the keys as they are. -/
def Controls.moves [BEq F] (s : Controls) (tile : Nat → Point3 F → Option Int) :
    Nat → Body F → Body F
  | 0, b => b
  | n + 1, b =>
    let b := s.moves tile n b
    s.move (tile n b.fly.pos) b

end Code

/-! ## Over the real numbers -/

section Exact

variable {s : Controls} {b : Body ℝ} {tile : Nat → Point3 ℝ → Option Int}

theorem sign_mul_sign {c : ℝ} (h : c ≠ 0) : Real.sign c * Real.sign c = 1 := by
  rcases h.lt_or_gt with hneg | hpos
  · rw [Real.sign_of_neg hneg]
    norm_num
  · rw [Real.sign_of_pos hpos, mul_one]

theorem abs_mul_sign {c : ℝ} (h : c ≠ 0) : |c| * Real.sign c = c := by
  rcases h.lt_or_gt with hneg | hpos
  · rw [Real.sign_of_neg hneg, abs_of_neg hneg]
    ring
  · rw [Real.sign_of_pos hpos, abs_of_pos hpos, mul_one]

/-- Looking backwards over one's head, right and left are exchanged. -/
theorem right_getDirs {fly : Fly ℝ} (h : Real.cos fly.dir.2 ≠ 0) : fly.getDirs.right
    = ⟨Real.sign (Real.cos fly.dir.2) * Real.cos fly.dir.1, 0,
      -(Real.sign (Real.cos fly.dir.2) * Real.sin fly.dir.1)⟩ := by
  have hcross : cross fly.getDirs.forward
      ⟨FloatLike.ofInt 0, -FloatLike.ofInt 1, FloatLike.ofInt 0⟩
      = ⟨fly.ahead.z, 0, -fly.ahead.x⟩ := by
    simp only [forward_getDirs, cross_exact, ofInt_exact, Int.cast_zero, Int.cast_one,
      Point3.mk.injEq]
    refine ⟨by ring, by ring, by ring⟩
  have hsign := sign_mul_sign h
  have habs := abs_mul_sign h
  have hunit : dot (⟨Real.sign (Real.cos fly.dir.2) * Real.cos fly.dir.1, 0,
      -(Real.sign (Real.cos fly.dir.2) * Real.sin fly.dir.1)⟩ : Point3 ℝ)
      ⟨Real.sign (Real.cos fly.dir.2) * Real.cos fly.dir.1, 0,
        -(Real.sign (Real.cos fly.dir.2) * Real.sin fly.dir.1)⟩ = 1 := by
    rw [dot_exact]
    linear_combination (Real.cos fly.dir.1 ^ 2 + Real.sin fly.dir.1 ^ 2) * hsign
      + Real.cos_sq_add_sin_sq fly.dir.1
  -- the length of the cross product is |cos| of the tilt, its direction that of the turn
  have hlong : (⟨fly.ahead.z, 0, -fly.ahead.x⟩ : Point3 ℝ)
      = ⟨|Real.cos fly.dir.2| * (Real.sign (Real.cos fly.dir.2) * Real.cos fly.dir.1),
        |Real.cos fly.dir.2| * 0,
        |Real.cos fly.dir.2| * -(Real.sign (Real.cos fly.dir.2) * Real.sin fly.dir.1)⟩ := by
    rw [Fly.ahead, Point3.mk.injEq]
    refine ⟨?_, (mul_zero _).symm, ?_⟩
    · linear_combination -Real.cos fly.dir.1 * habs
    · linear_combination Real.sin fly.dir.1 * habs
  calc fly.getDirs.right = normalize (cross fly.getDirs.forward
        ⟨FloatLike.ofInt 0, -FloatLike.ofInt 1, FloatLike.ofInt 0⟩) := rfl
    _ = _ := by rw [hcross, hlong, normalize_mul hunit (abs_pos.mpr h)]

/-- What one frame adds to the position. -/
theorem newPos_exact {fly : Fly ℝ} (g : ℝ) (h : Real.cos fly.dir.2 ≠ 0) : s.newPos g fly
    = ⟨fly.pos.x + Real.sign (Real.cos fly.dir.2) * s.flyspeedup
        * (s.velocity .x * Real.cos fly.dir.1 + s.velocity .z * Real.sin fly.dir.1),
      fly.pos.y + s.flyspeedup * (s.velocity .y + g),
      fly.pos.z + Real.sign (Real.cos fly.dir.2) * s.flyspeedup
        * (s.velocity .z * Real.cos fly.dir.1 - s.velocity .x * Real.sin fly.dir.1)⟩ := by
  simp only [Controls.newPos, right_getDirs h, cross_exact, ofInt_exact, Int.cast_zero,
    Int.cast_one, Point3.mk.injEq]
  refine ⟨by ring, by ring, by ring⟩

theorem nextGravity_eq_zero (h : s.flymode = true ∨ s.inspectmode = true) (t : Option Int) (g : ℝ) :
    s.nextGravity t g = 0 := by
  unfold Controls.nextGravity
  cases h with
  | inl hfly => cases t <;> simp [hfly, ofInt_exact]
  | inr hinspect => simp [hinspect, ofInt_exact]

/-! ### In flight -/

/-- How far a key of an axis carries the camera in so many frames. -/
noncomputable def Controls.reach (s : Controls) (n : Nat) (a : Axis) : ℝ :=
  n * s.flyspeedup * s.velocity a

theorem reach_succ (s : Controls) (n : Nat) (a : Axis) :
    s.reach (n + 1) a = s.reach n a + s.flyspeedup * s.velocity a := by
  rw [Controls.reach, Controls.reach, Nat.cast_succ]
  ring

/-- Where the keys carry the camera in so many frames. -/
noncomputable def Controls.carried (s : Controls) (n : Nat) (fly : Fly ℝ) : Point3 ℝ :=
  ⟨fly.pos.x + Real.sign (Real.cos fly.dir.2)
      * (s.reach n .x * Real.cos fly.dir.1 + s.reach n .z * Real.sin fly.dir.1),
    fly.pos.y + s.reach n .y,
    fly.pos.z + Real.sign (Real.cos fly.dir.2)
      * (s.reach n .z * Real.cos fly.dir.1 - s.reach n .x * Real.sin fly.dir.1)⟩

/-- By induction on the frames. The direction stays, so that each adds the same. -/
theorem moves_flight (h : s.flymode = true ∨ s.inspectmode = true)
    (hlevel : Real.cos b.fly.dir.2 ≠ 0) (hg : b.gravityVel = 0) (n : Nat) :
    s.moves tile n b = ⟨⟨s.carried n b.fly, b.fly.dir⟩, 0⟩ := by
  induction n with
  | zero =>
    obtain ⟨⟨pos, dir⟩, g⟩ := b
    simp only [Controls.moves, Controls.carried, Controls.reach, Nat.cast_zero, zero_mul, add_zero,
      sub_zero, mul_zero, Body.mk.injEq, true_and]
    exact hg
  | succ n ih =>
    have hstep := newPos_exact (s := s) 0
      (show Real.cos (⟨s.carried n b.fly, b.fly.dir⟩ : Fly ℝ).dir.2 ≠ 0 from hlevel)
    rw [Controls.moves, ih]
    simp only [Controls.move, nextGravity_eq_zero h, hstep]
    simp only [Controls.carried, reach_succ, Body.mk.injEq, Fly.mk.injEq, Point3.mk.injEq, and_true]
    refine ⟨by ring, by ring, by ring⟩

variable (tile) in
/-- The height changes by the vertical keys only, the others carry the camera ahead and to the side,
and how far is up to the keys, not to where it looks. This is in flight, with no fall left over from
walking, and not for a camera that looks straight up or down: there `right` is 0. -/
theorem moves_straight (h : s.flymode = true ∨ s.inspectmode = true)
    (hlevel : Real.cos b.fly.dir.2 ≠ 0) (hg : b.gravityVel = 0) (n : Nat) :
    let p := b.fly.pos
    let q := (s.moves tile n b).fly.pos
    q.y - p.y = s.reach n .y ∧
    (q.x - p.x) * b.fly.ahead.x + (q.z - p.z) * b.fly.ahead.z
      = s.reach n .z * |Real.cos b.fly.dir.2| ∧
    (q.x - p.x) * b.fly.ahead.z - (q.z - p.z) * b.fly.ahead.x
      = s.reach n .x * |Real.cos b.fly.dir.2| ∧
    (q.x - p.x) ^ 2 + (q.z - p.z) ^ 2 = s.reach n .x ^ 2 + s.reach n .z ^ 2 := by
  have hsign := sign_mul_sign hlevel
  have hone := Real.cos_sq_add_sin_sq b.fly.dir.1
  have habs : Real.sign (Real.cos b.fly.dir.2) * Real.cos b.fly.dir.2 = |Real.cos b.fly.dir.2| := by
    linear_combination -Real.sign (Real.cos b.fly.dir.2) * abs_mul_sign hlevel
      + |Real.cos b.fly.dir.2| * hsign
  rw [moves_flight h hlevel hg]
  simp only [Controls.carried, Fly.ahead, add_sub_cancel_left, true_and]
  refine ⟨?_, ?_, ?_⟩
  · linear_combination s.reach n .z * habs
      + s.reach n .z * Real.sign (Real.cos b.fly.dir.2) * Real.cos b.fly.dir.2 * hone
  · linear_combination s.reach n .x * habs
      + s.reach n .x * Real.sign (Real.cos b.fly.dir.2) * Real.cos b.fly.dir.2 * hone
  -- the sign is lost in the square
  · linear_combination (s.reach n .x ^ 2 + s.reach n .z ^ 2)
      * (Real.cos b.fly.dir.1 ^ 2 + Real.sin b.fly.dir.1 ^ 2) * hsign
      + (s.reach n .x ^ 2 + s.reach n .z ^ 2) * hone

/-- A thousand frames with W held, in the direction of the third axis: ten units. -/
theorem moves_straight_ahead :
    let s := Controls.initial.keyDown (key 'W')
    let b : Body ℝ := ⟨⟨⟨0, 0, 0⟩, (0, 0)⟩, 0⟩
    s.flymode = true ∧ (s.moves (fun _ _ => none) 1000 b).fly.pos.y - b.fly.pos.y = 0 ∧
      ((s.moves (fun _ _ => none) 1000 b).fly.pos.z - b.fly.pos.z) = 10 := by
  intro s b
  have hlevel : Real.cos b.fly.dir.2 ≠ 0 := Fly.cos_ne_zero rfl
  obtain ⟨hheight, hahead, -, -⟩ := moves_straight (s := s) (b := b)
    (fun _ _ => none) (Or.inl rfl) hlevel rfl 1000
  have hspeed : (s.flyspeedup : ℝ) = 10 := by
    show ((1 : ℤ) : ℝ) * ((10 : ℤ) : ℝ) = 10
    norm_num
  have hvelocity (a : Axis) : (s.velocity a : ℝ) = s.camVel a * (1 / 1000) := by
    simp [Controls.velocity, ofInt_exact]
  refine ⟨rfl, ?_, ?_⟩
  · rw [hheight, Controls.reach, hvelocity, show s.camVel .y = 0 from rfl, Int.cast_zero, zero_mul,
      mul_zero]
  · rw [Controls.reach, hvelocity, hspeed, show s.camVel .z = 1 from rfl] at hahead
    simp only [Fly.ahead, b, Real.cos_zero, Real.sin_zero] at hahead
    norm_num at hahead ⊢
    exact hahead

/-! ### Falling -/

/-- Never upwards. -/
theorem fallen_nonpos (n : Nat) : (fallen n : ℝ) ≤ 0 := by
  induction n with
  | zero => simp [fallen, ofInt_exact]
  | succ n ih =>
    rw [fallen, Function.iterate_succ_apply', ← fallen, ofInt_exact, ofInt_exact]
    push_cast
    linarith

section Fall

variable (hfly : s.flymode = false) (hinspect : s.inspectmode = false)
  (hkeys : ∀ a, s.camVel a = 0)

include hfly hinspect hkeys

theorem newPos_fall (g : ℝ) (fly : Fly ℝ) :
    s.newPos g fly = ⟨fly.pos.x, fly.pos.y + g, fly.pos.z⟩ := by
  have hvel (a : Axis) : (s.velocity a : ℝ) = 0 := by
    rw [Controls.velocity, hkeys a, ofInt_exact, Int.cast_zero, zero_mul]
  have hspeed : (s.flyspeedup : ℝ) = 1 := by
    simp [Controls.flyspeedup, hfly, hinspect, ofInt_exact]
  simp only [Controls.newPos, hvel, hspeed, ofInt_exact, Int.cast_zero, Int.cast_one, zero_add,
    zero_mul, add_zero, mul_one, mul_zero]

variable (tile) in
theorem moves_fall_succ (n : Nat) :
    let b' := s.moves tile n b
    s.moves tile (n + 1) b = ⟨⟨⟨b'.fly.pos.x, b'.fly.pos.y + b'.gravityVel, b'.fly.pos.z⟩,
      b'.fly.dir⟩, s.nextGravity (tile n b'.fly.pos) b'.gravityVel⟩ := by
  intro b'
  rw [Controls.moves, Controls.move, newPos_fall hfly hinspect hkeys]

omit hkeys in
/-- The fall goes on in a tile that is loaded, and begins anew elsewhere. -/
theorem nextGravity_fall (t : Option Int) (g : ℝ) : s.nextGravity t g
    = match t with
      | none => 0
      | some readyState => if readyState < 3 then 0 else g - 1 / 2000 := by
  unfold Controls.nextGravity
  simp only [hinspect, hfly, isCollided, ofInt_exact]
  cases t <;> simp

variable (tile) in
/-- Straight down, if at all. -/
theorem moves_fall_column (hg : b.gravityVel ≤ 0) (n : Nat) :
    let b' := s.moves tile n b
    b'.fly.pos.x = b.fly.pos.x ∧ b'.fly.pos.z = b.fly.pos.z ∧ b'.fly.pos.y ≤ b.fly.pos.y ∧
      b'.gravityVel ≤ 0 := by
  induction n with
  | zero => exact ⟨rfl, rfl, le_rfl, hg⟩
  | succ n ih =>
    obtain ⟨hx, hz, hy, hg'⟩ := ih
    rw [moves_fall_succ tile hfly hinspect hkeys]
    refine ⟨hx, hz, ?_, ?_⟩
    · exact (add_le_of_nonpos_right hg').trans hy
    -- the fall begins anew, which is upwards to 0, or goes on
    · rw [nextGravity_fall hfly hinspect]
      split
      · exact le_rfl
      · split
        · exact le_rfl
        · linarith

/-- As long as there are loaded tiles around it, whatever is in them. -/
theorem moves_fall_eq {n : Nat} (hready : ∀ i < n, ∃ r, tile i (s.moves tile i b).fly.pos = some r ∧
    3 ≤ r) : (s.moves tile n b).fly.pos.y = b.fly.pos.y + n * b.gravityVel - n * (n - 1) / 4000 ∧
      (s.moves tile n b).gravityVel = b.gravityVel - n / 2000 := by
  induction n with
  | zero => simp [Controls.moves]
  | succ n ih =>
    obtain ⟨hy, hg⟩ := ih fun i hi => hready i (hi.trans (Nat.lt_succ_self n))
    obtain ⟨r, htile, hr⟩ := hready n (Nat.lt_succ_self n)
    rw [moves_fall_succ tile hfly hinspect hkeys, htile, nextGravity_fall hfly hinspect]
    simp only [not_lt.mpr hr, if_false, hy, hg, Nat.cast_succ]
    exact ⟨by ring, by ring⟩

/-- Without a tile, the camera stays where it is. -/
theorem moves_rest {n : Nat} {bottom : ℝ} (hbelow : ∀ i p, p.y < bottom → tile i p = none)
    (hy : (s.moves tile n b).fly.pos.y < bottom) (hg : (s.moves tile n b).gravityVel = 0)
    (k : Nat) :
    s.moves tile (n + k) b = s.moves tile n b := by
  induction k with
  | zero => rfl
  | succ k ih =>
    rw [← Nat.add_assoc, moves_fall_succ tile hfly hinspect hkeys, ih, hbelow _ _ hy,
      nextGravity_fall hfly hinspect, hg, add_zero, ← hg]

end Fall

/-- Walking without a key held, in a column of tiles that are all loaded, with none below `bottom`,
and not moving upwards at first: the camera falls through them, out at the bottom, and comes to rest
below. -/
theorem moves_out (hfly : s.flymode = false) (hinspect : s.inspectmode = false)
    (hkeys : ∀ a, s.camVel a = 0) (hg : b.gravityVel ≤ 0) {bottom : ℝ}
    (hready : ∀ i p, p.x = b.fly.pos.x → p.z = b.fly.pos.z → p.y ≤ b.fly.pos.y → bottom ≤ p.y →
      ∃ r, tile i p = some r ∧ 3 ≤ r)
    (hbelow : ∀ i p, p.y < bottom → tile i p = none) :
    ∃ n, (s.moves tile n b).fly.pos.y < bottom ∧
      ∀ m, n ≤ m → s.moves tile m b = s.moves tile n b := by
  have hout : ∃ n, (s.moves tile n b).fly.pos.y < bottom := by
    -- if it never got out, it would fall for ever, and faster than the column is high
    by_contra hin
    push Not at hin
    obtain ⟨n, hn⟩ := exists_nat_gt (4000 * (b.fly.pos.y - bottom))
    have hall (i : Nat) : ∃ r, tile i (s.moves tile i b).fly.pos = some r ∧ 3 ≤ r := by
      obtain ⟨hx, hz, hy, -⟩ := moves_fall_column tile hfly hinspect hkeys hg i
      exact hready i _ hx hz hy (hin i)
    obtain ⟨hy, -⟩ := moves_fall_eq hfly hinspect hkeys (n := n + 2) fun i _ => hall i
    have hfall := mul_nonpos_of_nonneg_of_nonpos (Nat.cast_nonneg (α := ℝ) (n + 2)) hg
    have hlow := hin (n + 2)
    push_cast at hy hfall
    nlinarith [Nat.cast_nonneg (α := ℝ) n]
  obtain ⟨n, hn⟩ := hout
  obtain ⟨-, -, -, hg'⟩ := moves_fall_column tile hfly hinspect hkeys hg n
  have hnext := moves_fall_succ (b := b) tile hfly hinspect hkeys n
  have hy : (s.moves tile (n + 1) b).fly.pos.y < bottom := by
    rw [hnext]
    exact (add_le_of_nonpos_right hg').trans_lt hn
  -- one frame below, the fall has ended
  have hzero : (s.moves tile (n + 1) b).gravityVel = 0 := by
    rw [hnext, hbelow _ _ hn, nextGravity_fall hfly hinspect]
  refine ⟨n + 1, hy, fun m hm => ?_⟩
  obtain ⟨k, rfl⟩ := Nat.exists_eq_add_of_le hm
  exact moves_rest hfly hinspect hkeys hbelow hy hzero k

/-- With everything loaded down to 128 below. -/
theorem moves_out_middle :
    let s := Controls.initial.keyDown (key 'F')
    let tile : Nat → Point3 ℝ → Option Int := fun _ p => if -128 ≤ p.y then some 3 else none
    let b : Body ℝ := ⟨⟨⟨0, 0, 0⟩, (0, 0)⟩, 0⟩
    s.flymode = false ∧ ∃ n, (s.moves tile n b).fly.pos.y < -128 ∧
      ∀ m, n ≤ m → s.moves tile m b = s.moves tile n b := by
  intro s tile b
  refine ⟨rfl, moves_out rfl rfl (fun a => ?_) le_rfl ?_ ?_⟩
  · cases a <;> rfl
  · intro i p hx hz hy hp
    exact ⟨3, if_pos hp, le_rfl⟩
  · intro i p hp
    exact if_neg (not_le.mpr hp)

end Exact

end MapBg
