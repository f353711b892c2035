import MapBg.Level.Store
import MapBg.Select.Clip
import MapBg.World.Motion

/-!
# A session: two cameras, their caches, and what is saved

There is a camera the tiles are selected for, `m_camera`, and one to look at them from outside,
`m_debugCamera`, which takes over when inspecting. Which of them is drawn from and moved is up to a
flag of the engine, and whether one inspects is a flag of the world. A camera keeps its view matrix
and computes it again only if it is marked as dirty; the mark is not initialised, and neither is the
second camera, other than by copying the first. The position is saved every sixty frames and read
back in the first frame after a start.

What all this is for is simpler: there is a player, and maybe an observer, and the picture is that
of the observer if there is one. `Viewer` says so, with neither caches nor flags nor copies. The
session refines it, for any sequence of keys, touches, frames, changes of the window and restarts,
and whatever was in the memory at the start (`session_refines`).

Two things are proved along the way that one would ask of either. While inspecting nothing moves the
player: the tiles are selected for the same view, and the picture keeps its aspect ratio, also when
the window changes (`inspect_holds`). A restart returns to what was last saved, of which the
position of the player is from before the frame moved it (`restart_returns`).
-/

set_option autoImplicit false

namespace MapBg

open Gmtl

/-- Numbers to compute with that are also saved as bits. -/
class FloatCam (F : Type) extends FloatMath F, FloatRep F

/-- To evaluate the model with, looking along the third axis. -/
instance : FloatCam Int32 where
  sqrt x := x
  sin _ := FloatLike.ofInt 0
  cos _ := FloatLike.ofInt 1
  tan _ := FloatLike.ofInt 1
  log2 x := x
  pi := FloatLike.ofInt 3
  toBits := FloatRep.toBits
  ofBits := FloatRep.ofBits
  ofBits_toBits := FloatRep.ofBits_toBits

/-! ## The code -/

section Code

variable {F : Type} [FloatCam F]

/-- `Camera`, but for `m_lookat` and `m_mode`, which stays at 0. -/
structure Camera (F : Type) where
  proj : Matrix (Fin 4) (Fin 4) F
  view : Matrix (Fin 4) (Fin 4) F
  aspect : F
  near : F
  far : F
  fly : Fly F
  viewdirty : Bool

namespace Camera

/-- The constructor leaves two fields as they were. -/
def new (aspect : F) (viewdirty : Bool) : Camera F where
  proj i j := if i = j then FloatLike.ofInt 1 else FloatLike.ofInt 0
  view i j := if i = j then FloatLike.ofInt 1 else FloatLike.ofInt 0
  aspect := aspect
  near := FloatLike.ofInt 2 / FloatLike.ofInt 1000
  far := FloatLike.ofInt 25
  fly := ⟨⟨FloatLike.ofInt 0, FloatLike.ofInt 0, FloatLike.ofInt 0⟩,
    (FloatLike.ofInt 0, FloatLike.ofInt 0)⟩
  viewdirty := viewdirty

def setFly (la : Fly F) (c : Camera F) : Camera F := { c with fly := la, viewdirty := true }

def setNearFar (near far : F) (c : Camera F) : Camera F := { c with near, far }

/-- `Camera::Update`, with the size of the window. -/
def update (w h : Int) (c : Camera F) : Camera F :=
  let aspect : F := FloatLike.ofInt w / FloatLike.ofInt h
  { c with proj := setPerspective (FloatLike.ofInt 60) aspect c.near c.far, aspect }

variable [BEq F] [LE F] [DecidableLE F]

/-- The matrix, and the camera that has it in its cache. -/
def viewMatrix (c : Camera F) : Matrix (Fin 4) (Fin 4) F × Camera F :=
  if c.viewdirty then
    let view := c.fly.viewMatrix
    (view, { c with view, viewdirty := false })
  else (c.view, c)

end Camera

/-! ### The record in the database -/

/-- Where the player was, according to the record. -/
def CamPos.fly (campos : CamPos) : Fly F :=
  ⟨⟨FloatRep.ofBits campos.pos.1, FloatRep.ofBits campos.pos.2.1, FloatRep.ofBits campos.pos.2.2⟩,
    (FloatRep.ofBits campos.dir.1, FloatRep.ofBits campos.dir.2)⟩

/-- Where the observer was. -/
def CamPos.inspectFly (campos : CamPos) : Fly F :=
  ⟨⟨FloatRep.ofBits campos.inspectpos.1, FloatRep.ofBits campos.inspectpos.2.1,
      FloatRep.ofBits campos.inspectpos.2.2⟩,
    (FloatRep.ofBits campos.inspectdir.1, FloatRep.ofBits campos.inspectdir.2)⟩

/-- The record that is written. -/
def Controls.camPos (s : Controls) (fly dfly : Fly F) (padding : UInt8 × UInt8) : CamPos where
  pos := (FloatRep.toBits fly.pos.x, FloatRep.toBits fly.pos.y, FloatRep.toBits fly.pos.z)
  dir := (FloatRep.toBits fly.dir.1, FloatRep.toBits fly.dir.2)
  flymode := s.flymode
  inspect := s.inspectmode
  padding := padding
  inspectpos := (FloatRep.toBits dfly.pos.x, FloatRep.toBits dfly.pos.y, FloatRep.toBits dfly.pos.z)
  inspectdir := (FloatRep.toBits dfly.dir.1, FloatRep.toBits dfly.dir.2)

/-- What is written can be read, as floats are saved by their bits. -/
theorem fly_camPos (c : Controls) (fly dfly : Fly F) (padding : UInt8 × UInt8) :
    (c.camPos fly dfly padding).fly = fly ∧ (c.camPos fly dfly padding).inspectFly = dfly := by
  constructor
  · simp only [CamPos.fly, Controls.camPos, FloatRep.ofBits_toBits]
  · simp only [CamPos.inspectFly, Controls.camPos, FloatRep.ofBits_toBits]

/-! ### Touches -/

/-- `m_touch` and `m_initCamDir`. -/
structure Touch (F : Type) where
  touch : F × F
  initCamDir : F × F

/-- A position on the screen, from 0 to 1. -/
def screenPos (layout : Int × Int) (x y : F) : F × F :=
  (x / FloatLike.ofInt layout.1, y / FloatLike.ofInt layout.2)

/-- The direction `TouchDrag` turns the camera to. -/
def Touch.dragged (t : Touch F) (pos : F × F) : F × F :=
  let dragDiff : F × F := (pos.1 - t.touch.1, pos.2 - t.touch.2)
  (t.initCamDir.1 + dragDiff.1 * FloatLike.ofInt 2,
    stdMax (t.initCamDir.2 + dragDiff.2 * FloatLike.ofInt 2)
      (-(FloatMath.pi * FloatLike.powf2 (-1))))

/-! ### Engine and world -/

/-- `m_debugCam` is in the controls. -/
structure Session (F : Type) where
  size : Int × Int
  layout : Int × Int
  camera : Camera F
  debugCamera : Camera F
  controls : Controls
  gravityVel : F
  activeTouch : Option (Touch F)
  started : Bool
  level : Level

/-- What a frame depends on: its number, the distances of the selection, the `readyState` of the
tile a position is in, and the padding of the record. -/
structure FrameEnv (F : Type) where
  frameIdx : Int
  nearfar : F × F × F
  tile : Point3 F → Option Int
  padding : UInt8 × UInt8

/-- The matrices and aspect ratios of a frame: first those the tiles are selected with and the
cursor is aimed with, then those it is drawn with. -/
structure Shown (F : Type) where
  aimView : Matrix (Fin 4) (Fin 4) F
  aimAspect : F
  drawView : Matrix (Fin 4) (Fin 4) F
  drawAspect : F

/-- What the first camera of a world without a record looks at. -/
def firstFly : Fly F :=
  ⟨⟨FloatLike.ofInt 0, FloatLike.ofInt 0, -FloatLike.powf2 (-1)⟩,
    (FloatLike.ofInt 124564195 / FloatLike.ofInt 100000000,
      -(FloatLike.ofInt 455399066 / FloatLike.ofInt 1000000000))⟩

/-- `Camera::Fly()`. -/
def noFly : Fly F :=
  ⟨⟨FloatLike.ofInt 0, FloatLike.ofInt 0, FloatLike.ofInt 0⟩,
    (FloatLike.ofInt 0, FloatLike.ofInt 0)⟩

/-- What the memory holds where the constructors of the two cameras do not write. -/
structure Memory (F : Type) where
  aspect : F
  viewdirty : Bool
  debugAspect : F
  debugViewdirty : Bool

namespace Session

/-- The constructors of `Engine` and `World`, on a database that may have something in it. -/
def start (m : Memory F) (level : Level) : Session F where
  size := (0, 0)
  layout := (-1, -1)
  camera := .new m.aspect m.viewdirty
  debugCamera := .new m.debugAspect m.debugViewdirty
  controls := .initial
  gravityVel := FloatLike.ofInt 0
  activeTouch := none
  started := false
  level := level

def drawCam (s : Session F) : Camera F := if s.controls.debugCam then s.debugCamera else s.camera

/-- Through the reference that `DrawCam` returns. -/
def setDrawCam (c : Camera F) (s : Session F) : Session F :=
  if s.controls.debugCam then { s with debugCamera := c } else { s with camera := c }

/-- `Engine::SetDbgCam`. The second camera is a copy of the first, also when the flag is cleared. -/
def setDbgCam (dbgCam : Bool) (s : Session F) : Session F :=
  { s with controls := { s.controls with debugCam := dbgCam }, debugCamera := s.camera }

/-- The flags are set in `Controls.keyDown`; the second camera is the other half of `SetDbgCam`. -/
def keyDown (k : Key) (s : Session F) : Session F :=
  { s with
    controls := s.controls.keyDown k
    debugCamera := if k = key 'I' then s.camera else s.debugCamera }

def keyUp (k : Key) (s : Session F) : Session F := { s with controls := s.controls.keyUp k }

def touchDown (x y : F) (s : Session F) : Session F :=
  { s with activeTouch := some ⟨screenPos s.layout x y, s.drawCam.fly.dir⟩ }

/-- `World::TouchDrag`, which turns the camera that is drawn from. -/
def touchDrag (x y : F) (s : Session F) : Session F :=
  match s.activeTouch with
  | none => s
  | some t =>
    let la := { s.drawCam.fly with dir := t.dragged (screenPos s.layout x y) }
    s.setDrawCam (s.drawCam.setFly la)

def touchUp (s : Session F) : Session F := { s with activeTouch := none }

/-- `Application::Resize`, which passes the size on to the engine and to the world. -/
def resize (w h : Int) (s : Session F) : Session F := { s with size := (w, h), layout := (w, h) }

/-- `Engine::Tick`, which has no animations. -/
def tick (s : Session F) : Session F := { s with camera := s.camera.update s.size.1 s.size.2 }

/-- The flags of the record. -/
def setFlags (campos : CamPos) (s : Session F) : Session F :=
  let s := { s with
    controls := { s.controls with flymode := campos.flymode, inspectmode := campos.inspect } }
  s.setDbgCam s.controls.inspectmode

/-- `SetFly` of both cameras, in this order. -/
def setFlies (dfly fly : Fly F) (s : Session F) : Session F :=
  let s := s.setDrawCam (s.drawCam.setFly dfly)
  { s with camera := s.camera.setFly fly }

/-- What `World::Update` does in the first frame. -/
def begin (s : Session F) : Session F :=
  if s.started then s
  else
    let s := { s with started := true }
    match s.level.getCameraPos with
    | some campos => (s.setFlags campos).setFlies campos.inspectFly campos.fly
    | none => s.setFlies noFly firstFly

variable [BEq F] [LE F] [DecidableLE F]

/-- The matrices of `World::Update`. The view is read several times and computed at most once. -/
def aim (env : FrameEnv F) (s : Session F) : (Matrix (Fin 4) (Fin 4) F × F) × Session F :=
  let (view, camera) := s.camera.viewMatrix
  ((view, camera.aspect), { s with camera := camera.setNearFar env.nearfar.1 env.nearfar.2.2 })

/-- The second half of `World::Update`. -/
def moveCam (env : FrameEnv F) (s : Session F) : Session F :=
  let fly := s.camera.fly
  let moved := s.controls.move (env.tile fly.pos) ⟨s.drawCam.fly, s.gravityVel⟩
  let s := { s.setDrawCam (s.drawCam.setFly moved.fly) with gravityVel := moved.gravityVel }
  if env.frameIdx % 60 = 0 then
    { s with level := s.level.writeCameraPos (s.controls.camPos fly moved.fly env.padding) }
  else s

/-- `Engine::Draw`. -/
def draw (s : Session F) : (Matrix (Fin 4) (Fin 4) F × F) × Session F :=
  let (view, camera) := s.drawCam.viewMatrix
  ((view, camera.aspect), s.setDrawCam camera)

/-- `Application::Tick` and `Application::Draw`. -/
def frame (env : FrameEnv F) (s : Session F) : Shown F × Session F :=
  let (aim, s) := s.tick.begin.aim env
  let (drawn, s) := (s.moveCam env).draw
  (⟨aim.1, aim.2, drawn.1, drawn.2⟩, s)

end Session

/-- What can happen in a session, restarts of the program included. -/
inductive SessionEvent (F : Type)
  | keyDown (k : Key)
  | keyUp (k : Key)
  | touchDown (x y : F)
  | touchDrag (x y : F)
  | touchUp
  | resize (w h : Int)
  | frame (env : FrameEnv F)
  | restart (m : Memory F)

/-- What each of them does. -/
def Session.step [BEq F] [LE F] [DecidableLE F] (s : Session F) : SessionEvent F → Session F
  | .keyDown k => s.keyDown k
  | .keyUp k => s.keyUp k
  | .touchDown x y => s.touchDown x y
  | .touchDrag x y => s.touchDrag x y
  | .touchUp => s.touchUp
  | .resize w h => s.resize w h
  | .frame env => (s.frame env).2
  | .restart m => .start m s.level

end Code

/-! ## Player and observer -/

/-- The player, and maybe an observer, and the rest of the session that matters to them. -/
structure Viewer (F : Type) where
  layout : Int × Int
  player : Fly F
  observer : Option (Fly F)
  controls : Controls
  gravityVel : F
  activeTouch : Option (Touch F)
  started : Bool
  level : Level

namespace Viewer

variable {F : Type} [FloatCam F]

/-- A start, with nobody observing. -/
def start (level : Level) : Viewer F where
  layout := (-1, -1)
  player := noFly
  observer := none
  controls := .initial
  gravityVel := FloatLike.ofInt 0
  activeTouch := none
  started := false
  level := level

/-- Whose picture it is, and who is moved. -/
def current (v : Viewer F) : Fly F := v.observer.getD v.player

/-- Whoever is moved is somewhere else now. -/
def setCurrent (fly : Fly F) (v : Viewer F) : Viewer F :=
  match v.observer with
  | some _ => { v with observer := some fly }
  | none => { v with player := fly }

/-- An observer starts out from the player, and leaves without a trace. -/
def keyDown (k : Key) (v : Viewer F) : Viewer F :=
  { v with
    controls := v.controls.keyDown k
    observer := if k = key 'I' then (if v.observer.isSome then none else some v.player)
      else v.observer }

/-- The one who is moved looks elsewhere. -/
def touchDrag (x y : F) (v : Viewer F) : Viewer F :=
  match v.activeTouch with
  | none => v
  | some t => v.setCurrent { v.current with dir := t.dragged (screenPos v.layout x y) }

/-- The first frame after a start: the record says where everybody was, if there is one. -/
def begin (v : Viewer F) : Viewer F :=
  if v.started then v
  else match v.level.getCameraPos with
    | some campos =>
      { v with
        started := true
        controls := { v.controls with
          flymode := campos.flymode, inspectmode := campos.inspect, debugCam := campos.inspect }
        player := campos.fly
        observer := if campos.inspect then some campos.inspectFly else none }
    | none =>
      { v with started := true, player := firstFly, observer := v.observer.map fun _ => noFly }

theorem started_begin (v : Viewer F) : v.begin.started = true := by
  unfold begin
  cases hstarted : v.started with
  | true => exact hstarted
  | false => cases v.level.getCameraPos <;> rfl

theorem level_begin (v : Viewer F) : v.begin.level = v.level := by
  unfold begin
  split
  · rfl
  · split <;> rfl

theorem gravityVel_begin (v : Viewer F) : v.begin.gravityVel = v.gravityVel := by
  unfold begin
  split
  · rfl
  · split <;> rfl

omit [FloatCam F] in
theorem gravityVel_setCurrent (fly : Fly F) (v : Viewer F) :
    (v.setCurrent fly).gravityVel = v.gravityVel := by
  unfold setCurrent
  cases v.observer <;> rfl

variable [BEq F]

/-- A frame. What is saved of the player is where they were before it, and of the observer where
they are after it. -/
def move (env : FrameEnv F) (v : Viewer F) : Viewer F :=
  let moved := v.controls.move (env.tile v.player.pos) ⟨v.current, v.gravityVel⟩
  let level :=
    if env.frameIdx % 60 = 0 then
      v.level.writeCameraPos (v.controls.camPos v.player moved.fly env.padding)
    else v.level
  { v.setCurrent moved.fly with gravityVel := moved.gravityVel, level }

theorem started_move (env : FrameEnv F) (v : Viewer F) : (v.move env).started = v.started := by
  unfold move setCurrent
  cases v.observer <;> rfl

/-- What can happen, to the player and the observer. -/
def step (v : Viewer F) : SessionEvent F → Viewer F
  | .keyDown k => v.keyDown k
  | .keyUp k => { v with controls := v.controls.keyUp k }
  | .touchDown x y => { v with activeTouch := some ⟨screenPos v.layout x y, v.current.dir⟩ }
  | .touchDrag x y => v.touchDrag x y
  | .touchUp => { v with activeTouch := none }
  | .resize w h => { v with layout := (w, h) }
  | .frame env => v.begin.move env
  | .restart _ => .start v.level

theorem controls_move (env : FrameEnv F) (v : Viewer F) : (v.move env).controls = v.controls := by
  unfold move setCurrent
  cases v.observer <;> rfl

/-- What a start makes of the record that a frame has written. -/
theorem begin_move {v : Viewer F} (hv : v.observer.isSome = v.controls.inspectmode)
    {env : FrameEnv F} (hsave : env.frameIdx % 60 = 0) :
    let r := (start (v.move env).level : Viewer F).begin
    r.player = v.player ∧ r.observer = (v.move env).observer ∧
      r.controls.flymode = v.controls.flymode := by
  have hlevel : (v.move env).level = v.level.writeCameraPos (v.controls.camPos v.player
      (v.controls.move (env.tile v.player.pos) ⟨v.current, v.gravityVel⟩).fly env.padding) :=
    if_pos hsave
  intro r
  have hr : r = (start (v.move env).level : Viewer F).begin := rfl
  unfold begin at hr
  simp only [start, hlevel, Level.getCameraPos_writeCameraPos, Bool.false_eq_true, if_false,
    fly_camPos] at hr
  rw [hr]
  refine ⟨rfl, ?_, rfl⟩
  show (if v.controls.inspectmode then some _ else none) = (v.setCurrent _).observer
  -- the flag in the record says whether there was an observer, and `hv` that it was right
  rw [← hv]
  unfold setCurrent
  cases v.observer <;> rfl

/-- A frame that writes the record. -/
def Saves : SessionEvent F → Prop
  | .frame env => env.frameIdx % 60 = 0
  | _ => False

theorem level_step (v : Viewer F) {e : SessionEvent F} (he : ¬ Saves e) :
    (v.step e).level = v.level := by
  cases e with
  | touchDrag x y =>
    unfold step touchDrag setCurrent
    cases v.activeTouch with
    | none => rfl
    | some t => cases v.observer <;> rfl
  | frame env => exact (if_neg he).trans v.level_begin
  | keyDown | keyUp | touchDown | touchUp | resize | restart => rfl

theorem level_run (v : Viewer F) {es : List (SessionEvent F)} (hes : ∀ e ∈ es, ¬ Saves e) :
    (es.foldl step v).level = v.level := by
  induction es generalizing v with
  | nil => rfl
  | cons e es ih =>
    obtain ⟨he, hes⟩ := List.forall_mem_cons.mp hes
    exact (ih (v.step e) hes).trans (v.level_step he)

theorem gravityVel_step {v : Viewer F} (h : ∃ n, v.gravityVel = fallen n) (e : SessionEvent F) :
    ∃ n, (v.step e).gravityVel = fallen n := by
  cases e with
  | frame env =>
    obtain ⟨n, hn⟩ := h
    show ∃ n, v.begin.controls.nextGravity _ v.begin.gravityVel = fallen n
    rw [gravityVel_begin, hn]
    exact nextGravity_fallen _ _ n
  | touchDrag x y =>
    unfold step touchDrag
    cases v.activeTouch with
    | none => exact h
    | some t =>
      simp only [gravityVel_setCurrent]
      exact h
  | restart m => exact ⟨0, rfl⟩
  | keyDown | keyUp | touchDown | touchUp | resize => exact h

theorem gravityVel_foldl {v : Viewer F} (h : ∃ n, v.gravityVel = fallen n)
    (es : List (SessionEvent F)) : ∃ n, (es.foldl step v).gravityVel = fallen n :=
  List.foldlRecOn (motive := fun v : Viewer F => ∃ n, v.gravityVel = fallen n) es step h
    fun _ hv e _ => gravityVel_step hv e

end Viewer

namespace Session

variable {F : Type}

/-- What is left when the caches are forgotten, and the second camera where it is not in use. -/
def viewer (s : Session F) : Viewer F where
  layout := s.layout
  player := s.camera.fly
  observer := if s.controls.debugCam then some s.debugCamera.fly else none
  controls := s.controls
  gravityVel := s.gravityVel
  activeTouch := s.activeTouch
  started := s.started
  level := s.level

theorem viewer_setFly (fly : Fly F) (s : Session F) :
    (s.setDrawCam (s.drawCam.setFly fly)).viewer = s.viewer.setCurrent fly := by
  unfold setDrawCam viewer Viewer.setCurrent
  cases hdebug : s.controls.debugCam with
  | true => simp [hdebug, Camera.setFly]
  | false => simp [hdebug, Camera.setFly, drawCam]

theorem current_viewer (s : Session F) : s.viewer.current = s.drawCam.fly := by
  unfold viewer Viewer.current drawCam
  cases s.controls.debugCam <;> rfl

/-- The order of the two assignments does not matter: if both cameras are one, the second of them
counts. -/
theorem viewer_setFlies (dfly fly : Fly F) (s : Session F) : (s.setFlies dfly fly).viewer
    = { s.viewer with player := fly, observer := s.viewer.observer.map fun _ => dfly } := by
  unfold setFlies setDrawCam viewer
  cases hdebug : s.controls.debugCam with
  | true => simp [hdebug, Camera.setFly, drawCam]
  | false => simp [hdebug, Camera.setFly]

end Session

/-! ## The invariant -/

section Refinement

variable {F : Type} [FloatCam F] [BEq F] [LE F] [DecidableLE F]

namespace Camera

/-- A cache that is not dirty holds the matrix of the camera as it is. -/
def Coherent (c : Camera F) : Prop := c.viewdirty = false → c.view = c.fly.viewMatrix

variable {c : Camera F}

theorem coherent_setFly (fly : Fly F) (c : Camera F) : (c.setFly fly).Coherent :=
  fun h => absurd h (by simp [setFly])

/-- A camera whose cache is right returns the right matrix, computed or not. -/
theorem Coherent.viewMatrix (h : c.Coherent) : c.viewMatrix.1 = c.fly.viewMatrix ∧
    c.viewMatrix.2.Coherent := by
  unfold Camera.viewMatrix
  cases hdirty : c.viewdirty with
  | true => exact ⟨rfl, fun _ => rfl⟩
  | false => exact ⟨h hdirty, h⟩

theorem viewMatrix_same (c : Camera F) :
    c.viewMatrix.2.fly = c.fly ∧ c.viewMatrix.2.aspect = c.aspect := by
  unfold Camera.viewMatrix
  split <;> exact ⟨rfl, rfl⟩

end Camera

namespace Session

/-- The two flags agree, and the caches of the cameras that are in use are right. Before the first
frame they need not be: nobody has read the memory they are in. -/
structure Inv (s : Session F) : Prop where
  flags : s.controls.debugCam = s.controls.inspectmode
  camera : s.started = true → s.camera.Coherent
  debugCamera : s.started = true → s.controls.debugCam = true → s.debugCamera.Coherent

variable {s : Session F}

theorem inv_start (m : Memory F) (level : Level) : Inv (start m level) :=
  ⟨rfl, fun h => absurd h (by simp [start]), fun h => absurd h (by simp [start])⟩

/-! ### Keys -/

/-- Only `I` touches the two flags, and sets both to the same. -/
theorem flags_keyDown (k : Key) (c : Controls) :
    (c.keyDown k).inspectmode = (if k = key 'I' then !c.inspectmode else c.inspectmode) ∧
    (c.keyDown k).debugCam = (if k = key 'I' then !c.inspectmode else c.debugCam) := by
  unfold Controls.keyDown Controls.addVel
  simp only [apply_ite Controls.inspectmode, apply_ite Controls.debugCam, ite_self]
  by_cases hk : k = key 'I'
  · subst hk
    exact ⟨rfl, rfl⟩
  · simp only [hk, if_false, ite_self, and_self]

theorem flags_keyUp (k : Key) (c : Controls) :
    (c.keyUp k).inspectmode = c.inspectmode ∧ (c.keyUp k).debugCam = c.debugCam := by
  unfold Controls.keyUp Controls.clearVel
  simp only [apply_ite Controls.inspectmode, apply_ite Controls.debugCam, ite_self, and_self]

/-- The observer starts from a copy of the first camera, cache included. -/
theorem Inv.keyDown (h : s.Inv) (k : Key) :
    (s.keyDown k).Inv ∧ (s.keyDown k).viewer = s.viewer.keyDown k := by
  obtain ⟨hinspect, hdebug⟩ := flags_keyDown k s.controls
  by_cases hk : k = key 'I'
  · rw [if_pos hk] at hinspect hdebug
    refine ⟨⟨?_, h.camera, ?_⟩, ?_⟩
    · exact hdebug.trans hinspect.symm
    · intro hstarted _
      show Camera.Coherent (if k = key 'I' then s.camera else s.debugCamera)
      rw [if_pos hk]
      -- the copy is as good as what was copied
      exact h.camera hstarted
    · unfold viewer Viewer.keyDown Session.keyDown
      simp only [if_pos hk, hdebug, ← h.flags, Viewer.mk.injEq, true_and, and_true]
      cases s.controls.debugCam <;> rfl
  · rw [if_neg hk] at hinspect hdebug
    refine ⟨⟨?_, h.camera, ?_⟩, ?_⟩
    · rw [Session.keyDown, hinspect, hdebug]
      exact h.flags
    · intro hstarted hon
      show Camera.Coherent (if k = key 'I' then s.camera else s.debugCamera)
      rw [if_neg hk]
      -- other keys leave the second camera alone
      exact h.debugCamera hstarted (hdebug.symm.trans hon)
    · unfold viewer Viewer.keyDown Session.keyDown
      simp only [if_neg hk, hdebug]

theorem Inv.keyUp (h : s.Inv) (k : Key) :
    (s.keyUp k).Inv ∧ (s.keyUp k).viewer = s.viewer.step (.keyUp k) := by
  obtain ⟨hinspect, hdebug⟩ := flags_keyUp k s.controls
  refine ⟨⟨?_, h.camera, ?_⟩, ?_⟩
  · exact hdebug.trans (h.flags.trans hinspect.symm)
  · intro hstarted hon
    exact h.debugCamera hstarted (hdebug.symm.trans hon)
  · unfold viewer Viewer.step Session.keyUp
    simp only [hdebug]

/-! ### Touches -/

/-- Whichever camera is set, it is dirty. -/
theorem Inv.setFly (h : s.Inv) (fly : Fly F) : (s.setDrawCam (s.drawCam.setFly fly)).Inv := by
  unfold setDrawCam
  cases hdebug : s.controls.debugCam with
  | true => exact ⟨h.flags, h.camera, fun _ _ => Camera.coherent_setFly _ _⟩
  | false =>
    exact ⟨h.flags, fun _ => Camera.coherent_setFly _ _, fun _ hon => absurd hon (by simp [hdebug])⟩

theorem Inv.touchDrag (h : s.Inv) (x y : F) :
    (s.touchDrag x y).Inv ∧ (s.touchDrag x y).viewer = s.viewer.touchDrag x y := by
  unfold Session.touchDrag Viewer.touchDrag
  rw [show s.viewer.activeTouch = s.activeTouch from rfl, current_viewer]
  cases s.activeTouch with
  | none => exact ⟨h, rfl⟩
  | some t => exact ⟨h.setFly _, viewer_setFly _ s⟩

/-! ### Frames -/

theorem Inv.tick (h : s.Inv) : s.tick.Inv ∧ s.tick.viewer = s.viewer :=
  ⟨⟨h.flags, h.camera, h.debugCamera⟩, rfl⟩

/-- Both cameras are dirty afterwards, or there is only one. -/
theorem inv_setFlies (h : s.controls.debugCam = s.controls.inspectmode) (dfly fly : Fly F) :
    (s.setFlies dfly fly).Inv := by
  unfold setFlies setDrawCam
  cases hdebug : s.controls.debugCam with
  | true =>
    exact ⟨h, fun _ => Camera.coherent_setFly _ _, fun _ _ => Camera.coherent_setFly _ _⟩
  | false =>
    exact ⟨h, fun _ => Camera.coherent_setFly _ _, fun _ hon => absurd hon (by simp [hdebug])⟩

/-- Both cameras are set, which marks them as dirty: this is where the memory at the start is done
with. -/
theorem Inv.begin (h : s.Inv) : s.begin.Inv ∧ s.begin.viewer = s.viewer.begin := by
  unfold Session.begin Viewer.begin
  cases hstarted : s.started with
  | true => exact ⟨h, by simp [viewer, hstarted]⟩
  | false =>
    simp only [show s.viewer.started = false from hstarted, show s.viewer.level = s.level from rfl,
      Bool.false_eq_true, if_false]
    cases s.level.getCameraPos with
    | some campos =>
      refine ⟨inv_setFlies rfl _ _, ?_⟩
      simp only [viewer_setFlies]
      cases hinspect : campos.inspect <;> simp [viewer, setFlags, setDbgCam, hinspect]
    | none =>
      refine ⟨inv_setFlies ?_ _ _, viewer_setFlies _ _ _⟩
      exact h.flags

/-- The first camera's matrix, which may be computed here for the first time in the frame. -/
theorem Inv.aim (h : s.Inv) (hstarted : s.started = true) (env : FrameEnv F) :
    (s.aim env).1.1 = s.viewer.player.viewMatrix ∧ (s.aim env).2.Inv ∧
      (s.aim env).2.viewer = s.viewer := by
  obtain ⟨hview, hcoherent⟩ := (h.camera hstarted).viewMatrix
  obtain ⟨hfly, -⟩ := s.camera.viewMatrix_same
  refine ⟨hview, ⟨h.flags, fun _ => hcoherent, h.debugCamera⟩, ?_⟩
  unfold viewer Session.aim Camera.setNearFar
  simp only [hfly]

omit [FloatCam F] [BEq F] [LE F] [DecidableLE F] in
theorem setDrawCam_same (c : Camera F) (s : Session F) :
    (s.setDrawCam c).controls = s.controls ∧ (s.setDrawCam c).level = s.level := by
  unfold setDrawCam
  split <;> exact ⟨rfl, rfl⟩

/-- Moving marks the camera as dirty, so that its cache stays right. -/
theorem Inv.moveCam (h : s.Inv) (env : FrameEnv F) :
    (s.moveCam env).Inv ∧ (s.moveCam env).viewer = s.viewer.move env := by
  unfold Session.moveCam Viewer.move
  rw [current_viewer]
  have hmoved (fly : Fly F) := h.setFly fly
  have hset (fly : Fly F) := viewer_setFly fly s
  obtain ⟨hcontrols, hlevel⟩ := setDrawCam_same (s.drawCam.setFly _) s
  -- the record is made from cameras before and after; neither is changed by writing it
  by_cases hsave : env.frameIdx % 60 = 0
  · simp only [if_pos hsave]
    refine ⟨⟨(hmoved _).flags, (hmoved _).camera, (hmoved _).debugCamera⟩, ?_⟩
    show ({ (s.setDrawCam (s.drawCam.setFly _)).viewer with
      gravityVel := _, level := _ } : Viewer F) = _
    rw [hset, hlevel, hcontrols]
    rfl
  · simp only [if_neg hsave]
    refine ⟨⟨(hmoved _).flags, (hmoved _).camera, (hmoved _).debugCamera⟩, ?_⟩
    show ({ (s.setDrawCam (s.drawCam.setFly _)).viewer with
      gravityVel := _, level := (s.setDrawCam (s.drawCam.setFly _)).level } : Viewer F) = _
    rw [hset, hlevel]
    rfl

theorem Inv.draw (h : s.Inv) (hstarted : s.started = true) :
    s.draw.1.1 = s.viewer.current.viewMatrix ∧ s.draw.2.Inv ∧ s.draw.2.viewer = s.viewer := by
  rw [current_viewer]
  unfold Session.draw setDrawCam drawCam
  cases hdebug : s.controls.debugCam with
  | true =>
    obtain ⟨hview, hcoherent⟩ := (h.debugCamera hstarted hdebug).viewMatrix
    obtain ⟨hfly, -⟩ := s.debugCamera.viewMatrix_same
    exact ⟨hview, ⟨h.flags, h.camera, fun _ _ => hcoherent⟩, by simp [viewer, hdebug, hfly]⟩
  | false =>
    obtain ⟨hview, hcoherent⟩ := (h.camera hstarted).viewMatrix
    obtain ⟨hfly, -⟩ := s.camera.viewMatrix_same
    exact ⟨hview, ⟨h.flags, fun _ => hcoherent, fun _ hon => absurd hon (by simp [hdebug])⟩,
      by simp [viewer, hdebug, hfly]⟩

theorem Inv.frame (h : s.Inv) (env : FrameEnv F) :
    (s.frame env).1.aimView = s.viewer.begin.player.viewMatrix ∧
    (s.frame env).1.drawView = (s.viewer.begin.move env).current.viewMatrix ∧
    (s.frame env).2.Inv ∧ (s.frame env).2.viewer = s.viewer.begin.move env := by
  -- tick, begin, aim, move, draw: what one leaves is what the next starts from
  obtain ⟨htick, hsame⟩ := h.tick
  obtain ⟨hbegin, hbegun⟩ := htick.begin
  rw [hsame] at hbegun
  have hstarted : s.tick.begin.viewer.started = true := by
    rw [hbegun]
    exact s.viewer.started_begin
  obtain ⟨haim, hinv, haimed⟩ := hbegin.aim hstarted env
  obtain ⟨hinv, hmoved⟩ := hinv.moveCam env
  rw [haimed, hbegun] at hmoved
  have hrunning : ((s.tick.begin.aim env).2.moveCam env).viewer.started = true := by
    rw [hmoved]
    exact (s.viewer.begin.started_move env).trans s.viewer.started_begin
  obtain ⟨hdraw, hinv, hdrawn⟩ := hinv.draw hrunning
  rw [hmoved] at hdraw hdrawn
  rw [hbegun] at haim
  exact ⟨haim, hdraw, hinv, hdrawn⟩

theorem Inv.step (h : s.Inv) (e : SessionEvent F) :
    (s.step e).Inv ∧ (s.step e).viewer = s.viewer.step e := by
  cases e with
  | keyDown k => exact h.keyDown k
  | keyUp k => exact h.keyUp k
  | touchDown x y =>
    refine ⟨⟨h.flags, h.camera, h.debugCamera⟩, ?_⟩
    rw [Viewer.step, current_viewer]
    rfl
  | touchDrag x y => exact h.touchDrag x y
  | touchUp => exact ⟨⟨h.flags, h.camera, h.debugCamera⟩, rfl⟩
  | resize w h' => exact ⟨⟨h.flags, h.camera, h.debugCamera⟩, rfl⟩
  | frame env => exact (h.frame env).2.2
  | restart m => exact ⟨inv_start m s.level, rfl⟩

theorem Inv.run (h : s.Inv) (es : List (SessionEvent F)) :
    (es.foldl Session.step s).Inv ∧
      (es.foldl Session.step s).viewer = es.foldl Viewer.step s.viewer := by
  induction es generalizing s with
  | nil => exact ⟨h, rfl⟩
  | cons e es ih =>
    obtain ⟨hinv, hviewer⟩ := h.step e
    rw [List.foldl_cons, List.foldl_cons, ← hviewer]
    exact ih hinv

/-- What falls is the only thing that changes it: after any events `m_gravityVel` is 0, lowered some
number of times, which in exact arithmetic is never upwards (`fallen_nonpos`). So the assumption of
`moves_out` about it holds in every state a session gets into. -/
theorem gravityVel_run (m : Memory F) (level : Level) (es : List (SessionEvent F)) :
    ∃ n, (es.foldl Session.step (.start m level)).gravityVel = fallen n := by
  obtain ⟨-, hviewer⟩ := (inv_start m level).run es
  have hvel := congrArg Viewer.gravityVel hviewer
  obtain ⟨n, hn⟩ := Viewer.gravityVel_foldl (v := (start m level).viewer) ⟨0, rfl⟩ es
  exact ⟨n, hvel.trans hn⟩

end Session

/-- The observer leaves. -/
def SessionEvent.Leaves : SessionEvent F → Prop
  | .keyDown k => k = key 'I'
  | .restart _ => True
  | _ => False

namespace Session

/-- There is an observer, and the player is where it was. -/
structure Held (fly : Fly F) (aspect : F) (s : Session F) : Prop where
  started : s.started = true
  debugCam : s.controls.debugCam = true
  fly : s.camera.fly = fly
  aspect : s.debugCamera.aspect = aspect

variable {s : Session F} {fly : Fly F} {aspect : F}

omit [FloatCam F] [BEq F] [LE F] [DecidableLE F] in
/-- Only the second camera is set. -/
theorem Held.setDrawCam (h : s.Held fly aspect) {c : Camera F} (hc : c.aspect = aspect) :
    (s.setDrawCam c).Held fly aspect := by
  unfold Session.setDrawCam
  rw [if_pos h.debugCam]
  exact ⟨h.started, h.debugCam, h.fly, hc⟩

omit [FloatCam F] [BEq F] [LE F] [DecidableLE F] in
theorem Held.drawCam (h : s.Held fly aspect) : s.drawCam.aspect = aspect := by
  unfold Session.drawCam
  rw [if_pos h.debugCam]
  exact h.aspect

/-- A frame updates the aspect ratio of the first camera, and draws with the second. -/
theorem Held.frame (h : s.Held fly aspect) (env : FrameEnv F) :
    (s.frame env).1.drawAspect = aspect ∧ (s.frame env).2.Held fly aspect := by
  have htick : s.tick.Held fly aspect := ⟨h.started, h.debugCam, h.fly, h.aspect⟩
  have hbegin : s.tick.begin = s.tick := if_pos htick.started
  have haim : (s.tick.aim env).2.Held fly aspect :=
    ⟨h.started, h.debugCam, s.tick.camera.viewMatrix_same.1.trans h.fly, h.aspect⟩
  have hmove : ((s.tick.aim env).2.moveCam env).Held fly aspect := by
    have hset (la : Fly F) :=
      haim.setDrawCam (c := (s.tick.aim env).2.drawCam.setFly la) haim.drawCam
    unfold Session.moveCam
    dsimp only
    split <;> exact ⟨(hset _).started, (hset _).debugCam, (hset _).fly, (hset _).aspect⟩
  have hsame := (((s.tick.aim env).2.moveCam env).drawCam.viewMatrix_same).2.trans hmove.drawCam
  unfold Session.frame
  rw [hbegin]
  exact ⟨hsame, hmove.setDrawCam hsame⟩

theorem Held.step (h : s.Held fly aspect) {e : SessionEvent F} (he : ¬ e.Leaves) :
    (s.step e).Held fly aspect := by
  cases e with
  -- only `I` would copy the first camera over the second
  | keyDown k =>
    have hk : k ≠ key 'I' := he
    refine ⟨h.started, ?_, h.fly, ?_⟩
    · rw [Session.step, Session.keyDown, (flags_keyDown k s.controls).2, if_neg hk]
      exact h.debugCam
    · rw [Session.step, Session.keyDown, if_neg hk]
      exact h.aspect
  | keyUp k => exact ⟨h.started, (flags_keyUp k s.controls).2.trans h.debugCam, h.fly, h.aspect⟩
  | touchDrag x y =>
    unfold Session.step Session.touchDrag
    cases s.activeTouch with
    | none => exact h
    | some t => exact h.setDrawCam h.drawCam
  | frame env => exact (h.frame env).2
  | restart m => exact absurd trivial he
  | touchDown | touchUp | resize => exact ⟨h.started, h.debugCam, h.fly, h.aspect⟩

theorem Held.run (h : s.Held fly aspect) {es : List (SessionEvent F)} (hes : ∀ e ∈ es, ¬ e.Leaves) :
    (es.foldl Session.step s).Held fly aspect := by
  induction es generalizing s with
  | nil => exact h
  | cons e es ih =>
    obtain ⟨he, hes⟩ := List.forall_mem_cons.mp hes
    exact ih (h.step he) hes

end Session

/-- From any state after the first frame with an observer, as long as the observer stays: the player
does not move, tiles are selected for the same view, and the picture has the aspect ratio the
observer came with, also if the window has got another one. -/
theorem inspect_holds (m : Memory F) (level : Level) (es₀ es : List (SessionEvent F)) :
    let s := es₀.foldl Session.step (.start m level)
    s.started = true → s.controls.inspectmode = true → (∀ e ∈ es, ¬ e.Leaves) →
      let s' := es.foldl Session.step s
      s'.camera.fly = s.camera.fly ∧ ∀ env,
        (s'.frame env).1.aimView = s.camera.fly.viewMatrix ∧
        (s'.frame env).1.drawAspect = s.debugCamera.aspect := by
  intro s hstarted hinspect hes s'
  obtain ⟨hinv, -⟩ := (Session.inv_start m level).run es₀
  obtain ⟨hinv', -⟩ := hinv.run es
  have hheld : s.Held s.camera.fly s.debugCamera.aspect :=
    ⟨hstarted, hinv.flags.trans hinspect, rfl, rfl⟩
  have hafter := hheld.run hes
  refine ⟨hafter.fly, fun env => ⟨?_, (hafter.frame env).1⟩⟩
  -- the first frame is over, so nothing is read from the record any more
  have hbegin : s'.viewer.begin = s'.viewer := if_pos hafter.started
  have haim := (hinv'.frame env).1
  rw [hbegin] at haim
  exact haim.trans (congrArg Fly.viewMatrix hafter.fly)

/-- I is pressed after the first frame, and the window is made wider. -/
theorem inspect_holds_wider :
    let env : FrameEnv Int32 := ⟨1, (1, 6, 180), fun _ => none, (0, 0)⟩
    let s := [.resize 100 100, .frame env, .keyDown (key 'I')].foldl Session.step
      (.start ⟨0, false, 0, false⟩ .empty)
    let s' := [.resize 200 100, .keyDown (key 'W'), .frame env].foldl Session.step s
    s.controls.inspectmode = true ∧ s'.camera.fly = s.camera.fly ∧
      (s'.frame env).1.drawAspect = s.debugCamera.aspect ∧ s.debugCamera.aspect = 1 := by
  intro env s s'
  obtain ⟨hfly, hshown⟩ := inspect_holds (⟨0, false, 0, false⟩ : Memory Int32) .empty
    [.resize 100 100, .frame env, .keyDown (key 'I')]
    [.resize 200 100, .keyDown (key 'W'), .frame env] rfl rfl (by
      intro e he
      simp only [List.mem_cons, List.not_mem_nil, or_false] at he
      rcases he with rfl | rfl | rfl
      · exact id
      · show ¬ key 'W' = key 'I'
        decide
      · exact id)
  exact ⟨rfl, hfly, (hshown env).2, rfl⟩

/-! ## Restarting -/

theorem Session.Inv.isSome_observer {s : Session F} (h : s.Inv) :
    s.viewer.observer.isSome = s.viewer.controls.inspectmode := by
  show (if s.controls.debugCam then some s.debugCamera.fly else none).isSome =
    s.controls.inspectmode
  rw [← h.flags]
  cases s.controls.debugCam <;> rfl

/-- A frame saves, any number of frames follow that do not, and the program is started again, any
number of times: the observer is where it was after the frame that saved, and the player is where it
was before. -/
theorem restart_returns (m m' : Memory F) (level : Level) (es₀ es : List (SessionEvent F))
    (env : FrameEnv F) (hsave : env.frameIdx % 60 = 0) (hes : ∀ e ∈ es, ¬ Viewer.Saves e) :
    let s := es₀.foldl Session.step (.start m level)
    let after := s.step (.frame env)
    let r := ((es.foldl Session.step after).step (.restart m')).begin
    r.viewer.player = s.viewer.begin.player ∧ r.viewer.observer = after.viewer.observer ∧
      r.controls.flymode = after.controls.flymode := by
  intro s after r
  obtain ⟨hinv, -⟩ := (Session.inv_start m level).run es₀
  obtain ⟨hbegin, hbegun⟩ := hinv.tick.1.begin
  obtain ⟨-, -, hafter, hmoved⟩ := hinv.frame env
  obtain ⟨-, hviewer⟩ := hafter.run es
  obtain ⟨-, hr⟩ := (Session.inv_start m' (es.foldl Session.step after).level).begin
  -- nothing was saved since, so this is the record that is read
  have hlevel : (es.foldl Session.step after).level = (s.viewer.begin.move env).level := by
    rw [← hmoved]
    exact (congrArg Viewer.level hviewer).trans (Viewer.level_run _ hes)
  have hv := hbegin.isSome_observer
  rw [hbegun] at hv
  obtain ⟨hplayer, hobserver, hflymode⟩ := Viewer.begin_move hv hsave
  have hrestarted : r.viewer = (Viewer.start (s.viewer.begin.move env).level).begin := by
    rw [← hlevel]
    exact hr
  have hcontrols : after.controls = s.viewer.begin.controls := by
    rw [← s.viewer.begin.controls_move env, ← hmoved]
    rfl
  refine ⟨?_, ?_, ?_⟩
  · rw [hrestarted]
    exact hplayer
  · rw [hrestarted]
    exact hobserver.trans (congrArg Viewer.observer hmoved).symm
  · rw [hcontrols]
    exact (congrArg (fun v => v.controls.flymode) hrestarted).trans hflymode

/-- Saved in the first frame, moved in the second, and started again. -/
theorem restart_returns_second :
    let env (frameIdx : Int) : FrameEnv Int32 := ⟨frameIdx, (1, 6, 180), fun _ => none, (0, 0)⟩
    let s := [.resize 100 100, .keyDown (key 'W')].foldl Session.step
      (.start ⟨0, false, 0, false⟩ .empty)
    let after := s.step (.frame (env 0))
    let r := (([.frame (env 1)].foldl Session.step after).step (.restart ⟨0, true, 0, true⟩)).begin
    (env 0).frameIdx % 60 = 0 ∧ r.viewer.player = s.viewer.begin.player ∧
      r.controls.flymode = true := by
  intro env s after r
  obtain ⟨hplayer, -, hflymode⟩ := restart_returns (⟨0, false, 0, false⟩ : Memory Int32)
    ⟨0, true, 0, true⟩ .empty [.resize 100 100, .keyDown (key 'W')] [.frame (env 1)] (env 0) rfl (by
      intro e he
      rw [List.mem_singleton.mp he]
      show ¬ (1 : Int) % 60 = 0
      decide)
  exact ⟨rfl, hplayer, hflymode⟩

end Refinement

end MapBg
