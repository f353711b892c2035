import Mathlib.Data.List.FinRange
import Mathlib.Logic.Function.Basic
import MapBg.Lib.Run

/-!
# `World::KeyDown` and `World::KeyUp`: the keys that move the camera

Six keys move the camera, two on each axis. Pressing one adds to the velocity of its axis or takes
from it; releasing one sets it to zero. Keys come from two sources that do not know of each other.
The window procedure passes on a key when it goes down and when it comes up again, told apart from
the repetitions by `keystate`; the buttons on the screen do the same once a frame, from
`sButtonStates`. So a key may be held twice, and a key and its opposite may be held together.

One would like the velocity to be what the held keys add up to. After a press it still is if it was
before. After a release it is zero, whatever else is held: `movement_follows_keys_iff` says that the
velocity follows the keys throughout a run exactly if whenever a key is released, what is still held
on its axis cancels out. To press D, press A and release A is enough for the camera to stand still
with D held (`release_stops_camera`).

Velocities are counted in units of `speed`.
-/

set_option autoImplicit false

namespace MapBg

/-- `m_camVel[0]`, `m_camVel[1]` and `m_camVel[2]`. -/
inductive Axis where
  | x
  | y
  | z
  deriving DecidableEq, Repr

/-- Both sources look the key up in an array of 256. -/
abbrev Key := Fin 256

/-- A character as `KeyDown` gets it. -/
def key (c : Char) : Key := Fin.ofNat 256 c.toNat

/-- What the keys change: the velocity and the flags of `World`, the flag of the engine for the
debug camera, and `g_maxTileLod`. -/
structure Controls where
  camVel : Axis → Int
  isPaused : Bool
  flymode : Bool
  showOctBoxes : Bool
  inspectmode : Bool
  debugCam : Bool
  maxTileLod : Nat

namespace Controls

/-! ## The code -/

def leftShift : Key := 16

def spaceBar : Key := 32

/-- The constructor of `World`. The camera flies and does not move. -/
def initial : Controls where
  camVel _ := 0
  isPaused := false
  flymode := true
  showOctBoxes := false
  inspectmode := false
  debugCam := false
  maxTileLod := 9

def addVel (s : Controls) (a : Axis) (v : Int) : Controls :=
  { s with camVel := Function.update s.camVel a (s.camVel a + v) }

def clearVel (s : Controls) (a : Axis) : Controls :=
  { s with camVel := Function.update s.camVel a 0 }

/-- `World::KeyDown`. The digits are tested for after the `switch`, whatever it did. -/
def keyDown (k : Key) (s : Controls) : Controls :=
  let s :=
    if k = key 'P' then { s with isPaused := !s.isPaused }
    else if k = leftShift then s.addVel .y (-1)
    else if k = spaceBar then s.addVel .y 1
    else if k = key 'A' then s.addVel .x (-1)
    else if k = key 'D' then s.addVel .x 1
    else if k = key 'W' then s.addVel .z 1
    else if k = key 'S' then s.addVel .z (-1)
    else if k = key 'F' then { s with flymode := !s.flymode }
    else if k = key 'B' then { s with showOctBoxes := !s.showOctBoxes }
    else if k = key 'I' then
      -- `SetDbgCam(m_inspectmode)`, after the flag has changed
      { s with inspectmode := !s.inspectmode, debugCam := !s.inspectmode }
    else s
  if k ≥ key '1' ∧ k ≤ key '9' then { s with maxTileLod := k - key '0' } else s

/-- `World::KeyUp`. The velocity is set to 0 and not reduced by what was added. -/
def keyUp (k : Key) (s : Controls) : Controls :=
  if k = leftShift ∨ k = spaceBar then s.clearVel .y
  else if k = key 'A' ∨ k = key 'D' then s.clearVel .x
  else if k = key 'W' ∨ k = key 'S' then s.clearVel .z
  else s

end Controls

/-! ### The two sources

A source turns what happens to it into calls of `KeyDown` and `KeyUp`. -/

/-- Where a key comes from. -/
inductive Source where
  | window
  | buttons
  deriving DecidableEq, Repr

/-- A call of `KeyDown`, or of `KeyUp` if not `down`. -/
structure KeyEvent where
  source : Source
  down : Bool
  key : Key
  deriving DecidableEq, Repr

/-- `WM_KEYDOWN` or `WM_SYSKEYDOWN`, and `WM_KEYUP` or `WM_SYSKEYUP`. -/
inductive KeyMessage where
  | keyDown (wParam : Key)
  | keyUp (wParam : Key)

/-- What the window procedure does with a message: the key is passed on if that changes `keystate`.
-/
def wndProc (keystate : Key → Bool) : KeyMessage → List KeyEvent × (Key → Bool)
  | .keyDown wParam =>
    if keystate wParam = false then
      ([⟨.window, true, wParam⟩], Function.update keystate wParam true)
    else ([], keystate)
  | .keyUp wParam =>
    if keystate wParam ≠ false then
      ([⟨.window, false, wParam⟩], Function.update keystate wParam false)
    else ([], keystate)

/-- What `IsItemActive` says of the six buttons. -/
structure ActiveButtons where
  up : Bool
  down : Bool
  right : Bool
  left : Bool
  caretUp : Bool
  caretDown : Bool

/-- Which keys the buttons on the screen stand for. -/
def buttonsThisFrame (active : ActiveButtons) (i : Key) : Bool :=
  if i = key 'W' then active.up
  else if i = key 'S' then active.down
  else if i = key 'D' then active.right
  else if i = key 'A' then active.left
  else if i = 32 then active.caretUp
  else if i = 16 then active.caretDown
  else false

/-- A key is passed on if its button was not as it is now in the last frame. -/
def buttonEdge (buttons buttonStates : Key → Bool) (i : Key) : Option KeyEvent :=
  if buttons i ≠ buttonStates i then some ⟨.buttons, buttons i, i⟩ else none

/-- The end of `UIManager::Update`. -/
def uiUpdate (buttonStates : Key → Bool) (active : ActiveButtons) :
    List KeyEvent × (Key → Bool) :=
  let buttons := buttonsThisFrame active
  ((List.finRange 256).filterMap (buttonEdge buttons buttonStates), buttons)

/-- What the two sources remember: `keystate` and `sButtonStates`. -/
structure Inputs where
  keystate : Key → Bool
  buttonStates : Key → Bool

/-- A message to the window, or a frame in which the buttons are looked at. -/
inductive Stimulus where
  | message (m : KeyMessage)
  | frame (active : ActiveButtons)

namespace Inputs

/-- Nothing is held. -/
def initial : Inputs := ⟨fun _ => false, fun _ => false⟩

/-- The calls that a stimulus leads to, and what is remembered of it. -/
def emit (i : Inputs) : Stimulus → List KeyEvent × Inputs
  | .message m =>
    let (events, keystate) := wndProc i.keystate m
    (events, { i with keystate })
  | .frame active =>
    let (events, buttonStates) := uiUpdate i.buttonStates active
    (events, { i with buttonStates })

/-- The calls that a sequence of messages and frames makes, in order. -/
def events (i : Inputs) : List Stimulus → List KeyEvent
  | [] => []
  | stimulus :: rest => (i.emit stimulus).1 ++ events (i.emit stimulus).2 rest

def after (i : Inputs) (stimuli : List Stimulus) : Inputs :=
  stimuli.foldl (fun i stimulus => (i.emit stimulus).2) i

end Inputs

/-! ## Keys held -/

/-- Which keys each source holds. -/
abbrev Held := Source → Key → Bool

/-- Who holds a key after the event. -/
def Held.set (held : Held) (e : KeyEvent) : Held := fun source k =>
  if source = e.source ∧ k = e.key then e.down else held source k

/-- The event changes something: a key goes down that was up, or comes up that was down. -/
def Held.Changes (held : Held) (e : KeyEvent) : Prop := held e.source e.key = !e.down

/-- What a source remembers is what it holds. -/
def Inputs.held (i : Inputs) : Held
  | .window => i.keystate
  | .buttons => i.buttonStates

/-- The number of sources that hold a key. -/
def Held.count (held : Held) (k : Key) : Int := (held .window k).toInt + (held .buttons k).toInt

namespace Axis

def positiveKey : Axis → Key
  | .x => key 'D'
  | .y => Controls.spaceBar
  | .z => key 'W'

def negativeKey : Axis → Key
  | .x => key 'A'
  | .y => Controls.leftShift
  | .z => key 'S'

def Moves (a : Axis) (k : Key) : Prop := k = a.positiveKey ∨ k = a.negativeKey

instance (a : Axis) (k : Key) : Decidable (a.Moves k) := inferInstanceAs (Decidable (_ ∨ _))

end Axis

/-- What the held keys add up to on an axis. -/
def Held.wanted (held : Held) (a : Axis) : Int :=
  held.count a.positiveKey - held.count a.negativeKey

/-- The controls, and which keys are held by now. -/
structure Play where
  controls : Controls
  held : Held

namespace Play

/-- The world as it is constructed, with no key held. -/
def initial : Play := ⟨.initial, fun _ _ => false⟩

/-- A call of `KeyDown` or `KeyUp`, of which note is taken. -/
def step (s : Play) (e : KeyEvent) : Play where
  controls := if e.down then s.controls.keyDown e.key else s.controls.keyUp e.key
  held := s.held.set e

/-- The velocity is what the held keys add up to. -/
def Follows (s : Play) : Prop := ∀ a, s.controls.camVel a = s.held.wanted a

/-- If the event releases a key, what is still held on its axis cancels out. -/
def ReleasesBalanced (s : Play) (e : KeyEvent) : Prop :=
  e.down = false → ∀ a : Axis, a.Moves e.key → (s.held.set e).wanted a = 0

end Play

/-! ## One event -/

namespace Controls

theorem camVel_addVel (s : Controls) (a : Axis) (v : Int) (b : Axis) :
    (s.addVel a v).camVel b = s.camVel b + if b = a then v else 0 := by
  show Function.update s.camVel a (s.camVel a + v) b = _
  by_cases h : b = a
  · rw [h, Function.update_self, if_pos rfl]
  · rw [Function.update_of_ne h, if_neg h, Int.add_zero]

theorem camVel_clearVel (s : Controls) (a b : Axis) :
    (s.clearVel a).camVel b = if b = a then 0 else s.camVel b :=
  Function.update_apply ..

/-- Of the cases of the `switch`, one at most is about the axis. -/
theorem camVel_keyDown (k : Key) (s : Controls) (a : Axis) :
    (s.keyDown k).camVel a = s.camVel a + (if k = a.positiveKey then 1 else 0)
      - if k = a.negativeKey then 1 else 0 := by
  unfold keyDown
  simp only [apply_ite Controls.camVel, ite_self, ite_apply, camVel_addVel]
  cases a <;> grind [key, leftShift, spaceBar, Axis.positiveKey, Axis.negativeKey]

theorem camVel_keyUp (k : Key) (s : Controls) (a : Axis) :
    (s.keyUp k).camVel a = if a.Moves k then 0 else s.camVel a := by
  unfold keyUp
  simp only [apply_ite Controls.camVel, ite_apply, camVel_clearVel]
  cases a <;>
    grind [key, leftShift, spaceBar, Axis.Moves, Axis.positiveKey, Axis.negativeKey]

end Controls

namespace Held

variable {held : Held} {e : KeyEvent}

/-- A source that changes its mind about a key changes the count of that key by one. -/
theorem count_set (h : held.Changes e) (k : Key) : (held.set e).count k
    = held.count k + if e.key = k then (if e.down then 1 else -1) else 0 := by
  obtain ⟨source, down, k'⟩ := e
  have hbefore : held source k' = !down := h
  -- a change adds one or takes one off
  have hflip : down.toInt = (!down).toInt + if down then 1 else -1 := by cases down <;> rfl
  by_cases hk : k' = k
  · subst hk
    cases source with
    | window =>
      simp only [count, set, and_self, reduceCtorEq, false_and, if_true, if_false]
      rw [hbefore, hflip]
      omega
    | buttons =>
      simp only [count, set, and_self, reduceCtorEq, false_and, if_true, if_false]
      rw [hbefore, hflip]
      omega
  · simp only [count, set, Ne.symm hk, and_false, hk, if_false, Int.add_zero]

/-- So what is wanted on an axis changes by one for its two keys, and not for others. -/
theorem wanted_set (h : held.Changes e) (a : Axis) : (held.set e).wanted a
    = held.wanted a + (if e.key = a.positiveKey then (if e.down then 1 else -1) else 0)
      - if e.key = a.negativeKey then (if e.down then 1 else -1) else 0 := by
  unfold wanted
  rw [count_set h, count_set h]
  omega

end Held

/-- **A step keeps the velocity right exactly if a release is balanced.** -/
theorem Play.follows_step_iff (s : Play) (e : KeyEvent) (h : s.Follows)
    (hchanges : s.held.Changes e) : (s.step e).Follows ↔ s.ReleasesBalanced e := by
  unfold Follows ReleasesBalanced step
  cases hdown : e.down with
  | true =>
    -- a press changes both by the same amount
    refine iff_of_true (fun a => ?_) (by simp)
    simp only [if_true]
    rw [Controls.camVel_keyDown, h a, Held.wanted_set hchanges, hdown]
    simp only [if_true]
  | false =>
    simp only [Bool.false_eq_true, if_false, true_implies, Controls.camVel_keyUp]
    refine forall_congr' fun a => ?_
    by_cases hmoves : a.Moves e.key
    · simp only [hmoves, if_true, true_implies]
      -- a release leaves no velocity, which has to be what is still wanted
      exact eq_comm
    · -- the other axes have neither velocity nor keys changed
      have hother : (s.held.set e).wanted a = s.held.wanted a := by
        obtain ⟨hpos, hneg⟩ := not_or.mp hmoves
        rw [Held.wanted_set hchanges, if_neg hpos, if_neg hneg]
        omega
      rw [if_neg hmoves, h a, hother]
      exact iff_of_true rfl fun hm => absurd hm hmoves

/-! ## What the sources emit -/

open Run

/-- The loop over the buttons, from any key on: no key is looked at twice. -/
theorem along_buttonEdges (buttons buttonStates : Key → Bool) {keys : List Key}
    (hnodup : keys.Nodup) (held : Held) (hheld : ∀ k ∈ keys, held .buttons k = buttonStates k) :
    let es := keys.filterMap (buttonEdge buttons buttonStates)
    Along Held.set Held.Changes held es ∧
    ∀ source k, es.foldl Held.set held source k
      = if source = .buttons ∧ k ∈ keys then buttons k else held source k := by
  induction keys generalizing held with
  | nil => exact ⟨trivial, fun source k => by simp⟩
  | cons i keys ih =>
    obtain ⟨hi, hnodup⟩ := List.nodup_cons.mp hnodup
    obtain ⟨hfirst, hrest⟩ := List.forall_mem_cons.mp hheld
    -- the keys are different, so a change of the first does not touch the others
    by_cases hedge : buttons i = buttonStates i
    · have hnone : buttonEdge buttons buttonStates i = none := by simp [buttonEdge, hedge]
      rw [List.filterMap_cons_none hnone]
      obtain ⟨halong, hend⟩ := ih hnodup held hrest
      refine ⟨halong, fun source k => ?_⟩
      rw [hend]
      grind
    · have hsome : buttonEdge buttons buttonStates i = some ⟨.buttons, buttons i, i⟩ := by
        simp [buttonEdge, hedge]
      rw [List.filterMap_cons_some hsome]
      obtain ⟨halong, hend⟩ := ih hnodup (held.set ⟨.buttons, buttons i, i⟩) fun k hk => by
        have hne : k ≠ i := fun heq => hi (heq ▸ hk)
        simp [Held.set, hne, hrest k hk]
      refine ⟨⟨?_, halong⟩, fun source k => ?_⟩
      · show held .buttons i = !buttons i
        rw [hfirst]
        exact Bool.eq_not.mpr (Ne.symm hedge)
      · rw [List.foldl_cons, hend]
        unfold Held.set
        grind

/-- The window procedure passes on changes only, so `keystate` is what it holds. -/
theorem wndProc_along (i : Inputs) (m : KeyMessage) :
    Along Held.set Held.Changes i.held (wndProc i.keystate m).1 ∧
      (wndProc i.keystate m).1.foldl Held.set i.held
        = Inputs.held { i with keystate := (wndProc i.keystate m).2 } := by
  have hupdate : ∀ (k : Key) (down : Bool), i.held.set ⟨.window, down, k⟩
      = Inputs.held { i with keystate := Function.update i.keystate k down } := by
    intro k down
    funext source k'
    cases source <;> simp [Held.set, Inputs.held, Function.update_apply]
  cases m with
  | keyDown k =>
    simp only [wndProc]
    split
    · rename_i hup
      exact ⟨⟨hup, trivial⟩, hupdate k true⟩
    · exact ⟨trivial, rfl⟩
  | keyUp k =>
    simp only [wndProc]
    split
    · rename_i hdown
      exact ⟨⟨Bool.eq_true_of_not_eq_false hdown, trivial⟩, hupdate k false⟩
    · exact ⟨trivial, rfl⟩

namespace Inputs

theorem emit_along (i : Inputs) (stimulus : Stimulus) :
    Along Held.set Held.Changes i.held (i.emit stimulus).1 ∧
      (i.emit stimulus).1.foldl Held.set i.held = (i.emit stimulus).2.held := by
  cases stimulus with
  | message m => exact wndProc_along i m
  | frame active =>
    obtain ⟨halong, hend⟩ := along_buttonEdges (buttonsThisFrame active) i.buttonStates
      (List.nodup_finRange 256) i.held fun _ _ => rfl
    refine ⟨halong, funext₂ fun source k => (hend source k).trans ?_⟩
    cases source <;> simp [held, emit, uiUpdate]

/-- By induction on the stimuli: the two sources take turns, and neither touches what the other
remembers. -/
theorem events_along (i : Inputs) (stimuli : List Stimulus) :
    Along Held.set Held.Changes i.held (i.events stimuli) ∧
      (i.events stimuli).foldl Held.set i.held = (i.after stimuli).held := by
  induction stimuli generalizing i with
  | nil => exact ⟨trivial, rfl⟩
  | cons stimulus rest ih =>
    obtain ⟨hfirst, hnext⟩ := i.emit_along stimulus
    obtain ⟨hrest, hend⟩ := ih (i.emit stimulus).2
    rw [events, along_append, List.foldl_append, hnext]
    exact ⟨⟨hfirst, hrest⟩, hend⟩

end Inputs

/-! ## Whole runs -/

namespace Play

/-- Whatever the events are, as long as each changes something. -/
theorem follows_iff_of_changes {s : Play} {es : List KeyEvent} (h : s.Follows)
    (hchanges : Along Held.set Held.Changes s.held es) :
    (∀ pre, pre <+: es → (pre.foldl step s).Follows) ↔
      ∀ pre e, pre ++ [e] <+: es → (pre.foldl step s).ReleasesBalanced e := by
  have hallowed : Along step (fun s e => s.held.Changes e) s es :=
    (along_comap fun _ _ => rfl).mpr hchanges
  rw [forall_prefix_iff_along follows_step_iff h hallowed, along_iff]

theorem follows_initial : initial.Follows := by
  intro a
  cases a <;> rfl

/-- **The velocity follows the keys exactly if every release is balanced.** -/
theorem movement_follows_keys_iff (stimuli : List Stimulus) :
    let es := Inputs.initial.events stimuli
    ((∀ pre, pre <+: es → (pre.foldl step initial).Follows) ↔
      ∀ pre e, pre ++ [e] <+: es → (pre.foldl step initial).ReleasesBalanced e) ∧
    (es.foldl step initial).held = (Inputs.initial.after stimuli).held := by
  have hstart : initial.held = Inputs.initial.held := by
    funext source k
    cases source <;> rfl
  obtain ⟨hchanges, hend⟩ := Inputs.initial.events_along stimuli
  rw [← hstart] at hchanges hend
  refine ⟨follows_iff_of_changes follows_initial hchanges, ?_⟩
  exact (foldl_comap fun _ _ => rfl).trans hend

/-- D down, A down, A up: D is held and the camera stands still. -/
theorem release_stops_camera :
    let es := Inputs.initial.events [.message (.keyDown (key 'D')), .message (.keyDown (key 'A')),
      .message (.keyUp (key 'A'))]
    es = [⟨.window, true, key 'D'⟩, ⟨.window, true, key 'A'⟩, ⟨.window, false, key 'A'⟩] ∧
    (es.foldl step initial).held .window (key 'D') = true ∧
    (es.foldl step initial).held.wanted .x = 1 ∧
    (es.foldl step initial).controls.camVel .x = 0 ∧ ¬ (es.foldl step initial).Follows := by
  intro es
  have hes : es = [⟨.window, true, key 'D'⟩, ⟨.window, true, key 'A'⟩,
      ⟨.window, false, key 'A'⟩] := by decide
  rw [hes]
  refine ⟨rfl, by decide, by decide, by decide, fun h => ?_⟩
  exact absurd (h .x) (by decide)

end Play

end MapBg
