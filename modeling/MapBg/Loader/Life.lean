import Mathlib.Logic.Relation

/-!
# The loader thread, from construction to join

The members of an `OctTileSelection` are constructed in the order they are declared, whatever the
order in the constructor's list: first `m_loaderThread`, which starts the thread, and only then
`m_mtx`, `m_exit`, `m_mtxcv` and `m_cv`. The thread uses all of them. It runs

    std::unique_lock<std::mutex> lk(pThis->m_mtxcv);
    while (!pThis->m_exit)
    {
        pThis->m_cv.wait(lk);
        while (pThis->m_loaderTiles.size() > 0) ...
    }

and the destructor sets `m_exit`, notifies once and joins. The wait has no predicate and the
notification is made without the mutex, so a notification that comes while nobody waits is lost.

The model interleaves the two threads step by step. A member that is not constructed is memory, and
the initial state leaves open what is in it: `m_exit` may read as true, and `m_mtxcv` may look as if
it was taken. A thread that blocks in such memory is lost: the constructor writes over it, and who
notifies later does not know of a thread that came before (`stranded`). `wait` is two steps: the
loader has read `m_exit` and is about to block (`enterWait`), and it is blocked (`waiting`). A
blocked thread goes on when it is notified, and may do so for no reason.

Three things go wrong (`life_cycle_breaks`). The loader may lock memory that happens to look like a
free mutex, read the byte of `m_exit` as true and leave for good; it may wait before there is a
condition variable; and the destructor may notify in the gap before the loader blocks.
`life_cycle_of_guarded` says that there is nothing else: a loader that neither locks nor waits
before the constructor is that far, and is not notified in the gap, leaves after the destructor has
set `m_exit` and not before, and is not waited for in vain. -/

set_option autoImplicit false

namespace MapBg

namespace LoaderLife

/-! ## The two threads -/

/-- The members that the loader uses, from `m_loaderThread` on in the order of their declaration. -/
inductive Member
  | loaderThread
  /-- Locked by the loader to take a tile, of which there are none before the first `Update`. -/
  | mtx
  | exit
  | mtxcv
  | cv
  deriving DecidableEq

/-- The order of construction is the order of declaration. -/
def Member.place : Member → Nat
  | .loaderThread => 0
  | .mtx => 1
  | .exit => 2
  | .mtxcv => 3
  | .cv => 4

/-- Where the main thread is. It constructs the object member by member, calls `Update` any number
of times (a swap, then a notification) and destroys it. -/
inductive Main
  /-- In the constructor, with this member next. -/
  | construct (next : Member)
  /-- Outside of `Update` and of the destructor. -/
  | running
  /-- `Update` has swapped the tiles in. -/
  | updateNotify
  /-- The destructor has set `m_exit`. -/
  | exitNotify
  /-- The destructor waits for the thread to end. -/
  | join
  | joined
  deriving DecidableEq

inductive Loader
  | notStarted
  /-- At the constructor of `lk`. -/
  | lock
  /-- At the condition of the outer loop. -/
  | testExit
  /-- Has found `m_exit` false, and does not block yet. -/
  | enterWait
  /-- Blocked in `m_cv`. -/
  | waiting
  /-- In the inner loop. -/
  | drain
  | exited
  /-- Blocked in memory that was not constructed. Nothing wakes it. -/
  | stranded
  deriving DecidableEq

/-- Both threads, and what they share. -/
structure State where
  main : Main
  loader : Loader
  exit : Bool
  /-- Whether `m_mtxcv` looks taken to a thread that wants to lock it. Nobody but the loader locks
  it, so once it is constructed it never does, and the loader's own lock is not kept here. -/
  mtxcv : Bool
  loaderTiles : Nat
  deriving DecidableEq

/-- What may happen next. `spurious` is a wait that returns for no reason. -/
inductive Act
  | construct
  | swap (loaderTiles : Nat)
  | notify
  | destroy
  | join
  | loader
  | spurious

/-- Before the constructor, with what happens to be in the memory of the object. -/
def initial (exit mtxcv : Bool) : State :=
  ⟨.construct .loaderThread, .notStarted, exit, mtxcv, 0⟩

def Main.has : Main → Member → Bool
  | .construct next, member => decide (member.place < next.place)
  | _, _ => true

/-- `notify_one`: a thread that waits goes on, and otherwise nothing happens. -/
def notifyOne (s : State) : State :=
  if s.loader = .waiting then { s with loader := .drain } else s

/-- The next step of `LoaderThread`. There is none where the loader is blocked. -/
def loaderStep (s : State) : Option State :=
  match s.loader with
  | .notStarted => none
  | .lock => some { s with loader := if s.mtxcv then .stranded else .testExit }
  | .testExit => some { s with loader := if s.exit then .exited else .enterWait }
  -- the constructor of `m_cv` does not know of a thread that is there already
  | .enterWait => some { s with loader := if s.main.has .cv then .waiting else .stranded }
  | .waiting => none
  | .drain =>
    if s.loaderTiles > 0 then some { s with loaderTiles := s.loaderTiles - 1 }
    else some { s with loader := .testExit }
  | .exited => none
  | .stranded => none

/-- The next step of the constructor. -/
def constructStep (s : State) : Member → State
  | .loaderThread => { s with main := .construct .mtx, loader := .lock }
  | .mtx => { s with main := .construct .exit }
  | .exit => { s with main := .construct .mtxcv, exit := false }
  | .mtxcv => { s with main := .construct .cv, mtxcv := false }
  | .cv => { s with main := .running }

/-- One step of either thread. -/
def step (s : State) : Act → Option State
  | .construct =>
    match s.main with
    | .construct next => some (constructStep s next)
    | _ => none
  | .swap loaderTiles =>
    if s.main = .running then some { s with main := .updateNotify, loaderTiles } else none
  | .notify =>
    match s.main with
    | .updateNotify => some { notifyOne s with main := .running }
    | .exitNotify => some { notifyOne s with main := .join }
    | _ => none
  | .destroy =>
    -- `m_exit = true` and the notification are two steps, with the loader free to run in between
    if s.main = .running then some { s with main := .exitNotify, exit := true } else none
  | .join => if s.main = .join ∧ s.loader = .exited then some { s with main := .joined } else none
  | .loader => loaderStep s
  | .spurious => if s.loader = .waiting then some { s with loader := .drain } else none

/-- The destructor has set `m_exit`. -/
def Main.exiting : Main → Prop
  | .exitNotify | .join | .joined => True
  | _ => False

/-! ## What goes wrong -/

/-- The state after these steps, if each of them is possible where it is made. -/
def run (exit mtxcv : Bool) (acts : List Act) : Option State :=
  acts.foldlM step (initial exit mtxcv)

/-- In the first run the thread locks what is not a mutex yet, reads the uninitialised `m_exit` as
true, and is gone before the constructor is done. In the second the destructor sets `m_exit` and
notifies after the loader has read it and before it blocks. In the third the memory is all zeros,
but the loader waits before there is a condition variable, and the destructor's notification does
not reach it. -/
theorem life_cycle_breaks :
    run true false [.construct, .loader, .loader, .construct, .construct, .construct, .construct]
      = some ⟨.running, .exited, false, false, 0⟩ ∧
    run false false [.construct, .construct, .construct, .construct, .construct, .loader, .loader,
      .destroy, .notify, .loader] = some ⟨.join, .waiting, true, false, 0⟩ ∧
    run false false [.construct, .construct, .construct, .construct, .loader, .loader, .loader,
      .construct, .destroy, .notify] = some ⟨.join, .stranded, true, false, 0⟩ := by
  decide

/-! ## What it takes -/

/-- The loader comes to `m_mtxcv` and to `m_cv` after the constructor, and the destructor does not
notify in the gap. That `m_exit` has its value when it is read needs no condition of its own: it is
constructed before `m_mtxcv`, and read after that is locked. -/
structure Guard (s : State) (a : Act) : Prop where
  lock : a = .loader → s.loader = .lock → s.main.has .mtxcv = true
  wait : a = .loader → s.loader = .enterWait → s.main.has .cv = true
  notify : a = .notify → s.main = .exitNotify → s.loader ≠ .enterWait

/-- A step that is taken only where it is guarded. -/
def GuardedStep (s s' : State) : Prop := ∃ a, step s a = some s' ∧ Guard s a

/-- Reached by steps that meet the guard, from any contents of the memory. -/
def Guarded (s : State) : Prop :=
  ∃ exit mtxcv, Relation.ReflTransGen GuardedStep (initial exit mtxcv) s

/-- The loader is past its lock. -/
def Loader.locked : Loader → Bool
  | .notStarted | .lock => false
  | _ => true

/-- What holds in a guarded run. `locked` is what makes the rest of the constructor safe: a loader
that has the lock finds `m_exit` constructed, and `m_mtx` as well. -/
structure Inv (s : State) : Prop where
  started : s.loader = .notStarted → s.main = .construct .loaderThread
  locked : s.loader.locked = true → s.main.has .mtxcv = true
  mtxcv : s.main.has .mtxcv = true → s.mtxcv = false
  exit_false : s.main.has .exit = true → ¬ s.main.exiting → s.exit = false
  exit_true : s.main.exiting → s.exit = true
  exited : s.loader = .exited → s.main.exiting
  reachable : s.loader ≠ .stranded
  joining : s.main = .join → s.loader ≠ .enterWait ∧ s.loader ≠ .waiting

theorem Main.has_of_le {m : Main} {a b : Member} (h : m.has b = true) (hle : a.place ≤ b.place) :
    m.has a = true := by
  cases m with
  | construct next =>
    have hlt : b.place < next.place := of_decide_eq_true h
    exact decide_eq_true (Nat.lt_of_le_of_lt hle hlt)
  | _ => rfl

theorem Main.has_of_exiting {m : Main} (h : m.exiting) (member : Member) : m.has member = true := by
  cases m with
  | construct next => exact h.elim
  | _ => rfl

theorem inv_initial (exit mtxcv : Bool) : Inv (initial exit mtxcv) where
  started _ := rfl
  locked h := absurd h (by simp [initial, Loader.locked])
  mtxcv h := absurd h (by simp [initial, Main.has, Member.place])
  exit_false h := absurd h (by simp [initial, Main.has, Member.place])
  exit_true h := h.elim
  exited h := absurd h (by simp [initial])
  reachable := by simp [initial]
  joining h := absurd h (by simp [initial])

/-! ### The loader -/

/-- A step that changes at most where the loader is: it must have the lock, it must not leave unless
the destructor has set `m_exit`, and it must not block once the destructor joins. -/
theorem Inv.moveLoader {s : State} (h : Inv s) (loader : Loader) (loaderTiles : Nat)
    (hlocked : s.main.has .mtxcv = true) (hstarted : loader ≠ .notStarted)
    (hexited : loader = .exited → s.main.exiting) (hstranded : loader ≠ .stranded)
    (hjoining : s.main = .join → loader ≠ .enterWait ∧ loader ≠ .waiting) :
    Inv { s with loader, loaderTiles } :=
  ⟨fun hl => absurd hl hstarted, fun _ => hlocked, h.mtxcv, h.exit_false, h.exit_true, hexited,
    hstranded, hjoining⟩

/-- The guard is needed where the loader locks and where it blocks. Where it reads `m_exit`, the
byte is true only if the destructor wrote it. -/
theorem Inv.loaderStep {s s' : State} (h : Inv s) (hs : loaderStep s = some s')
    (hlock : s.loader = .lock → s.main.has .mtxcv = true)
    (hwait : s.loader = .enterWait → s.main.has .cv = true) : Inv s' := by
  unfold LoaderLife.loaderStep at hs
  cases hl : s.loader with
  | notStarted => simp [hl] at hs
  | lock =>
    have hhas := hlock hl
    -- it is constructed, and nobody else locks it
    have hfree := h.mtxcv hhas
    simp only [hl] at hs
    cases hs
    exact h.moveLoader _ _ hhas (by simp [hfree]) (by simp [hfree]) (by simp [hfree])
      (by simp [hfree])
  | testExit =>
    have hhas := h.locked (by simp [hl, Loader.locked])
    simp only [hl] at hs
    cases hs
    by_cases hm : s.main.exiting
    · have hexit := h.exit_true hm
      exact h.moveLoader _ _ hhas (by simp [hexit]) (fun _ => hm) (by simp [hexit])
        (by simp [hexit])
    -- `m_exit` is constructed before `m_mtxcv`, so it is false by now
    · have hexit := h.exit_false (Main.has_of_le hhas (by decide)) hm
      refine h.moveLoader _ _ hhas (by simp [hexit]) (by simp [hexit]) (by simp [hexit]) ?_
      intro hjoin
      exact absurd (by rw [hjoin]; trivial) hm
  | enterWait =>
    have hhas := h.locked (by simp [hl, Loader.locked])
    simp only [hl, hwait hl] at hs
    cases hs
    refine h.moveLoader .waiting _ hhas (by simp) (by simp) (by simp) ?_
    intro hjoin
    exact absurd hl (h.joining hjoin).1
  | waiting => simp [hl] at hs
  | drain =>
    have hhas := h.locked (by simp [hl, Loader.locked])
    simp only [hl] at hs
    split at hs <;> cases hs
    · rw [← hl]
      exact h.moveLoader _ _ hhas (by simp [hl]) h.exited h.reachable h.joining
    · exact h.moveLoader _ _ hhas (by simp) (by simp) (by simp) (by simp)
  | exited => simp [hl] at hs
  | stranded => simp [hl] at hs

/-- A thread that was blocked in `m_cv` is in the inner loop, notified or not. -/
theorem Inv.wake {s : State} (h : Inv s) (hl : s.loader = .waiting) :
    Inv { s with loader := .drain } :=
  h.moveLoader .drain _ (h.locked (by simp [hl, Loader.locked])) (by simp) (by simp) (by simp)
    (by simp)

theorem Inv.notifyOne {s : State} (h : Inv s) : Inv (notifyOne s) := by
  unfold LoaderLife.notifyOne
  split
  · exact h.wake ‹_›
  · exact h

theorem notifyOne_main (s : State) : (notifyOne s).main = s.main := by
  unfold notifyOne
  split <;> rfl

theorem notifyOne_loader_ne {s : State} (h : s.loader ≠ .enterWait) :
    (notifyOne s).loader ≠ .enterWait ∧ (notifyOne s).loader ≠ .waiting := by
  unfold notifyOne
  split
  · simp
  · exact ⟨h, ‹_›⟩

/-! ### The main thread -/

theorem Inv.moveMain {s : State} (h : Inv s) (main : Main) (exit mtxcv : Bool) (loaderTiles : Nat)
    (hstarted : s.main ≠ .construct .loaderThread)
    (hhas : s.main.has .mtxcv = true → main.has .mtxcv = true) (hold : ¬ s.main.exiting)
    (hnew : ¬ main.exiting) (hmtxcv : main.has .mtxcv = true → mtxcv = false)
    (hexit : main.has .exit = true → exit = false) :
    Inv { s with main, exit, mtxcv, loaderTiles } where
  started hl := absurd (h.started hl) hstarted
  locked hl := hhas (h.locked hl)
  mtxcv := hmtxcv
  exit_false hm _ := hexit hm
  exit_true hm := absurd hm hnew
  exited hx := absurd (h.exited hx) hold
  reachable := h.reachable
  joining := by
    rintro rfl
    exact absurd trivial hnew

theorem Inv.moveExiting {s : State} (h : Inv s) (main : Main) (hhas : s.main.has .mtxcv = true)
    (hexiting : main.exiting)
    (hjoining : main = .join → s.loader ≠ .enterWait ∧ s.loader ≠ .waiting) :
    Inv { s with main, exit := true } where
  started hl := by
    rw [h.started hl] at hhas
    exact absurd hhas (by decide)
  locked _ := Main.has_of_exiting hexiting _
  mtxcv _ := h.mtxcv hhas
  exit_false _ hm := absurd hexiting hm
  exit_true _ := rfl
  exited _ := hexiting
  reachable := h.reachable
  joining := hjoining

/-- Between two frames and in one, the object is complete and nobody destroys it. -/
theorem Inv.inUse {s : State} (h : Inv s) (hm : s.main = .running ∨ s.main = .updateNotify)
    {main : Main} (hmain : main = .running ∨ main = .updateNotify) (loaderTiles : Nat) :
    Inv { s with main, loaderTiles } := by
  have hhas (member : Member) : s.main.has member = true := by
    rcases hm with hm | hm <;> rw [hm] <;> rfl
  have hold : ¬ s.main.exiting := by
    rcases hm with hm | hm <;> simp [hm, Main.exiting]
  have hnew : ¬ main.exiting := by
    rcases hmain with rfl | rfl <;> simp [Main.exiting]
  refine h.moveMain main _ _ _ ?_ (fun _ => ?_) hold hnew (fun _ => h.mtxcv (hhas _))
    (fun _ => h.exit_false (hhas _) hold)
  · rcases hm with hm | hm <;> simp [hm]
  · rcases hmain with rfl | rfl <;> rfl

/-- Once the destructor has set `m_exit` it stays set. -/
theorem Inv.stayExiting {s : State} (h : Inv s) (hold : s.main.exiting) (main : Main)
    (hexiting : main.exiting)
    (hjoining : main = .join → s.loader ≠ .enterWait ∧ s.loader ≠ .waiting) :
    Inv { s with main } := by
  have hmoved := h.moveExiting main (Main.has_of_exiting hold _) hexiting hjoining
  rw [← h.exit_true hold] at hmoved
  exact hmoved

theorem Inv.constructStep {s : State} (h : Inv s) {next : Member} (hm : s.main = .construct next) :
    Inv (constructStep s next) := by
  have hold : ¬ s.main.exiting := by simp [hm, Main.exiting]
  have hnew (next : Member) : ¬ (Main.construct next).exiting := by simp [Main.exiting]
  cases next with
  | loaderThread =>
    -- the thread has started, and is before its lock
    exact ⟨by simp [LoaderLife.constructStep], by simp [LoaderLife.constructStep, Loader.locked],
      by simp [LoaderLife.constructStep, Main.has, Member.place],
      by simp [LoaderLife.constructStep, Main.has, Member.place], fun hx => hx.elim,
      by simp [LoaderLife.constructStep], by simp [LoaderLife.constructStep],
      by simp [LoaderLife.constructStep]⟩
  | mtx =>
    exact h.moveMain _ _ _ _ (by simp [hm]) (by simp [hm, Main.has, Member.place]) hold (hnew _)
      (by simp [Main.has, Member.place]) (by simp [Main.has, Member.place])
  | exit =>
    exact h.moveMain _ _ _ _ (by simp [hm]) (by simp [hm, Main.has, Member.place]) hold (hnew _)
      (by simp [Main.has, Member.place]) (fun _ => rfl)
  | mtxcv =>
    have hexit := h.exit_false (by simp [hm, Main.has, Member.place]) hold
    exact h.moveMain _ _ _ _ (by simp [hm]) (by simp [hm, Main.has, Member.place]) hold (hnew _)
      (fun _ => rfl) (fun _ => hexit)
  | cv =>
    have hmtxcv := h.mtxcv (by simp [hm, Main.has, Member.place])
    have hexit := h.exit_false (by simp [hm, Main.has, Member.place]) hold
    exact h.moveMain _ _ _ _ (by simp [hm]) (fun _ => rfl) hold (by simp [Main.exiting])
      (fun _ => hmtxcv) (fun _ => hexit)

theorem Inv.step {s s' : State} (h : Inv s) (hs : GuardedStep s s') : Inv s' := by
  obtain ⟨a, ha, hguard⟩ := hs
  cases a with
  | construct =>
    simp only [LoaderLife.step] at ha
    split at ha <;> cases ha
    exact h.constructStep ‹_›
  | swap loaderTiles =>
    simp only [LoaderLife.step] at ha
    split at ha <;> cases ha
    exact h.inUse (.inl ‹_›) (.inr rfl) _
  | notify =>
    simp only [LoaderLife.step] at ha
    have hn := h.notifyOne
    split at ha <;> cases ha
    · rename_i hm
      exact hn.inUse (.inr ((notifyOne_main s).trans hm)) (.inl rfl) _
    · rename_i hm
      have hexiting : (LoaderLife.notifyOne s).main.exiting := by
        rw [notifyOne_main, hm]
        trivial
      -- the guard: the loader is not about to wait, so it has been woken or will test the flag
      exact hn.stayExiting hexiting .join trivial
        (fun _ => notifyOne_loader_ne (hguard.notify rfl hm))
  | destroy =>
    simp only [LoaderLife.step] at ha
    split at ha <;> cases ha
    rename_i hm
    exact h.moveExiting .exitNotify (by rw [hm]; rfl) trivial (by simp)
  | join =>
    simp only [LoaderLife.step] at ha
    split at ha <;> cases ha
    rename_i hm
    have hexiting : s.main.exiting := by
      rw [hm.1]
      trivial
    exact h.stayExiting hexiting .joined trivial (by simp)
  | loader => exact h.loaderStep ha (hguard.lock rfl) (hguard.wait rfl)
  | spurious =>
    simp only [LoaderLife.step] at ha
    split at ha <;> cases ha
    exact h.wake ‹_›

theorem inv_of_guarded {s : State} (h : Guarded s) : Inv s := by
  obtain ⟨exit, mtxcv, hrun⟩ := h
  induction hrun with
  | refl => exact inv_initial exit mtxcv
  | tail _ hstep ih => exact ih.step hstep

/-- A step outside the guard: the loader uses `m_mtxcv` before the constructor has constructed it,
or blocks in `m_cv` before that, or the destructor joins and the loader's next step blocks it. -/
theorem breaks_of_not_guard {s s' : State} {a : Act} (hbad : ¬ Guard s a)
    (hs : step s a = some s') :
    (s'.loader.locked = true ∧ s'.main.has .mtxcv = false) ∨ s'.loader = .stranded ∨
      (s'.main = .join ∧ ∃ s'', step s' .loader = some s'' ∧ s''.main = .join ∧
        s''.loader = .waiting) := by
  -- the guard has three parts, each of which fails in its own way
  by_cases hlock : a = .loader ∧ s.loader = .lock ∧ s.main.has .mtxcv = false
  · obtain ⟨rfl, hl, hhas⟩ := hlock
    simp only [step, loaderStep, hl] at hs
    cases hs
    refine .inl ⟨?_, hhas⟩
    simp only
    split <;> rfl
  · by_cases hwait : a = .loader ∧ s.loader = .enterWait ∧ s.main.has .cv = false
    · obtain ⟨rfl, hl, hhas⟩ := hwait
      simp only [step, loaderStep, hl, hhas] at hs
      cases hs
      exact .inr (.inl rfl)
    · by_cases hnotify : a = .notify ∧ s.main = .exitNotify ∧ s.loader = .enterWait
      · obtain ⟨rfl, hm, hl⟩ := hnotify
        simp only [step, hm, notifyOne, hl] at hs
        cases hs
        refine .inr (.inr ⟨rfl, ⟨.join, .waiting, s.exit, s.mtxcv, s.loaderTiles⟩, ?_, rfl, rfl⟩)
        simp [step, loaderStep, hl, Main.has]
      · refine absurd ⟨?_, ?_, ?_⟩ hbad
        · intro ha hl
          rw [← Bool.not_eq_false]
          exact fun hhas => hlock ⟨ha, hl, hhas⟩
        · intro ha hl
          rw [← Bool.not_eq_false]
          exact fun hhas => hwait ⟨ha, hl, hhas⟩
        · exact fun ha hm hl => hnotify ⟨ha, hm, hl⟩

/-- **The life cycle, for every run that meets the guard**: the loader leaves only after the
destructor has set `m_exit`, is never lost in a member that was constructed too late, and is not
blocked when the destructor joins. From any state, a step that does not meet the guard uses a member
that is not constructed, or leads to the destructor joining a loader that is blocked. -/
theorem life_cycle_of_guarded {s : State} (h : Guarded s) :
    (s.loader = .exited → s.main.exiting ∧ s.exit = true) ∧
    s.loader ≠ .stranded ∧
    ¬ (s.main = .join ∧ s.loader = .waiting) ∧
    ∀ (a : Act) (s' : State), ¬ Guard s a → step s a = some s' →
      (s'.loader.locked = true ∧ s'.main.has .mtxcv = false) ∨ s'.loader = .stranded ∨
      (s'.main = .join ∧ ∃ s'', step s' .loader = some s'' ∧ s''.main = .join ∧
        s''.loader = .waiting) := by
  have hinv := inv_of_guarded h
  refine ⟨?_, hinv.reachable, ?_, fun _ _ => breaks_of_not_guard⟩
  · intro hx
    exact ⟨hinv.exited hx, hinv.exit_true (hinv.exited hx)⟩
  · rintro ⟨hm, hl⟩
    exact (hinv.joining hm).2 hl

/-- A run with one frame, in which the loader is notified where it waits and leaves. The memory
holds the worst there can be. -/
theorem life_cycle_of_guarded_joined : ∃ s, Guarded s ∧ s.loader = .exited ∧ s.main = .join ∧
    s.main.exiting ∧ s.exit = true := by
  have hloader : ∀ {s : State}, Guarded s → s.main.has .cv = true → ∀ {s'},
      step s .loader = some s' → Guarded s' := by
    rintro s ⟨exit, mtxcv, hr⟩ hcv s' hs
    exact ⟨exit, mtxcv, hr.tail ⟨.loader, hs, fun _ _ => Main.has_of_le hcv (by decide),
      fun _ _ => hcv, fun h => absurd h (by simp)⟩⟩
  have hmain : ∀ {s : State} (a : Act), a ≠ .loader → Guarded s → s.loader ≠ .enterWait →
      ∀ {s'}, step s a = some s' → Guarded s' := by
    rintro s a ha ⟨exit, mtxcv, hr⟩ hl s' hs
    exact ⟨exit, mtxcv, hr.tail ⟨a, hs, fun h => absurd h ha, fun h => absurd h ha, fun _ _ => hl⟩⟩
  have h₀ : Guarded (initial true true) := ⟨true, true, .refl⟩
  have h₁ := hmain .construct (by simp) h₀ (by decide) rfl
  have h₂ := hmain .construct (by simp) h₁ (by decide) rfl
  have h₃ := hmain .construct (by simp) h₂ (by decide) rfl
  have h₄ := hmain .construct (by simp) h₃ (by decide) rfl
  have h₅ := hmain .construct (by simp) h₄ (by decide) rfl
  have h₆ := hloader (hloader (hloader h₅ rfl rfl) rfl rfl) rfl rfl
  have h₇ := hmain (.swap 1) (by simp) h₆ (by decide) rfl
  have h₈ := hmain .notify (by simp) h₇ (by decide) rfl
  have h₉ := hmain .destroy (by simp) h₈ (by decide) rfl
  have h₁₀ := hmain .notify (by simp) h₉ (by decide) rfl
  have h₁₁ := hloader (hloader (hloader h₁₀ rfl rfl) rfl rfl) rfl rfl
  obtain ⟨hjoined, hended⟩ := (life_cycle_of_guarded h₁₁).1 rfl
  exact ⟨_, h₁₁, rfl, rfl, hjoined, hended⟩

/-! ## The join returns

While the destructor waits, only the loader moves. It takes the tiles that are left one by one, and
then finds `m_exit` set. To load a tile is one step here, so this is about tiles whose loads return.
-/

/-- How many steps the loader still makes, once `m_exit` is set and it does not block. -/
def stepsLeft (s : State) : Nat :=
  match s.loader with
  | .lock => 2
  | .testExit => 1
  | .drain => s.loaderTiles + 2
  | _ => 0

theorem loaderStep_of_joining {s : State} (h : Inv s) (hm : s.main = .join)
    (hl : s.loader ≠ .exited) :
    ∃ s', loaderStep s = some s' ∧ s'.main = .join ∧ stepsLeft s' + 1 = stepsLeft s := by
  have hexit : s.exit = true := h.exit_true (by rw [hm]; trivial)
  have hmtxcv : s.mtxcv = false := h.mtxcv (by rw [hm]; rfl)
  unfold loaderStep
  cases hloader : s.loader with
  | notStarted => exact absurd ((h.started hloader).symm.trans hm) (by simp)
  | lock => exact ⟨_, rfl, hm, by simp [stepsLeft, hloader, hmtxcv]⟩
  | testExit => exact ⟨_, rfl, hm, by simp [stepsLeft, hloader, hexit]⟩
  -- the notification did not come in the gap, and after it the flag is tested first
  | enterWait => exact absurd hloader (h.joining hm).1
  | waiting => exact absurd hloader (h.joining hm).2
  | drain =>
    by_cases htiles : s.loaderTiles > 0
    · refine ⟨_, if_pos htiles, hm, ?_⟩
      simp only [stepsLeft, hloader]
      omega
    · refine ⟨_, if_neg htiles, hm, ?_⟩
      simp only [stepsLeft, hloader]
      omega
  | exited => exact absurd hloader hl
  | stranded => exact absurd hloader h.reachable

/-- **The join returns**: the steps of the loader alone take it to its end. -/
theorem join_returns {s : State} (h : Guarded s) (hm : s.main = .join) :
    ∃ s', (List.replicate (stepsLeft s) Act.loader).foldlM step s = some s' ∧
      step s' .join = some { s' with main := .joined } := by
  have hinv := inv_of_guarded h
  clear h
  induction hleft : stepsLeft s generalizing s with
  | zero =>
    -- a loader with no step left to make has made them all
    by_cases hl : s.loader = .exited
    · exact ⟨s, rfl, by simp [step, hm, hl]⟩
    · obtain ⟨s', -, -, hless⟩ := loaderStep_of_joining hinv hm hl
      omega
  | succ n ih =>
    have hl : s.loader ≠ .exited := by
      intro hl
      simp [stepsLeft, hl] at hleft
    obtain ⟨s', hs, hm', hless⟩ := loaderStep_of_joining hinv hm hl
    have hinv' : Inv s' := hinv.loaderStep hs (fun _ => by rw [hm]; rfl) (fun _ => by rw [hm]; rfl)
    obtain ⟨s'', hrun, hjoin⟩ := ih hm' hinv' (by omega)
    refine ⟨s'', ?_, hjoin⟩
    rw [List.replicate_succ, List.foldlM_cons]
    show (loaderStep s >>= _) = _
    rw [hs]
    exact hrun

end LoaderLife

end MapBg
