import Mathlib.Data.List.Basic
import Mathlib.Logic.Relation

/-!
# The loader's queue, between two threads

`Update` hands tiles to the loader thread by swapping `m_loaderTiles`; the loader takes them off
the back. The loader's critical section is

    {
        std::lock_guard(pThis->m_mtx);
        if (pThis->m_loaderTiles.size() > 0)
        {
            tile = pThis->m_loaderTiles.back();
            pThis->m_loaderTiles.pop_back();
        }
    }

and its first line declares no variable: it is an expression, whose value, the guard, is destroyed
at the semicolon. The mutex is free again before the test. `Update` has a named guard around its
swap, so what the two exclude is only that the loader gets past that line during a swap.

The threads are interleaved at the accesses to the queue: the loader's two tests, `back()` and
`pop_back()`, and the swap. A call of `back()` or `pop_back()` on an empty vector, or a `pop_back()`
that takes another tile than the one just copied, is recorded in `fault` and ends the run.

All three occur (`handoff_faults`). `no_fault_of_guarded` says what it takes to exclude them: no
swap between the loader's test and its `pop_back()`, unless the new queue happens to be non-empty,
respectively to end in the tile just copied.
-/

set_option autoImplicit false

namespace MapBg

namespace LoaderQueue

/-! ## The two threads

`Pc` is where the loader is: blocked in `wait`, about to make one of its accesses, at the line that
locks and unlocks the mutex, or past them with a tile to load. -/

/-- Where the loader thread is. The test of the outer loop and the access to the queue are places of
their own, since another thread may run in between. -/
inductive Pc
  | wait
  | outer
  | lock
  | inner
  | back
  | pop
  | load
  deriving DecidableEq

/-- What can go wrong: an access to an empty vector, twice, and a tile that is taken off the queue
and is not the one that is going to be loaded. -/
inductive Fault
  | backEmpty
  | popEmpty
  | popOther
  deriving DecidableEq

/-- The queue, the loader, and whether `Update` holds the mutex. -/
structure State (τ : Type) where
  pc : Pc
  tile : Option τ
  loaderTiles : List τ
  updateHolds : Bool
  fault : Option Fault
  deriving DecidableEq

/-- Who takes the next step: the loader, the condition variable that wakes it, or `Update`. -/
inductive Act (τ : Type)
  | loader
  | wake
  | lock
  | swap (loaderTiles : List τ)
  | unlock

variable {τ : Type} [DecidableEq τ]

/-- The loader waits, and there is nothing to load. -/
def initial : State τ := ⟨.wait, none, [], false, none⟩

/-- One step of the loader. There is none while it waits, or while `Update` holds the mutex that it
wants. The `lock_guard` of the source is a temporary without a name, so the lock is released right
after it was taken, and `back` and `pop` are done without it. -/
def loaderStep (s : State τ) : Option (State τ) :=
  match s.pc with
  | .wait => none
  | .outer =>
    if s.loaderTiles.length > 0 then some { s with tile := none, pc := .lock }
    else some { s with pc := .wait }
  | .lock => if s.updateHolds then none else some { s with pc := .inner }
  | .inner =>
    if s.loaderTiles.length > 0 then some { s with pc := .back } else some { s with pc := .load }
  | .back =>
    match s.loaderTiles.getLast? with
    | none => some { s with fault := some .backEmpty }
    | some t => some { s with tile := some t, pc := .pop }
  | .pop =>
    match s.loaderTiles.getLast? with
    | none => some { s with fault := some .popEmpty }
    | some t => some { s with
        loaderTiles := s.loaderTiles.dropLast
        pc := .load
        -- the tile that is removed need not be the one that was looked at
        fault := if s.tile = some t then none else some .popOther }
  | .load => some { s with pc := .outer }

/-- One step of anyone. -/
def advance (s : State τ) : Act τ → Option (State τ)
  | .loader => loaderStep s
  | .wake => if s.pc = .wait then some { s with pc := .outer } else none
  | .lock => if s.updateHolds then none else some { s with updateHolds := true }
  | .swap loaderTiles => if s.updateHolds then some { s with loaderTiles } else none
  | .unlock => if s.updateHolds then some { s with updateHolds := false } else none

/-- After a fault nothing is defined. -/
def step (s : State τ) (a : Act τ) : Option (State τ) :=
  if s.fault.isSome then none else advance s a

def run (acts : List (Act τ)) : Option (State τ) := acts.foldlM step initial

/-! ## What goes wrong

One tile is queued and the loader is on its way to it when the next frame's queue is swapped in:
an empty one before `back()`, an empty one before `pop_back()`, or one that ends in another tile. -/

/-- A run up to where the loader has found a tile and goes on to take it. -/
def toBack : List (Act Nat) :=
  [.lock, .swap [1], .unlock, .wake, .loader, .loader, .loader]

/-- One step further: it has read the tile and goes on to take it off the queue. -/
def toPop : List (Act Nat) := toBack ++ [.loader]

/-- Between the test and the two accesses, `Update` may exchange the queue, and all three faults
happen. -/
theorem handoff_faults :
    (run (toBack ++ [.lock, .swap [], .loader])).map State.fault = some (some .backEmpty) ∧
    (run (toPop ++ [.lock, .swap [], .loader])).map State.fault = some (some .popEmpty) ∧
    (run (toPop ++ [.lock, .swap [1, 2], .loader])).map State.fault = some (some .popOther) := by
  decide

/-! ## What it takes -/

/-- An exchange of the queue that does not harm the loader where it is. -/
def SwapOk (s : State τ) (loaderTiles : List τ) : Prop :=
  (s.pc = .back → loaderTiles ≠ []) ∧ (s.pc = .pop → loaderTiles.getLast? = s.tile)

/-- A step in which the queue is exchanged only so. -/
def GuardedStep (s s' : State τ) : Prop :=
  ∃ a, step s a = some s' ∧ ∀ loaderTiles, a = .swap loaderTiles → SwapOk s loaderTiles

def Guarded (s : State τ) : Prop := Relation.ReflTransGen GuardedStep initial s

/-- Where the loader is about to access the queue, there is something in it, and it is what it has
read. -/
structure Inv (s : State τ) : Prop where
  fault : s.fault = none
  back : s.pc = .back → s.loaderTiles ≠ []
  pop : s.pc = .pop → s.loaderTiles.getLast? = s.tile ∧ s.loaderTiles ≠ []

omit [DecidableEq τ] in
theorem inv_initial : Inv (initial : State τ) :=
  ⟨rfl, fun h => absurd h (by simp [initial]), fun h => absurd h (by simp [initial])⟩

omit [DecidableEq τ] in
/-- Where the loader is not about to touch the queue there is only the fault to exclude. -/
theorem Inv.elsewhere {s : State τ} (hfault : s.fault = none) (hback : s.pc ≠ .back)
    (hpop : s.pc ≠ .pop) : Inv s :=
  ⟨hfault, fun h => absurd h hback, fun h => absurd h hpop⟩

/-- The loader itself never breaks it: its own test has just been made. -/
theorem Inv.loaderStep {s s' : State τ} (h : Inv s) (hs : loaderStep s = some s') : Inv s' := by
  unfold LoaderQueue.loaderStep at hs
  cases hpc : s.pc with
  | wait => simp [hpc] at hs
  | outer =>
    simp only [hpc] at hs
    split at hs <;> cases hs <;> exact .elsewhere h.fault (by simp) (by simp)
  | lock =>
    simp only [hpc] at hs
    split at hs <;> cases hs
    exact .elsewhere h.fault (by simp) (by simp)
  | inner =>
    simp only [hpc] at hs
    split at hs <;> cases hs
    -- the test has just been made, and nothing was exchanged since
    · rename_i hpos
      exact ⟨h.fault, fun _ => List.ne_nil_of_length_pos hpos, fun hp => absurd hp (by simp)⟩
    · exact .elsewhere h.fault (by simp) (by simp)
  | back =>
    obtain ⟨t, ht⟩ := Option.isSome_iff_exists.mp (List.getLast?_isSome.mpr (h.back hpc))
    simp only [hpc, ht] at hs
    cases hs
    exact ⟨h.fault, fun hb => absurd hb (by simp), fun _ => ⟨ht, h.back hpc⟩⟩
  | pop =>
    obtain ⟨hlast, hne⟩ := h.pop hpc
    obtain ⟨t, ht⟩ := Option.isSome_iff_exists.mp (List.getLast?_isSome.mpr hne)
    simp only [hpc, ht] at hs
    cases hs
    refine .elsewhere ?_ (by simp) (by simp)
    -- what is removed is what was looked at
    rw [if_pos (hlast.symm.trans ht)]
  | load =>
    simp only [hpc] at hs
    cases hs
    exact .elsewhere h.fault (by simp) (by simp)

theorem step_eq {s : State τ} (h : s.fault = none) (a : Act τ) : step s a = advance s a := by
  simp [step, h]

/-- A step of the loader keeps the invariant by itself, and an exchange of the queue if it is
guarded. -/
theorem Inv.step {s s' : State τ} (h : Inv s) (hs : GuardedStep s s') : Inv s' := by
  obtain ⟨a, ha, hok⟩ := hs
  rw [step_eq h.fault] at ha
  cases a with
  | loader => exact h.loaderStep ha
  | wake =>
    simp only [advance] at ha
    split at ha <;> cases ha
    exact .elsewhere h.fault (by simp) (by simp)
  | lock =>
    simp only [advance] at ha
    split at ha <;> cases ha
    exact ⟨h.fault, h.back, h.pop⟩
  | swap loaderTiles =>
    simp only [advance] at ha
    split at ha <;> cases ha
    obtain ⟨hback, hpop⟩ := hok loaderTiles rfl
    refine ⟨h.fault, hback, fun hpc => ⟨hpop hpc, ?_⟩⟩
    -- the copied tile is there, since the old queue ended in it
    obtain ⟨hlast, hne⟩ := h.pop hpc
    have hsome := List.getLast?_isSome.mpr hne
    rw [hlast, ← hpop hpc] at hsome
    exact List.getLast?_isSome.mp hsome
  | unlock =>
    simp only [advance] at ha
    split at ha <;> cases ha
    exact ⟨h.fault, h.back, h.pop⟩

theorem inv_of_guarded {s : State τ} (h : Guarded s) : Inv s := by
  induction h with
  | refl => exact inv_initial
  | tail _ hstep ih => exact ih.step hstep

/-- A swap that does not meet `SwapOk` makes the loader's next step a fault. -/
theorem Inv.fault_of_swap {s s' s'' : State τ} (h : Inv s) {loaderTiles : List τ}
    (hbad : ¬ SwapOk s loaderTiles) (hswap : LoaderQueue.step s (.swap loaderTiles) = some s')
    (hnext : LoaderQueue.step s' .loader = some s'') : s''.fault ≠ none := by
  rw [step_eq h.fault, advance] at hswap
  split at hswap <;> cases hswap
  have hfault : ({ s with loaderTiles } : State τ).fault = none := h.fault
  rw [step_eq hfault, advance, LoaderQueue.loaderStep] at hnext
  -- at `back` the new queue is empty, at `pop` it ends in something else
  by_cases hback : s.pc = .back
  · have hnil : loaderTiles = [] := by
      by_contra hne
      exact hbad ⟨fun _ => hne, fun hpop => absurd (hback.symm.trans hpop) (by decide)⟩
    subst hnil
    simp only [hback, List.getLast?_nil] at hnext
    cases hnext
    simp
  · by_cases hpop : s.pc = .pop
    · have hlast : loaderTiles.getLast? ≠ s.tile := fun heq =>
        hbad ⟨fun hb => absurd hb hback, fun _ => heq⟩
      simp only [hpop] at hnext
      split at hnext <;> cases hnext
      · simp
      · rename_i t ht
        rw [ht] at hlast
        simp [Ne.symm hlast]
    · exact absurd ⟨fun hb => absurd hb hback, fun hp => absurd hp hpop⟩ hbad

/-- **A run whose swaps all meet `SwapOk` has no fault.** The condition asks for no more than it
has to: after such a run, a swap that does not meet it makes the loader's next step a fault. -/
theorem no_fault_of_guarded {s : State τ} (h : Guarded s) :
    s.fault = none ∧ ∀ (loaderTiles : List τ) (s' s'' : State τ), ¬ SwapOk s loaderTiles →
      step s (.swap loaderTiles) = some s' → step s' .loader = some s'' → s''.fault ≠ none :=
  ⟨(inv_of_guarded h).fault, fun _ _ _ => (inv_of_guarded h).fault_of_swap⟩

/-- Two tiles are queued, and the loader takes the last one. -/
theorem no_fault_of_guarded_take : ∃ s : State Nat, Guarded s ∧ s.pc = .load ∧ s.tile = some 2 ∧
    s.loaderTiles = [1] ∧ s.fault = none := by
  have hstep : ∀ {s : State Nat} (a : Act Nat), (∀ q, a ≠ .swap q) → Guarded s →
      ∀ {s'}, step s a = some s' → Guarded s' := fun a ha h s' hs =>
    h.tail ⟨a, hs, fun q hq => absurd hq (ha q)⟩
  have hlocked : Guarded (⟨.wait, none, [], true, none⟩ : State Nat) :=
    hstep .lock (by simp) .refl rfl
  have hswapped : Guarded (⟨.wait, none, [1, 2], true, none⟩ : State Nat) :=
    hlocked.tail ⟨.swap [1, 2], rfl, fun q _ => ⟨fun h => absurd h (by decide),
      fun h => absurd h (by decide)⟩⟩
  have hunlocked := hstep .unlock (by simp) hswapped rfl
  have hwoken := hstep .wake (by simp) hunlocked rfl
  have houter := hstep .loader (by simp) hwoken rfl
  have hlock := hstep .loader (by simp) houter rfl
  have hinner := hstep .loader (by simp) hlock rfl
  have hback := hstep .loader (by simp) hinner rfl
  have hpop := hstep .loader (by simp) hback rfl
  exact ⟨_, hpop, rfl, rfl, rfl, (no_fault_of_guarded hpop).1⟩

end LoaderQueue

end MapBg
