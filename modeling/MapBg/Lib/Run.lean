import Mathlib.Data.List.Infix
import Mathlib.Tactic.Common

/-!
# Runs of a machine, step by step

A machine is a function `step` from a state and an event to a state, and a run is a list of events.
`Along step P s es` says that every step of the run from `s` meets `P`, which may look at the state
before the step. It is the form in which conditions on runs are proved; `along_iff` is the form in
which one reads them, over all beginnings of the run.

An invariant that a step may break has two sides. If under `Allowed` a step keeps it exactly when it
meets `Ok`, then along an allowed run it holds after every event exactly when every step meets `Ok`
(`forall_prefix_iff_along`).
-/

set_option autoImplicit false

namespace Run

variable {σ ε : Type*} (step : σ → ε → σ)

/-- At every event of the run, `P` holds of the state the event finds and of the event. -/
def Along (P : σ → ε → Prop) : σ → List ε → Prop
  | _, [] => True
  | s, e :: es => P s e ∧ Along P (step s e) es

variable {step} {P : σ → ε → Prop} {s : σ} {es es' : List ε} {e : ε}

theorem along_append :
    Along step P s (es ++ es') ↔ Along step P s es ∧ Along step P (es.foldl step s) es' := by
  induction es generalizing s with
  | nil => rw [List.nil_append, Along, true_and, List.foldl_nil]
  | cons e es ih => rw [List.cons_append, Along, Along, ih, and_assoc, List.foldl_cons]

theorem along_concat :
    Along step P s (es ++ [e]) ↔ Along step P s es ∧ P (es.foldl step s) e := by
  rw [along_append, Along, Along, and_true]

/-- The same without the recursion: `P` holds at the end of every part of the run from its start. -/
theorem along_iff : Along step P s es ↔
    ∀ pre e, pre ++ [e] <+: es → P (pre.foldl step s) e := by
  induction es using List.reverseRecOn with
  | nil => exact iff_of_true trivial fun pre e h => absurd (List.prefix_nil.mp h) (by simp)
  | append_singleton es last ih =>
    rw [along_concat, ih]
    constructor
    · intro ⟨hbefore, hlast⟩ pre e h
      rcases List.prefix_concat_iff.mp h with heq | h
      · obtain ⟨rfl, rfl⟩ := List.append_singleton_inj.mp heq
        exact hlast
      · exact hbefore pre e h
    · intro h
      exact ⟨fun pre e hpre => h pre e (hpre.trans (List.prefix_append es [last])),
        h es last (List.prefix_refl _)⟩

/-- A condition on a part of the state that steps on its own. -/
theorem along_comap {τ : Type*} {step' : τ → ε → τ} {Q : τ → ε → Prop} {f : σ → τ}
    (hf : ∀ s e, f (step s e) = step' (f s) e) :
    Along step (fun s e => Q (f s) e) s es ↔ Along step' Q (f s) es := by
  induction es generalizing s with
  | nil => exact Iff.rfl
  | cons e es ih => rw [Along, Along, ih, hf]

/-- If one step can be looked at through `f`, so can a whole run. -/
theorem foldl_comap {τ : Type*} {step' : τ → ε → τ} {f : σ → τ}
    (hf : ∀ s e, f (step s e) = step' (f s) e) : f (es.foldl step s) = es.foldl step' (f s) := by
  induction es generalizing s with
  | nil => rfl
  | cons e es ih => rw [List.foldl_cons, List.foldl_cons, ih, hf]

/-- **An invariant that a step keeps exactly when it is `Ok`** holds throughout a run exactly when
all its steps are. -/
theorem forall_prefix_iff_along {Inv : σ → Prop} {Allowed Ok : σ → ε → Prop}
    (hstep : ∀ s e, Inv s → Allowed s e → (Inv (step s e) ↔ Ok s e)) (hs : Inv s)
    (hallowed : Along step Allowed s es) :
    (∀ pre, pre <+: es → Inv (pre.foldl step s)) ↔ Along step Ok s es := by
  induction es generalizing s with
  | nil =>
    refine iff_of_true (fun pre hpre => ?_) trivial
    rw [List.prefix_nil.mp hpre]
    exact hs
  | cons e es ih =>
    obtain ⟨hfirst, hrest⟩ := hallowed
    rw [Along]
    constructor
    · intro h
      -- the prefix of one step
      have hnext : Inv (step s e) := h [e] (List.prefix_append [e] es)
      refine ⟨(hstep s e hs hfirst).mp hnext, (ih hnext hrest).mp fun pre hpre => ?_⟩
      exact h (e :: pre) (List.cons_prefix_cons.mpr ⟨rfl, hpre⟩)
    · rintro ⟨hok, htail⟩ pre hpre
      have hnext : Inv (step s e) := (hstep s e hs hfirst).mpr hok
      rcases List.prefix_cons_iff.mp hpre with rfl | ⟨pre, rfl, hpre'⟩
      · exact hs
      · exact (ih hnext hrest).mpr htail pre hpre'

end Run
