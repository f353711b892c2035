import Mathlib.Algebra.BigOperators.Group.Finset.Basic
import Mathlib.Algebra.BigOperators.Group.Finset.Sigma
import Mathlib.Tactic.Abel

/-!
# Transport: every site gives its share to at most one other

Each site `n` has a share, and may name one `target` it gives it to. A site that names none keeps
it. A program that computes such a step by gathering looks, for every site `c`, through the sites
near it and adds up what those give that have named `c`; nobody checks that what is given is
received once.

It is, if a site is near the one it names. So over any finite set `S` of sites the books balance
(`balance`): what the sites of `S` hold after the step, together with what was carried out of `S`,
is what they held before and what was carried in.
-/

set_option autoImplicit false

namespace Transport

open Finset

variable {N M : Type*} [DecidableEq N] [AddCommGroup M] (target : N → Option N) (share : N → M)

/-- The site gives to one of `S`. -/
def Into (S : Finset N) (n : N) : Prop := ∃ c ∈ S, target n = some c

instance (S : Finset N) (n : N) : Decidable (Into target S n) :=
  inferInstanceAs (Decidable (∃ c ∈ S, target n = some c))

/-- What a node gives away: its share, if it has somewhere to give it. -/
def given (n : N) : M := if target n = none then 0 else share n

/-- What a node receives. Only the nodes in `near` are looked at, as a shader does that looks at the
neighbours of its texel. -/
def received (near : N → Finset N) (c : N) : M := ∑ n ∈ near c with target n = some c, share n

variable {target}

/-- All that `S` receives, wherever it comes from. -/
theorem sum_received {near : N → Finset N} (hnear : ∀ n c, target n = some c → n ∈ near c)
    {S T : Finset N} (hT : ∀ c ∈ S, near c ⊆ T) :
    ∑ c ∈ S, received target share near c = ∑ n ∈ T with Into target S n, share n := by
  have hfar : ∀ c ∈ S, received target share near c = ∑ n ∈ T with target n = some c, share n := by
    intro c hc
    refine sum_congr (Finset.ext fun n => ?_) fun _ _ => rfl
    rw [mem_filter, mem_filter]
    exact ⟨fun h => ⟨hT c hc h.1, h.2⟩, fun h => ⟨hnear n c h.2, h.2⟩⟩
  have hswap : ∀ c n, (c ∈ S ∧ n ∈ T.filter fun n => target n = some c) ↔
      ((c ∈ S.filter fun c => target n = some c) ∧ n ∈ T.filter (Into target S)) := by
    intro c n
    simp only [mem_filter, Into]
    constructor
    · rintro ⟨hc, hn, htarget⟩
      exact ⟨⟨hc, htarget⟩, hn, c, hc, htarget⟩
    · rintro ⟨⟨hc, htarget⟩, hn, -⟩
      exact ⟨hc, hn, htarget⟩
  rw [sum_congr rfl hfar, sum_comm' hswap]
  -- a site that gives to `S` gives to one site of it
  refine sum_congr rfl fun n hn => ?_
  obtain ⟨c, hc, htarget⟩ := (mem_filter.mp hn).2
  have hone : (S.filter fun c' => target n = some c') = {c} := by
    refine Finset.ext fun c' => ?_
    rw [mem_filter, mem_singleton, htarget, Option.some.injEq]
    exact ⟨fun h => h.2.symm, fun h => ⟨h ▸ hc, h.symm⟩⟩
  rw [hone, sum_singleton]

/-- What a set gives stays in it or is carried out. -/
theorem sum_given (S : Finset N) : ∑ c ∈ S, given target share c
    = ∑ c ∈ S with Into target S c, share c
      + ∑ c ∈ S with target c ≠ none ∧ ¬ Into target S c, share c := by
  have hgives : ∑ c ∈ S, given target share c = ∑ c ∈ S with target c ≠ none, share c := by
    rw [sum_filter]
    refine sum_congr rfl fun c _ => ?_
    rw [given, ite_not]
  rw [hgives, ← sum_filter_add_sum_filter_not _ (Into target S), filter_filter, filter_filter]
  congr 1
  refine sum_congr (Finset.ext fun c => ?_) fun _ _ => rfl
  rw [mem_filter, mem_filter]
  refine and_congr_right fun _ => ⟨And.right, fun h => ⟨?_, h⟩⟩
  obtain ⟨d, -, hd⟩ := h
  rw [hd]
  exact Option.some_ne_none d

/-- **The books balance**: what is held after the step and what was carried out of the set, against
what was held before and what was carried in. -/
theorem balance {near : N → Finset N} (hnear : ∀ n c, target n = some c → n ∈ near c)
    {S T : Finset N} (hS : S ⊆ T) (hT : ∀ c ∈ S, near c ⊆ T) (held : N → M) :
    ∑ c ∈ S, (held c - given target share c + received target share near c)
        + ∑ c ∈ S with target c ≠ none ∧ ¬ Into target S c, share c
      = ∑ c ∈ S, held c + ∑ n ∈ T \ S with Into target S n, share n := by
  have hin : ∑ n ∈ T with Into target S n, share n = ∑ n ∈ T \ S with Into target S n, share n
      + ∑ n ∈ S with Into target S n, share n := by
    rw [sum_filter, sum_filter, sum_filter, sum_sdiff hS]
  rw [sum_add_distrib, sum_sub_distrib, sum_received share hnear hT, hin, sum_given]
  abel

end Transport
