import Mathlib.Data.List.Chain
import Mathlib.Data.List.Infix

/-!
# Run-length records

A list cut into runs: `(n, v)` stands for `n` copies of `v`. Nothing here knows how a run is
written down as bytes. What a byte format needs from this file:

* `expand_runs` — cutting a list into runs of length at most `cap` and expanding them again
  is the identity;
* `canonical_runs` — the cut is *canonical*: no empty run, none above the cap, and two
  neighbouring runs carry one value only when the first of them is full;
* `runs_expand` — no other cut is: a canonical list of runs is the one its expansion is cut into.

`mem_run_iff_replicate_infix` is what canonicity buys. A list has `k ≤ cap` equal values in a
row exactly when one single run of its cut is that long, because two neighbouring runs of one
value cannot both be shorter than the cap.
-/

set_option autoImplicit false

namespace RunLength

variable {α : Type*}

abbrev Run (α : Type*) := Nat × α

/-- What the runs stand for, read from left to right. -/
def expand (rs : List (Run α)) : List α :=
  rs.flatMap fun r => List.replicate r.1 r.2

@[simp] theorem expand_nil : expand ([] : List (Run α)) = [] := rfl

@[simp] theorem expand_cons (r : Run α) (rs : List (Run α)) :
    expand (r :: rs) = List.replicate r.1 r.2 ++ expand rs := rfl

/-- Runs of length `1` to `cap`, cut as late as possible. -/
structure Canonical (cap : Nat) (rs : List (Run α)) : Prop where
  pos : ∀ r ∈ rs, 1 ≤ r.1
  le_cap : ∀ r ∈ rs, r.1 ≤ cap
  full : rs.IsChain fun r r' => r.2 = r'.2 → r.1 = cap

theorem Canonical.tail {cap : Nat} {r : Run α} {rs : List (Run α)}
    (h : Canonical cap (r :: rs)) : Canonical cap rs :=
  ⟨fun r' hr => h.pos r' (List.mem_cons_of_mem _ hr),
    fun r' hr => h.le_cap r' (List.mem_cons_of_mem _ hr), h.full.tail⟩

/-! ## Cutting a list into runs -/

section Cut

variable [DecidableEq α]

/-- The cut with a run `(cnt, cur)` pending: it is closed when another value comes or when it
is full, and the value that closes it opens the next one. -/
def runsFrom (cap : Nat) (cur : α) (cnt : Nat) : List α → List (Run α)
  | [] => [(cnt, cur)]
  | v :: vs =>
      if v ≠ cur ∨ cnt = cap then (cnt, cur) :: runsFrom cap v 1 vs
      else runsFrom cap cur (cnt + 1) vs

/-- The runs of a list, none longer than `cap`. A run of more than `cap` is cut, so that two
neighbours may have the same value only if the first of them is full. -/
def runs (cap : Nat) : List α → List (Run α)
  | [] => []
  | v :: vs => runsFrom cap v 1 vs

/-- Stated with the run that is being counted, which is what the induction over the rest of the list
changes. -/
theorem expand_runsFrom (cap : Nat) (vs : List α) (cur : α) (cnt : Nat) :
    expand (runsFrom cap cur cnt vs) = List.replicate cnt cur ++ vs := by
  induction vs generalizing cur cnt with
  | nil => simp [runsFrom]
  | cons v vs ih =>
    rw [runsFrom]
    split
    · rw [expand_cons, ih]; rfl
    · rename_i h
      have hv : v = cur := by by_contra hne; exact h (Or.inl hne)
      rw [ih, hv, List.replicate_succ', List.append_assoc]; rfl

/-- Nothing is lost: the runs of a list stand for that list. -/
theorem expand_runs (cap : Nat) (vs : List α) : expand (runs cap vs) = vs := by
  cases vs with
  | nil => rfl
  | cons v vs => rw [runs, expand_runsFrom]; rfl

/-- The pending run is the first one out, grown at most to what the list adds to it. -/
theorem runsFrom_head (cap : Nat) (vs : List α) (cur : α) (cnt : Nat) :
    ∃ n rs, runsFrom cap cur cnt vs = (n, cur) :: rs := by
  induction vs generalizing cnt with
  | nil => exact ⟨cnt, [], rfl⟩
  | cons v vs ih =>
    rw [runsFrom]
    split
    · exact ⟨cnt, _, rfl⟩
    · exact ih (cnt + 1)

/-- The case to watch is the one where the run is full: the next one starts with the same value,
which `Canonical` allows after a full run only. -/
theorem canonical_runsFrom {cap : Nat} (vs : List α) (cur : α) (cnt : Nat) (h1 : 1 ≤ cnt)
    (hcap : cnt ≤ cap) : Canonical cap (runsFrom cap cur cnt vs) := by
  induction vs generalizing cur cnt with
  | nil =>
    exact ⟨by simpa [runsFrom] using h1, by simpa [runsFrom] using hcap, by simp [runsFrom]⟩
  | cons v vs ih =>
    rw [runsFrom]
    split
    · rename_i hc
      have ht := ih v 1 (by omega) (by omega)
      refine ⟨?_, ?_, ?_⟩
      · exact List.forall_mem_cons.mpr ⟨h1, ht.pos⟩
      · exact List.forall_mem_cons.mpr ⟨hcap, ht.le_cap⟩
      · -- the run that follows carries `v`, so an equal value means the run was full
        have hfull := ht.full
        obtain ⟨n, rs, heq⟩ := runsFrom_head cap vs v 1
        rw [heq] at hfull ⊢
        refine List.isChain_cons_cons.mpr ⟨fun hv => ?_, hfull⟩
        rcases hc with hne | hcnt
        · exact absurd hv.symm hne
        · exact hcnt
    · rename_i hc
      have hne : cnt ≠ cap := fun h => hc (Or.inr h)
      exact ih cur (cnt + 1) (by omega) (by omega)

/-- What the encoder makes is in the form that the decoder can be inverted on. -/
theorem canonical_runs {cap : Nat} (hcap : 1 ≤ cap) (vs : List α) :
    Canonical cap (runs cap vs) := by
  cases vs with
  | nil => exact ⟨by simp [runs], by simp [runs], by simp [runs]⟩
  | cons v vs => exact canonical_runsFrom vs v 1 (Nat.le_refl 1) hcap

/-- While the value repeats and there is room, the pending run grows. -/
theorem runsFrom_replicate {cap : Nat} {cur : α} {cnt k : Nat} (h : cnt + k ≤ cap) (vs : List α) :
    runsFrom cap cur cnt (List.replicate k cur ++ vs) = runsFrom cap cur (cnt + k) vs := by
  induction k generalizing cnt with
  | zero => rfl
  | succ k ih =>
    have hgrow : ¬ (cur ≠ cur ∨ cnt = cap) := by
      rintro (hne | hcap)
      · exact hne rfl
      · omega
    rw [List.replicate_succ, List.cons_append, runsFrom, if_neg hgrow, ih (by omega),
      Nat.add_right_comm, Nat.add_assoc]

theorem runs_expand_cons {cap c : Nat} {v : α} (hpos : 1 ≤ c) (hcap : c ≤ cap)
    (rs : List (Run α)) : runs cap (expand ((c, v) :: rs)) = runsFrom cap v c (expand rs) := by
  obtain ⟨d, rfl⟩ := Nat.exists_eq_add_of_le hpos
  rw [expand_cons, Nat.add_comm, List.replicate_succ, List.cons_append, runs,
    runsFrom_replicate (by omega), Nat.add_comm]

/-- **A canonical cut is the cut of its expansion.** -/
theorem runs_expand {cap : Nat} {rs : List (Run α)} (h : Canonical cap rs) :
    runs cap (expand rs) = rs := by
  induction rs with
  | nil => rfl
  | cons r rs ih =>
    obtain ⟨c, v⟩ := r
    rw [runs_expand_cons (h.pos _ List.mem_cons_self) (h.le_cap _ List.mem_cons_self)]
    cases rs with
    | nil => rfl
    | cons r' rs =>
      obtain ⟨c', w⟩ := r'
      have hpos : 1 ≤ c' := h.tail.pos _ List.mem_cons_self
      have hfull := (List.isChain_cons_cons.mp h.full).1
      -- the next run opens here: its value is another one, or the run before it is full
      have hclose : w ≠ v ∨ c = cap := by
        by_cases hwv : w = v
        · exact Or.inr (hfull hwv.symm)
        · exact Or.inl hwv
      have htail := ih h.tail
      obtain ⟨d, rfl⟩ := Nat.exists_eq_add_of_le' hpos
      rw [expand_cons, List.replicate_succ, List.cons_append] at htail ⊢
      rw [runsFrom, if_pos hclose]
      exact congrArg ((c, v) :: ·) htail

end Cut

/-! ## Equal values in a row

Stripping a run off the front of an expansion. In both lemmas the block sought cannot begin
inside the stripped run, so it lies behind it. -/

/-- A stretch of one value does not begin in a run of another. -/
theorem replicate_infix_of_ne {v w : α} (hne : w ≠ v) {k : Nat} (hk : 1 ≤ k) (c : Nat)
    {t : List α} (h : List.replicate k v <:+: List.replicate c w ++ t) :
    List.replicate k v <:+: t := by
  induction c with
  | zero => simpa using h
  | succ c ih =>
    rw [List.replicate_succ, List.cons_append, List.infix_cons_iff] at h
    rcases h with hpre | hinf
    · obtain ⟨k, rfl⟩ : ∃ k', k = k' + 1 := ⟨k - 1, by omega⟩
      rw [List.replicate_succ, List.cons_prefix_cons] at hpre
      exact absurd hpre.1.symm hne
    · exact ih hinf

/-- Nor in a run that is too short for it and is followed by something else. -/
theorem replicate_infix_of_short {v : α} {k c : Nat} (hck : c < k) {t : List α}
    (ht : t.head? ≠ some v) (h : List.replicate k v <:+: List.replicate c v ++ t) :
    List.replicate k v <:+: t := by
  induction c with
  | zero => simpa using h
  | succ c ih =>
    rw [List.replicate_succ, List.cons_append, List.infix_cons_iff] at h
    rcases h with hpre | hinf
    · -- a block starting here runs over the end of the run, onto a value that is not `v`
      obtain ⟨rest, hrest⟩ := hpre
      have hget : (List.replicate k v ++ rest)[c + 1]? = some v := by
        rw [List.getElem?_append_left (by simpa using hck)]
        exact List.getElem?_replicate_of_lt hck
      rw [hrest, ← List.cons_append, ← List.replicate_succ,
        List.getElem?_append_right (by simp)] at hget
      rw [List.length_replicate, Nat.sub_self] at hget
      exact absurd (by rw [List.head?_eq_getElem?]; exact hget) ht
    · exact ih (by omega) hinf

/-- A run that is not full is followed by another value. -/
theorem Canonical.head_ne {cap c : Nat} {v : α} {rs : List (Run α)}
    (h : Canonical cap ((c, v) :: rs)) (hc : c < cap) : (expand rs).head? ≠ some v := by
  cases rs with
  | nil => simp
  | cons r rs =>
    obtain ⟨c', w⟩ := r
    have hpos : 1 ≤ c' := h.tail.pos (c', w) List.mem_cons_self
    have hfull := (List.isChain_cons_cons.mp h.full).1
    obtain ⟨d, rfl⟩ : ∃ d, c' = d + 1 := ⟨c' - 1, by omega⟩
    intro hsome
    have hwv : w = v := by simpa [List.replicate_succ] using hsome
    have : c = cap := hfull hwv.symm
    omega

/-- **In a canonical cut a long block of one value is one long run.** -/
theorem mem_run_iff_replicate_infix {cap k : Nat} (hk : 1 ≤ k) (hkc : k ≤ cap) (v : α)
    {rs : List (Run α)} (hrs : Canonical cap rs) :
    (∃ c, (c, v) ∈ rs ∧ k ≤ c) ↔ List.replicate k v <:+: expand rs := by
  -- on the runs: a long block of one value starts in the first run or after it
  induction rs with
  | nil =>
    obtain ⟨k, rfl⟩ : ∃ k', k = k' + 1 := ⟨k - 1, by omega⟩
    simp [List.replicate_succ]
  | cons r rs ih =>
    obtain ⟨c, w⟩ := r
    constructor
    · rintro ⟨c', hmem, hc'⟩
      rcases List.mem_cons.mp hmem with heq | hmem
      · obtain ⟨rfl, rfl⟩ := Prod.mk.inj heq
        refine List.IsPrefix.isInfix ?_
        obtain ⟨d, rfl⟩ := Nat.exists_eq_add_of_le hc'
        refine ⟨List.replicate d v ++ expand rs, ?_⟩
        rw [expand_cons, List.replicate_add, List.append_assoc]
      · have hrest := (ih hrs.tail).mp ⟨c', hmem, hc'⟩
        exact hrest.trans (List.suffix_append _ _).isInfix
    · intro hinf
      rw [expand_cons] at hinf
      by_cases hw : w = v
      · subst hw
        by_cases hck : k ≤ c
        · exact ⟨c, List.mem_cons_self, hck⟩
        · -- the run is short, so it is not full and the block cannot begin in it
          have hhead := hrs.head_ne (by omega)
          have hinf' := replicate_infix_of_short (by omega) hhead hinf
          obtain ⟨c', hmem, hc'⟩ := (ih hrs.tail).mpr hinf'
          exact ⟨c', List.mem_cons_of_mem _ hmem, hc'⟩
      · obtain ⟨c', hmem, hc'⟩ := (ih hrs.tail).mpr (replicate_infix_of_ne hw hk c hinf)
        exact ⟨c', List.mem_cons_of_mem _ hmem, hc'⟩

end RunLength
