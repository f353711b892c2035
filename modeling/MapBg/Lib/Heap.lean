import Mathlib.Data.List.Basic
import Mathlib.Order.Defs.Unbundled

/-!
# Objects behind shared pointers

Where several owners share an object and a program tells objects apart by their address, the model
needs the objects and their identity, and nothing of memory. A heap here is the list of the
objects ever allocated, a pointer is a position in it: allocating appends, writing through a
pointer is `List.set`, and an object is never freed, only forgotten.

`Evolves R` relates a heap to a later one: every object is still at its place, and has changed at
most as `R` allows. For a reflexive and transitive `R` it is a preorder, and the two ways a heap
changes are instances of it.
-/

set_option autoImplicit false

namespace Heap

variable {α : Type*} {h h' h'' : List α} {p q : Nat} {a b : α}

theorem lt_length (hp : h[p]? = some a) : p < h.length := (List.getElem?_eq_some_iff.mp hp).1

/-- After a write, the cell has the new value and every other cell has its old one. -/
theorem getElem?_write (hp : h[p]? = some a) (b : α) (q : Nat) :
    (h.set p b)[q]? = if q = p then some b else h[q]? := by
  rw [List.getElem?_set]
  by_cases hqp : q = p
  · rw [if_pos hqp.symm, if_pos (lt_length hp), if_pos hqp]
  · rw [if_neg (Ne.symm hqp), if_neg hqp]

/-- What is in a heap with a new cell was there before, or is the new cell. -/
theorem getElem?_alloc_iff :
    (h ++ [a])[q]? = some b ↔ h[q]? = some b ∨ q = h.length ∧ a = b := by
  rcases Nat.lt_trichotomy q h.length with hlt | heq | hgt
  · rw [List.getElem?_append_left hlt]
    constructor
    · exact .inl
    · rintro (hb | ⟨rfl, -⟩)
      · exact hb
      · exact absurd hlt (Nat.lt_irrefl _)
  · subst heq
    simp
  · have hnone : h[q]? = none := List.getElem?_eq_none (Nat.le_of_lt hgt)
    rw [hnone, List.getElem?_eq_none (by simp; omega)]
    constructor
    · intro hb
      exact absurd hb (by simp)
    · rintro (hb | ⟨rfl, -⟩)
      · exact absurd hb (by simp)
      · exact absurd hgt (Nat.lt_irrefl _)

theorem getElem?_modify_iff {f : α → α} :
    (h.modify p f)[q]? = some b ↔ ∃ a, h[q]? = some a ∧ (if p = q then f a else a) = b := by
  rw [List.getElem?_modify, Option.map_eq_map, Option.map_eq_some_iff]

section

variable {P : α → Prop}

/-- What holds of all cells holds after a write, if it holds of what is written. -/
theorem forall_mem_write (hall : ∀ b ∈ h, P b) (ha : P a) : ∀ b ∈ h.set p a, P b := by
  intro b hb
  rcases List.mem_or_eq_of_mem_set hb with hb | rfl
  · exact hall b hb
  · exact ha

theorem forall_mem_alloc (hall : ∀ b ∈ h, P b) (ha : P a) : ∀ b ∈ h ++ [a], P b := by
  intro b hb
  rcases List.mem_append.mp hb with hb | hb
  · exact hall b hb
  · rw [List.mem_singleton.mp hb]
    exact ha

theorem forall_mem_modify {f : α → α} (hall : ∀ b ∈ h, P b) (hf : ∀ b, P b → P (f b)) :
    ∀ b ∈ h.modify p f, P b := by
  intro b hb
  obtain ⟨q, hq⟩ := List.mem_iff_getElem?.mp hb
  obtain ⟨a, ha, rfl⟩ := getElem?_modify_iff.mp hq
  have hPa := hall a (List.mem_of_getElem? ha)
  split
  · exact hf a hPa
  · exact hPa

end

/-! ## Later heaps -/

/-- Cells are only added and changed, and the changes are of the kind `R` allows. What is known of a
pointer before is known after it, up to `R`. -/
def Evolves (R : α → α → Prop) (h h' : List α) : Prop :=
  ∀ (p : Nat) (a : α), h[p]? = some a → ∃ a', h'[p]? = some a' ∧ R a a'

section

variable {R : α → α → Prop}

theorem Evolves.refl [Std.Refl R] (h : List α) : Evolves R h h :=
  fun _ a hp => ⟨a, hp, Std.Refl.refl a⟩

theorem Evolves.trans [IsTrans α R] (h₁ : Evolves R h h') (h₂ : Evolves R h' h'') :
    Evolves R h h'' := by
  intro p a hp
  obtain ⟨a', hp', hr⟩ := h₁ p a hp
  obtain ⟨a'', hp'', hr'⟩ := h₂ p a' hp'
  exact ⟨a'', hp'', IsTrans.trans a a' a'' hr hr'⟩

theorem Evolves.write [Std.Refl R] (hp : h[p]? = some a) (hr : R a b) :
    Evolves R h (h.set p b) := by
  intro q c hq
  rw [getElem?_write hp]
  by_cases hqp : q = p
  · subst hqp
    rw [hp] at hq
    cases hq
    exact ⟨b, if_pos rfl, hr⟩
  · exact ⟨c, by rw [if_neg hqp, hq], Std.Refl.refl c⟩

theorem Evolves.alloc [Std.Refl R] (h : List α) (a : α) : Evolves R h (h ++ [a]) :=
  fun _ c hq => ⟨c, getElem?_alloc_iff.mpr (.inl hq), Std.Refl.refl c⟩

end

end Heap
