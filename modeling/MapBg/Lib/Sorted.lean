import Mathlib.Data.List.Sort
import Mathlib.Data.List.TakeWhile

/-!
# The first success in a sorted list

A program sorts its candidates by a key and takes the first that passes a test. Which one that is
depends on the sort where keys are equal: `IsSort key l l'` says no more of the result than a sort
that need not be stable promises. `first_iff` says which ones it can be, over all such results:
exactly those of least key among the ones that pass.
-/

set_option autoImplicit false

namespace Sorted

variable {α β : Type*} [LinearOrder β] {key : α → β} {l l' : List α} {p : α → Bool} {a b : α}

/-- What `std::sort` may return: the same elements, ordered by the key, and elements of equal keys
in any order. -/
structure IsSort (key : α → β) (l l' : List α) : Prop where
  perm : l'.Perm l
  ordered : l'.Pairwise fun a b => key a ≤ key b

theorem IsSort.mem_iff (h : IsSort key l l') : a ∈ l' ↔ a ∈ l := h.perm.mem_iff

/-- The first that is found has the least key of all that could be found. -/
theorem find?_least (h : l.Pairwise fun a b => key a ≤ key b) (ha : l.find? p = some a) (hb : b ∈ l)
    (hp : p b = true) : key a ≤ key b := by
  induction l with
  | nil => exact absurd hb (by simp)
  | cons c l ih =>
    obtain ⟨hfirst, hrest⟩ := List.pairwise_cons.mp h
    rw [List.find?_cons] at ha
    cases hc : p c with
    -- the first that is found comes before all others that there are
    | true =>
      simp only [hc, Option.some.injEq] at ha
      rcases List.mem_cons.mp hb with rfl | hb
      · rw [ha]
      · exact ha ▸ hfirst b hb
    | false =>
      simp only [hc] at ha
      rcases List.mem_cons.mp hb with rfl | hb
      · exact absurd hp (by simp [hc])
      · exact ih hrest ha hb

variable (key) in
/-- A result in which a given element comes before all of its key. -/
theorem exists_isSort_first (ha : a ∈ l) : ∃ before after, IsSort key l (before ++ a :: after) ∧
    ∀ b ∈ before, key b < key a := by
  obtain ⟨s, t, rfl⟩ := List.append_of_mem ha
  let r : α → α → Prop := fun a b => key a ≤ key b
  have htotal : Std.Total r := ⟨fun a b => le_total (key a) (key b)⟩
  have htrans : IsTrans α r := ⟨fun _ _ _ => le_trans⟩
  have hsort : IsSort key (s ++ a :: t) (List.insertionSort r (a :: (s ++ t))) :=
    ⟨(List.perm_insertionSort r _).trans List.perm_middle.symm, List.pairwise_insertionSort r _⟩
  rw [List.insertionSort_cons_eq_take_drop] at hsort
  refine ⟨_, _, hsort, fun b hb => ?_⟩
  have hnot := List.mem_takeWhile_imp hb
  simpa [r] using hnot

/-- What a search of a sorted list can find, over all the ways in which the list can be sorted:
those of least key, and any one of them. -/
theorem first_iff : (∃ l', IsSort key l l' ∧ l'.find? p = some a) ↔
    a ∈ l ∧ p a = true ∧ ∀ b ∈ l, p b = true → key a ≤ key b := by
  constructor
  · rintro ⟨l', hsort, ha⟩
    refine ⟨hsort.mem_iff.mp (List.mem_of_find?_eq_some ha), List.find?_some ha, fun b hb hp => ?_⟩
    exact find?_least hsort.ordered ha (hsort.mem_iff.mpr hb) hp
  · rintro ⟨ha, hp, hleast⟩
    obtain ⟨before, after, hsort, hbefore⟩ := exists_isSort_first key ha
    refine ⟨_, hsort, List.find?_eq_some_iff_append.mpr ⟨hp, before, after, rfl, fun b hb => ?_⟩⟩
    have hmem : b ∈ l := hsort.mem_iff.mp (List.mem_append_left _ hb)
    cases hpb : p b with
    | true => exact absurd (hleast b hmem hpb) (not_le.mpr (hbefore b hb))
    | false => rfl

end Sorted
