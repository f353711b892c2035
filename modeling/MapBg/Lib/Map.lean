import Mathlib.Data.List.Nodup
import Mathlib.Data.List.Perm.Subperm
import Mathlib.Tactic.Common

/-!
# Entries of a tree map

A `Std.TreeMap` whose comparison decides equality, read through `t[a]?` only: what an entry is
after an insertion and after a removal, and what both do to the size. A program that counts its
entries in a machine word keeps `UInt64.ofNat t.size`; how such a counter follows the size is
stated too.
-/

set_option autoImplicit false

namespace Map

variable {α β : Type} {cmp : α → α → Ordering} [Std.TransCmp cmp] {t : Std.TreeMap α β cmp} {a : α}

theorem exists_entry (h : a ∈ t) : ∃ b, t[a]? = some b :=
  Option.isSome_iff_exists.mp (Std.TreeMap.mem_iff_isSome_getElem?.mp h)

theorem mem_of_entry {b : β} (h : t[a]? = some b) : a ∈ t :=
  Std.TreeMap.mem_iff_isSome_getElem?.mpr (Option.isSome_of_eq_some h)

theorem not_mem_of_none (h : t[a]? = none) : a ∉ t := fun hmem => by
  obtain ⟨b, hb⟩ := exists_entry hmem
  exact absurd (h.symm.trans hb) (by simp)

theorem none_of_not_mem (h : a ∉ t) : t[a]? = none :=
  Option.not_isSome_iff_eq_none.mp (mt Std.TreeMap.mem_iff_isSome_getElem?.mpr h)

theorem size_erase_add_one (h : a ∈ t) : (t.erase a).size + 1 = t.size := by
  have hpos : t.size ≠ 0 := by
    have hne := Std.TreeMap.isEmpty_eq_false_of_contains (Std.TreeMap.contains_iff_mem.mpr h)
    rw [Std.TreeMap.isEmpty_eq_size_eq_zero] at hne
    simpa using hne
  rw [Std.TreeMap.size_erase, if_pos (Std.TreeMap.contains_iff_mem.mpr h)]
  omega

theorem size_insertIfNew_of_none (h : t[a]? = none) (b : β) :
    (t.insertIfNew a b).size = t.size + 1 := by
  rw [Std.TreeMap.size_insertIfNew, if_neg (not_mem_of_none h)]

/-! A counter of 64 bits goes up and down with the size. -/

/-- A counter of 64 bits that is raised with every new entry counts the entries, also if it wraps.
-/
theorem ofNat_size_insertIfNew (h : t[a]? = none) (b : β) :
    UInt64.ofNat t.size + 1 = UInt64.ofNat (t.insertIfNew a b).size := by
  rw [size_insertIfNew_of_none h, UInt64.ofNat_add]
  rfl

theorem ofNat_size_erase (h : a ∈ t) :
    UInt64.ofNat t.size - 1 = UInt64.ofNat (t.erase a).size := by
  rw [← size_erase_add_one h, UInt64.ofNat_add]
  simp

section Eq

variable [Std.LawfulEqCmp cmp]

/-- Distinct keys are no more than there are entries. -/
theorem length_le_size {as : List α} (hnodup : as.Nodup) (h : ∀ a ∈ as, a ∈ t) :
    as.length ≤ t.size := by
  rw [← Std.TreeMap.length_keys]
  exact (hnodup.subperm fun a ha => Std.TreeMap.mem_keys.mpr (h a ha)).length_le

theorem nodup_keys (t : Std.TreeMap α β cmp) : t.keys.Nodup :=
  Std.TreeMap.distinct_keys.imp fun hne heq => hne (Std.LawfulEqCmp.compare_eq_iff_eq.mpr heq)

variable [DecidableEq α]

theorem entry_insertIfNew (h : t[a]? = none) (b : β) (c : α) :
    (t.insertIfNew a b)[c]? = if a = c then some b else t[c]? := by
  rw [Std.TreeMap.getElem?_insertIfNew]
  simp [not_mem_of_none h]

theorem entry_erase (t : Std.TreeMap α β cmp) (a c : α) :
    (t.erase a)[c]? = if a = c then none else t[c]? := by
  rw [Std.TreeMap.getElem?_erase]
  simp

end Eq

end Map
