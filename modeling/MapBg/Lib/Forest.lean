import Mathlib.Algebra.Group.Nat.Defs
import Mathlib.Data.List.Basic
import Mathlib.Data.List.Nodup
import Mathlib.Data.List.Pairwise
import Mathlib.Data.List.Perm.Basic
import Mathlib.Logic.Function.Iterate

/-!
# Levelled forests, and covers of a subtree

A `Forest` is a type of nodes with a parent function that lowers the level by one; the children
of a node are a finite list and are exactly the nodes it is the parent of. There is no root: the
parent function is total, and a statement about a tree is one about the descendants of a node.

`Anc a b` says that `a` is `b` or an ancestor of it. Ancestors of one node form a chain
(`Anc.of_level_le`), which is the only fact about trees used below.

`descend d a` lists the nodes `d` levels below `a`: those whose `d`-fold parent is `a`, each once.

The second half is about *covers*. Given which nodes are relevant and a level `leaf`, a cover of
the subtree at `start` is a non-empty antichain of nodes, each reached from `start` through
relevant nodes only, such that every relevant leaf-level node below has one of them at or above
it. `Cover.single` and `Cover.join` build covers the way a recursive selection does: a node
covers its subtree, and covers of the relevant children together cover their parent.
-/

set_option autoImplicit false

/-- A forest with levels. It has no roots: every node has a parent, up to any level, and a node is
among the children of its parent. What is searched is always the part below some node. -/
structure Forest (α : Type*) where
  parent : α → α
  level : α → Int
  children : α → List α
  mem_children : ∀ {c a : α}, c ∈ children a ↔ parent c = a
  nodup_children : ∀ a : α, (children a).Nodup
  level_parent : ∀ c : α, level (parent c) = level c - 1

namespace Forest

variable {α : Type*} (F : Forest α)

/-- The node `a` is `b` or above it. The number of steps is determined by the levels. -/
def Anc (a b : α) : Prop := ∃ d : Nat, F.parent^[d] b = a

variable {F} {a b c : α}

theorem anc_refl (a : α) : F.Anc a a := ⟨0, rfl⟩

theorem anc_parent (b : α) : F.Anc (F.parent b) b := ⟨1, rfl⟩

theorem Anc.trans (hab : F.Anc a b) (hbc : F.Anc b c) : F.Anc a c := by
  obtain ⟨d, rfl⟩ := hab
  obtain ⟨e, rfl⟩ := hbc
  exact ⟨d + e, Function.iterate_add_apply ..⟩

theorem level_iterate (d : Nat) (b : α) : F.level (F.parent^[d] b) = F.level b - d := by
  induction d with
  | zero => simp
  | succ d ih =>
    rw [Function.iterate_succ_apply', F.level_parent, ih]
    push_cast
    omega

theorem Anc.level_le (h : F.Anc a b) : F.level a ≤ F.level b := by
  obtain ⟨d, rfl⟩ := h
  rw [level_iterate]
  omega

/-- Of two nodes one above the other, on the same level, there is only one. -/
theorem Anc.eq_of_level (h : F.Anc a b) (hl : F.level b ≤ F.level a) : a = b := by
  obtain ⟨d, rfl⟩ := h
  rw [level_iterate] at hl
  obtain rfl : d = 0 := by omega
  rfl

/-- Two ancestors of one node are ancestors of each other, the higher of the lower. -/
theorem Anc.of_level_le (ha : F.Anc a c) (hb : F.Anc b c) (hl : F.level a ≤ F.level b) :
    F.Anc a b := by
  obtain ⟨d, rfl⟩ := ha
  obtain ⟨e, rfl⟩ := hb
  rw [level_iterate, level_iterate] at hl
  obtain ⟨k, rfl⟩ : ∃ k, d = k + e := ⟨d - e, by omega⟩
  exact ⟨k, (Function.iterate_add_apply ..).symm⟩

/-- Below a proper ancestor there is a child of it on the way down. -/
theorem Anc.exists_child (h : F.Anc a b) (hne : a ≠ b) : ∃ c ∈ F.children a, F.Anc c b := by
  obtain ⟨d, rfl⟩ := h
  cases d with
  | zero => exact absurd rfl hne
  | succ d =>
    have hparent := (Function.iterate_succ_apply' F.parent d b).symm
    exact ⟨F.parent^[d] b, F.mem_children.mpr hparent, d, rfl⟩

/-- A node has one ancestor of each level. -/
theorem Anc.eq_of_level_eq (ha : F.Anc a c) (hb : F.Anc b c) (hl : F.level a = F.level b) :
    a = b :=
  (ha.of_level_le hb (Int.le_of_eq hl)).eq_of_level (Int.le_of_eq hl.symm)

theorem anc_of_mem_children (h : c ∈ F.children a) : F.Anc a c := by
  have hp : F.Anc (F.parent c) c := anc_parent c
  rw [F.mem_children.mp h] at hp
  exact hp

theorem level_of_mem_children (h : c ∈ F.children a) : F.level c = F.level a + 1 := by
  have hl := F.level_parent c
  rw [F.mem_children.mp h] at hl
  omega

/-! ## The nodes of one depth below a node -/

variable (F) in
/-- The nodes that are `d` levels below a node. -/
def descend : Nat → α → List α
  | 0, a => [a]
  | d + 1, a => (descend d a).flatMap F.children

/-- They are the nodes from which `d` steps up lead to it, which is how membership is decided
without a search. -/
theorem mem_descend {d : Nat} : b ∈ F.descend d a ↔ F.parent^[d] b = a := by
  induction d generalizing b with
  | zero => exact List.mem_singleton
  | succ d ih =>
    rw [descend, List.mem_flatMap, Function.iterate_succ_apply]
    constructor
    · rintro ⟨c, hc, hb⟩
      rw [F.mem_children.mp hb]
      exact ih.mp hc
    · intro hb
      exact ⟨F.parent b, ih.mpr hb, F.mem_children.mpr rfl⟩

theorem nodup_descend (d : Nat) (a : α) : (F.descend d a).Nodup := by
  induction d with
  | zero => exact List.nodup_singleton a
  | succ d ih =>
    rw [descend, List.nodup_flatMap]
    refine ⟨fun c _ => F.nodup_children c, ih.imp fun hne b hb hb' => hne ?_⟩
    exact (F.mem_children.mp hb).symm.trans (F.mem_children.mp hb')

theorem length_descend {n : Nat} (h : ∀ a, (F.children a).length = n) (d : Nat) (a : α) :
    (F.descend d a).length = n ^ d := by
  induction d with
  | zero => rfl
  | succ d ih =>
    rw [descend, List.length_flatMap, Nat.pow_succ, ← ih]
    simp [h]

/-! ## Antichains -/

variable (F) in
/-- No node of the list is above another, in particular no node is there twice. -/
def Antichain (out : List α) : Prop := out.Pairwise fun a b => ¬ F.Anc a b ∧ ¬ F.Anc b a

theorem Antichain.perm {out out' : List α} (h : F.Antichain out) (hp : out.Perm out') :
    F.Antichain out' :=
  (hp.pairwise_iff fun hab => ⟨hab.2, hab.1⟩).mp h

/-- Lists below different nodes of one level have nothing to do with each other. -/
theorem not_anc_of_siblings {s t : α} (hst : s ≠ t) (hl : F.level s = F.level t)
    (ha : F.Anc s a) (hb : F.Anc t b) : ¬ F.Anc a b := by
  intro hab
  exact hst ((ha.trans hab).eq_of_level_eq hb hl)

/-- Antichains below different nodes of one level make an antichain together, since below two such
nodes there is nothing in common. -/
theorem Antichain.flatMap {cs : List α} (hnd : cs.Nodup) {n : Int}
    (hl : ∀ c ∈ cs, F.level c = n) {piece : α → List α}
    (hbelow : ∀ c ∈ cs, ∀ a ∈ piece c, F.Anc c a) (hpc : ∀ c ∈ cs, F.Antichain (piece c)) :
    F.Antichain (cs.flatMap piece) := by
  refine List.pairwise_flatMap.mpr ⟨hpc, ?_⟩
  refine hnd.imp_of_mem fun {s t} hs ht hst a ha b hb => ⟨?_, ?_⟩
  · exact not_anc_of_siblings hst ((hl s hs).trans (hl t ht).symm) (hbelow s hs a ha)
      (hbelow t ht b hb)
  · exact not_anc_of_siblings hst.symm ((hl t ht).trans (hl s hs).symm) (hbelow t ht b hb)
      (hbelow s hs a ha)

/-- In an antichain a node has at most one ancestor. -/
theorem Antichain.unique {out : List α} (h : F.Antichain out) {d : α} (ha : a ∈ out)
    (hb : b ∈ out) (had : F.Anc a d) (hbd : F.Anc b d) : a = b := by
  by_contra hne
  have : Std.Symm fun a b => ¬ F.Anc a b ∧ ¬ F.Anc b a := ⟨fun _ _ hxy => ⟨hxy.2, hxy.1⟩⟩
  have hpair := List.Pairwise.forall h ha hb hne
  rcases Int.le_total (F.level a) (F.level b) with hl | hl
  · exact hpair.1 (had.of_level_le hbd hl)
  · exact hpair.2 (hbd.of_level_le had hl)

theorem Antichain.nodup {out : List α} (h : F.Antichain out) : out.Nodup := by
  refine List.Pairwise.imp (fun {a b} hab heq => ?_) h
  rw [heq] at hab
  exact hab.1 (anc_refl b)

/-! ## Reaching a node through relevant children -/

variable (F) in
/-- The nodes that are found from `start` by going down through nodes for which `rel` holds. The
start itself is not tested. -/
inductive Reached (rel : α → Prop) (start : α) : α → Prop
  | start : Reached rel start start
  | child {a c : α} : Reached rel start a → c ∈ F.children a → rel c → Reached rel start c

theorem Reached.trans {rel : α → Prop} {s t : α} (hst : F.Reached rel s t)
    (hta : F.Reached rel t a) : F.Reached rel s a := by
  induction hta with
  | start => exact hst
  | child _ hc hrel ih => exact ih.child hc hrel

theorem Reached.anc {rel : α → Prop} {s : α} (h : F.Reached rel s a) : F.Anc s a := by
  induction h with
  | start => exact anc_refl s
  | child _ hc _ ih => exact ih.trans (anc_of_mem_children hc)

/-- A node is reached if it and its ancestors below the start are relevant. -/
theorem Anc.reached {rel : α → Prop} {s : α} (h : F.Anc s b)
    (hrel : ∀ a, F.Anc a b → F.level s < F.level a → rel a) : F.Reached rel s b := by
  obtain ⟨d, hd⟩ := h
  induction d generalizing b with
  | zero =>
    obtain rfl : b = s := hd
    exact .start
  | succ d ih =>
    have hlevel : F.level s < F.level b := by
      rw [← hd, level_iterate]
      omega
    refine .child (ih (fun a ha => hrel a (ha.trans (anc_parent b))) hd) ?_ ?_
    · exact F.mem_children.mpr rfl
    · exact hrel b (anc_refl b) hlevel

/-! ## Covers -/

variable (F) in
/-- What a search for a cover of the leaves below `start` has to return: nodes that it has reached,
none above another, such that above each leaf that could be reached there is one. -/
structure Cover (rel : α → Prop) (leaf : Int) (start : α) (out : List α) : Prop where
  nonempty : out ≠ []
  reached : ∀ a ∈ out, F.Reached rel start a
  level_le : ∀ a ∈ out, F.level a ≤ leaf
  antichain : F.Antichain out
  covers : ∀ d, F.Anc start d → F.level d = leaf →
    (∀ a, F.Anc a d → F.level start < F.level a → rel a) → ∃ a ∈ out, F.Anc a d

variable {rel : α → Prop} {leaf : Int} {start : α}

theorem Cover.single (h : F.level start ≤ leaf) : F.Cover rel leaf start [start] where
  nonempty := List.cons_ne_nil _ _
  reached a ha := by
    rw [List.mem_singleton.mp ha]
    exact .start
  level_le a ha := by
    rw [List.mem_singleton.mp ha]
    exact h
  antichain := List.pairwise_singleton _ _
  covers d hd _ _ := ⟨start, List.mem_singleton_self _, hd⟩

/-- **Covers of the relevant children cover the parent**, in any order. -/
theorem Cover.join {cs out : List α} {piece : α → List α} (hlt : F.level start < leaf)
    (hnd : cs.Nodup) (hcs : ∀ c, c ∈ cs ↔ c ∈ F.children start ∧ rel c) (hne : cs ≠ [])
    (hpiece : ∀ c ∈ cs, F.Cover rel leaf c (piece c)) (hout : (cs.flatMap piece).Perm out) :
    F.Cover rel leaf start out := by
  have hlevel : ∀ c ∈ cs, F.level c = F.level start + 1 := fun c hc =>
    level_of_mem_children ((hcs c).mp hc).1
  have hchild : ∀ c ∈ cs, F.Reached rel start c := fun c hc =>
    Reached.start.child ((hcs c).mp hc).1 ((hcs c).mp hc).2
  have hmem : ∀ a ∈ out, ∃ c ∈ cs, a ∈ piece c := fun a ha =>
    List.mem_flatMap.mp (hout.mem_iff.mpr ha)
  refine ⟨?_, ?_, ?_, ?_, ?_⟩
  · obtain ⟨c, hc⟩ := List.exists_mem_of_ne_nil cs hne
    obtain ⟨a, ha⟩ := List.exists_mem_of_ne_nil _ (hpiece c hc).nonempty
    exact List.ne_nil_of_mem (hout.mem_iff.mp (List.mem_flatMap.mpr ⟨c, hc, ha⟩))
  · intro a ha
    obtain ⟨c, hc, hac⟩ := hmem a ha
    exact (hchild c hc).trans ((hpiece c hc).reached a hac)
  · intro a ha
    obtain ⟨c, hc, hac⟩ := hmem a ha
    exact (hpiece c hc).level_le a hac
  · exact (Antichain.flatMap hnd hlevel (fun c hc a ha => ((hpiece c hc).reached a ha).anc)
      fun c hc => (hpiece c hc).antichain).perm hout
  · intro d hd hleaf hrel
    -- the child of `start` on the way to `d` is relevant, and its cover has the ancestor
    have hne : start ≠ d := by
      rintro rfl
      omega
    obtain ⟨c, hchild, hcd⟩ := hd.exists_child hne
    have hl := level_of_mem_children hchild
    have hc : c ∈ cs := (hcs c).mpr ⟨hchild, hrel c hcd (by omega)⟩
    obtain ⟨a, ha, had⟩ := (hpiece c hc).covers d hcd hleaf
      fun a' ha' hlt' => hrel a' ha' (by omega)
    exact ⟨a, hout.mem_iff.mp (List.mem_flatMap.mpr ⟨c, hc, ha⟩), had⟩

/-! A recursive selection may leave some children without a cover of their own and put them in
place of it at the end. -/

/-- A search that puts the pieces first and what they leave open last has the same nodes as one that
fills each gap where it is. -/
theorem perm_fill (piece : α → Option (List α)) (cs : List α) :
    (cs.flatMap fun c => (piece c).getD [c]).Perm
      (cs.flatMap (fun c => (piece c).getD []) ++ cs.filter fun c => (piece c).isNone) := by
  induction cs with
  | nil => exact .nil
  | cons c cs ih =>
    cases hp : piece c with
    | some out =>
      simp only [List.flatMap_cons, hp, Option.getD_some, List.filter_cons, Option.isNone_some,
        Bool.false_eq_true, if_false, List.append_assoc]
      exact ih.append_left out
    | none =>
      simp only [List.flatMap_cons, hp, Option.getD_none, List.filter_cons, Option.isNone_none,
        if_true, List.nil_append, List.singleton_append]
      exact (ih.cons c).trans List.perm_middle.symm

/-- The step of such a search. Each child that is relevant has a piece, or stands for itself if it
has none. -/
theorem Cover.fill {cs : List α} {piece : α → Option (List α)} (hlt : F.level start < leaf)
    (hnd : cs.Nodup) (hcs : ∀ c, c ∈ cs ↔ c ∈ F.children start ∧ rel c) (hne : cs ≠ [])
    (hpiece : ∀ c ∈ cs, ∀ out, piece c = some out → F.Cover rel leaf c out) :
    F.Cover rel leaf start
      (cs.flatMap (fun c => (piece c).getD []) ++ cs.filter fun c => (piece c).isNone) := by
  refine Cover.join hlt hnd hcs hne (fun c hc => ?_) (perm_fill piece cs)
  cases hp : piece c with
  | some out => exact hpiece c hc out hp
  | none =>
    have hl := level_of_mem_children ((hcs c).mp hc).1
    exact Cover.single (by omega)

/-- Above each leaf there is exactly one node of the cover: at least one because it covers, at most
one because no two are above one another. -/
theorem Cover.existsUnique {out : List α} (h : F.Cover rel leaf start out) {d : α}
    (hd : F.Anc start d) (hl : F.level d = leaf)
    (hrel : ∀ a, F.Anc a d → F.level start < F.level a → rel a) :
    ∃! a, a ∈ out ∧ F.Anc a d := by
  obtain ⟨a, ha, had⟩ := h.covers d hd hl hrel
  exact ⟨a, ⟨ha, had⟩, fun b hb => h.antichain.unique hb.1 ha hb.2 had⟩

end Forest
