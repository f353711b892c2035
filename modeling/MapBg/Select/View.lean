import MapBg.Loc.Tree

/-!
# `FrustumTiles::GetLocsInView`: which cells of the octree are drawn

The selection walks the octree from a start cell. It appends to one shared vector and returns a
boolean, and both are used by the caller one level up: a child that answers `false` has appended
nothing and is remembered in `fillLocs`; if some sibling answered `true` the remembered ones are
appended after the loop, otherwise the call answers `false` itself and its caller deals with it.

Geometry enters through two functions of the cell only, and through nothing else, so a `View` is
those two functions and the deepest level: `targetLodForLoc` (negative for a cell with a corner
behind the camera) and `relevant` (the box meets the frustum or the player's box). Nothing is
assumed of either.

The recursion goes down at most to `maxlod`, and the model recurses on the number of levels left;
`getLocsInView_eq` is the source's own recursion, with its test `m_l < maxlod`.

`select` is the same selection without the accumulator: the cells a call adds, or nothing. The
two agree (`getLocsInViewAt_eq`), and everything below is proved of `select`: what it returns is a
cover of the start cell in the sense of `Forest.Cover`, and it returns something exactly when
some cell on a relevant path stops the descent with a `true` (`isSome_select_iff`).
-/

set_option autoImplicit false

namespace MapBg

/-- What the search depends on, for one frame: the level of detail that is wanted at a cell
(negative if it is behind the camera), whether a cell is in view or near the player, and the finest
level. -/
structure View where
  targetLodForLoc : Loc → Int
  relevant : Loc → Bool
  maxlod : Int

namespace View

variable (v : View)

/-! ## The walk

`Exit` is how a call leaves: the three early `return`s of the source, the last two of which do
the same, or none of them. -/

/-- How a call ends: nothing is selected, the cell is, or its children are searched. -/
inductive Exit
  | drop
  | take
  | descend
  deriving DecidableEq

/-- The tests at the top of `GetLocsInView`. `behindCamera` says that the cell above is behind the
camera; a cell in front of it that is finer than it need be is then dropped. -/
def exit (curLoc : Loc) (behindCamera : Bool) : Exit :=
  let targetLod := v.targetLodForLoc curLoc
  if 0 ≤ targetLod then
    if behindCamera ∧ curLoc.l > targetLod then .drop
    else if curLoc.l ≥ targetLod then .take
    else .descend
  else if curLoc.l = v.maxlod then .take
  else .descend

/-- The variables of the loop over the children. -/
structure Loop where
  locs : List Loc
  fillLocs : List Loc
  hasChildren : Bool

/-- One turn of that loop. A child that selects nothing is kept aside in `fillLocs`. -/
def childStep (recurse : List Loc → Loc → Bool × List Loc) (s : Loop) (childLoc : Loc) : Loop :=
  if v.relevant childLoc then
    let (childExists, locs) := recurse s.locs childLoc
    { locs
      fillLocs := if childExists then s.fillLocs else s.fillLocs ++ [childLoc]
      hasChildren := s.hasChildren || childExists }
  else s

/-- `GetLocsInView`, by recursion on the number of levels left. -/
def getLocsInViewAt : Nat → List Loc → Loc → Bool → Bool × List Loc
  | 0, locs, curLoc, behindCamera =>
    match v.exit curLoc behindCamera with
    | .drop => (false, locs)
    | .take => (true, locs ++ [curLoc])
    | .descend => (false, locs)
  | depth + 1, locs, curLoc, behindCamera =>
    match v.exit curLoc behindCamera with
    | .drop => (false, locs)
    | .take => (true, locs ++ [curLoc])
    | .descend =>
      let s := curLoc.children.foldl
        (v.childStep fun locs childLoc =>
          getLocsInViewAt depth locs childLoc (v.targetLodForLoc curLoc < 0))
        ⟨locs, [], false⟩
      (s.hasChildren, if s.hasChildren then s.locs ++ s.fillLocs else s.locs)

/-- `FrustumTiles::GetLocsInView`. What is kept aside is added at the end, if anything below the
cell was selected. -/
def getLocsInView (locs : List Loc) (curLoc : Loc) (behindCamera : Bool) : Bool × List Loc :=
  v.getLocsInViewAt (v.maxlod - curLoc.l).toNat locs curLoc behindCamera

/-- The source's recursion: `GetLocsInView` calls itself on the children, one level down. -/
theorem getLocsInView_eq (locs : List Loc) (curLoc : Loc) (behindCamera : Bool) :
    v.getLocsInView locs curLoc behindCamera =
      match v.exit curLoc behindCamera with
      | .drop => (false, locs)
      | .take => (true, locs ++ [curLoc])
      | .descend =>
        if curLoc.l < v.maxlod then
          let s := curLoc.children.foldl
            (v.childStep fun locs childLoc =>
              v.getLocsInView locs childLoc (v.targetLodForLoc curLoc < 0))
            ⟨locs, [], false⟩
          (s.hasChildren, if s.hasChildren then s.locs ++ s.fillLocs else s.locs)
        else (false, locs) := by
  unfold getLocsInView
  by_cases hlt : curLoc.l < v.maxlod
  · obtain ⟨n, hn⟩ : ∃ n : Nat, (v.maxlod - curLoc.l).toNat = n + 1 :=
      ⟨(v.maxlod - curLoc.l - 1).toNat, by omega⟩
    rw [hn, getLocsInViewAt, if_pos hlt]
    -- every child is at the level below, so the depth left is the one the recursion passes on
    have hstep : ∀ s : Loop, ∀ c ∈ curLoc.children,
        v.childStep (fun locs childLoc =>
          v.getLocsInViewAt n locs childLoc (v.targetLodForLoc curLoc < 0)) s c =
        v.childStep (fun locs childLoc => v.getLocsInViewAt (v.maxlod - childLoc.l).toNat locs
          childLoc (v.targetLodForLoc curLoc < 0)) s c := by
      intro s c hc
      have hdepth : (v.maxlod - c.l).toNat = n := by
        have := Loc.l_of_mem_children hc
        omega
      simp only [childStep, hdepth]
    rw [List.foldl_ext _ _ _ hstep]
  · have hn : (v.maxlod - curLoc.l).toNat = 0 := by omega
    rw [hn, getLocsInViewAt, if_neg hlt]

/-! ## The selection as a function -/

/-- The same search without the accumulators: what is selected below a cell, and `none` if that is
nothing. -/
def select : Nat → Loc → Bool → Option (List Loc)
  | 0, cur, behind => if v.exit cur behind = .take then some [cur] else none
  | depth + 1, cur, behind =>
    match v.exit cur behind with
    | .drop => none
    | .take => some [cur]
    | .descend =>
      let piece := fun c => select depth c (v.targetLodForLoc cur < 0)
      let inView := cur.children.filter v.relevant
      if inView.any fun c => (piece c).isSome then
        some (inView.flatMap (fun c => (piece c).getD []) ++
          inView.filter fun c => (piece c).isNone)
      else none

variable {v}

/-- The loop, with its three accumulators in closed form. By induction on the children that are
left, for any state of the loop. -/
theorem foldl_childStep {recurse : List Loc → Loc → Bool × List Loc}
    {piece : Loc → Option (List Loc)}
    (hrec : ∀ locs c, recurse locs c = ((piece c).isSome, locs ++ (piece c).getD [])) :
    ∀ (cs : List Loc) (s : Loop), cs.foldl (v.childStep recurse) s =
      ⟨s.locs ++ (cs.filter v.relevant).flatMap fun c => (piece c).getD [],
        s.fillLocs ++ (cs.filter v.relevant).filter fun c => (piece c).isNone,
        s.hasChildren || (cs.filter v.relevant).any fun c => (piece c).isSome⟩
  | [], s => by simp
  | c :: cs, s => by
    rw [List.foldl_cons, foldl_childStep hrec cs, childStep, hrec]
    cases hrel : v.relevant c with
    | false => simp [hrel]
    | true => cases hp : piece c <;> simp [hrel, hp]

/-- The source's search appends what the other one returns. -/
theorem getLocsInViewAt_eq (depth : Nat) (locs : List Loc) (cur : Loc) (behind : Bool) :
    v.getLocsInViewAt depth locs cur behind =
      ((v.select depth cur behind).isSome, locs ++ (v.select depth cur behind).getD []) := by
  induction depth generalizing locs cur behind with
  | zero =>
    unfold getLocsInViewAt select
    cases v.exit cur behind <;> simp
  | succ depth ih =>
    unfold getLocsInViewAt select
    cases v.exit cur behind with
    | drop => simp
    | take => simp
    | descend =>
      simp only
      rw [foldl_childStep fun locs c => ih locs c _]
      cases hany : (cur.children.filter v.relevant).any fun c =>
          (v.select depth c (v.targetLodForLoc cur < 0)).isSome with
      | true => simp
      | false =>
        -- no piece at all, so the loop appended nothing
        have hnone : (cur.children.filter v.relevant).flatMap (fun c =>
            (v.select depth c (v.targetLodForLoc cur < 0)).getD []) = [] := by
          refine List.flatMap_eq_nil_iff.mpr fun c hc => ?_
          have hc' := List.any_eq_false.mp hany c hc
          rw [Option.not_isSome_iff_eq_none.mp hc']
          rfl
        simp [hnone]

/-! ## What is selected is a cover -/

/-- By induction on the levels left. A cell that is taken covers itself; otherwise the children that
select something and those that stand for themselves make a cover together. -/
theorem cover_of_select {depth : Nat} {cur : Loc} {behind : Bool} {out : List Loc}
    (hdepth : cur.l + depth ≤ v.maxlod) (h : v.select depth cur behind = some out) :
    Loc.forest.Cover (v.relevant · = true) v.maxlod cur out := by
  -- on the levels left; the cover of a cell is put together from those of its children
  induction depth generalizing cur behind out with
  | zero =>
    unfold select at h
    split at h
    · cases h
      exact .single (show cur.l ≤ v.maxlod by omega)
    · exact absurd h (by simp)
  | succ depth ih =>
    unfold select at h
    cases hexit : v.exit cur behind with
    | drop =>
      rw [hexit] at h
      exact absurd h (by simp)
    | take =>
      rw [hexit] at h
      cases h
      exact .single (show cur.l ≤ v.maxlod by omega)
    | descend =>
      rw [hexit] at h
      simp only at h
      split at h
      · rename_i hany
        cases h
        obtain ⟨c, hc, -⟩ := List.any_eq_true.mp hany
        -- a child below which nothing is selected is filled in, once another has something
        refine Forest.Cover.fill (show cur.l < v.maxlod by omega)
          (cur.nodup_children.filter _) (fun c => List.mem_filter) (List.ne_nil_of_mem hc) ?_
        intro c hc out hout
        have hl := Loc.l_of_mem_children (List.mem_filter.mp hc).1
        exact ih (by omega) hout
      · exact absurd h (by simp)

/-- **`GetLocsInView` selects an exact cover of the start cell**, or leaves `locs` alone. -/
theorem getLocsInView_cover (v : View) (locs : List Loc) (start : Loc) (behindCamera : Bool)
    (hstart : start.l ≤ v.maxlod) :
    let result := v.getLocsInView locs start behindCamera
    (result.1 = false → result.2 = locs) ∧
    (result.1 = true → ∃ out, result.2 = locs ++ out ∧ out ≠ [] ∧ out.Nodup ∧
      (∀ a ∈ out, ∀ b ∈ out, Loc.forest.Anc a b → a = b) ∧
      (∀ a ∈ out, a.l ≤ v.maxlod ∧ Loc.forest.Reached (v.relevant · = true) start a) ∧
      ∀ d, Loc.forest.Anc start d → d.l = v.maxlod →
        (∀ a, Loc.forest.Anc a d → start.l < a.l → v.relevant a = true) →
        ∃! a, a ∈ out ∧ Loc.forest.Anc a d) := by
  intro result
  -- the accumulators are taken apart once, here
  have hresult : result = _ := getLocsInViewAt_eq (v.maxlod - start.l).toNat locs start behindCamera
  cases hsel : v.select (v.maxlod - start.l).toNat start behindCamera with
  | none => simp [hresult, hsel]
  | some out =>
    have hcover := cover_of_select (by omega) hsel
    refine ⟨fun h => absurd h (by simp [hresult, hsel]), fun _ => ⟨out, ?_, hcover.nonempty,
      hcover.antichain.nodup, ?_, ?_, ?_⟩⟩
    · simp [hresult, hsel]
    · intro a ha b hb hab
      exact hcover.antichain.unique ha hb hab (Forest.anc_refl b)
    · intro a ha
      exact ⟨hcover.level_le a ha, hcover.reached a ha⟩
    · intro d hd hl hrel
      exact hcover.existsUnique hd hl hrel

/-- A view in which four of the root's children stop the walk and the other four ask for more
than `maxlod` has, so that they are filled in. -/
def halfView : View where
  targetLodForLoc a := if a.x = 1 then 5 else 1
  relevant _ := true
  maxlod := 1

theorem getLocsInView_cover_halfView :
    Loc.root.l ≤ halfView.maxlod ∧ (halfView.getLocsInView [] .root true).1 = true ∧
      ∃ out, (halfView.getLocsInView [] .root true).2 = [] ++ out ∧ out ≠ [] ∧ out.Nodup ∧
        (∀ a ∈ out, ∀ b ∈ out, Loc.forest.Anc a b → a = b) ∧
        (∀ a ∈ out, a.l ≤ halfView.maxlod ∧
          Loc.forest.Reached (halfView.relevant · = true) .root a) ∧
        ∀ d, Loc.forest.Anc .root d → d.l = halfView.maxlod →
          (∀ a, Loc.forest.Anc a d → Loc.root.l < a.l → halfView.relevant a = true) →
          ∃! a, a ∈ out ∧ Loc.forest.Anc a d :=
  ⟨by decide, by decide, (getLocsInView_cover halfView [] .root true (by decide)).2 (by decide)⟩

/-! ## When something is selected

`Stops start behind a` says, of the two functions of the view, that the walk from `start` comes
to `a` and stops there with `true`. It comes to `a` if the cells on the way are relevant and those
above `a` send it on: they have a corner behind the camera or want a finer level than their own.
It stops if `a` has the level it wants; or cannot tell, and is at `maxlod`; or wants a coarser
level and was not called with `behindCamera`. -/

/-- The search stops at `a` and selects it: it is not dropped or descended from, and every cell on
the way to it is in view and is descended from. -/
structure Stops (v : View) (start : Loc) (behind : Bool) (a : Loc) : Prop where
  below : Loc.forest.Anc start a
  level_le : a.l ≤ v.maxlod
  relevant : ∀ p, Loc.forest.Anc p a → start.l < p.l → v.relevant p = true
  goesOn : ∀ p, Loc.forest.Anc p a → start.l ≤ p.l → p ≠ a →
    v.targetLodForLoc p < 0 ∨ p.l < v.targetLodForLoc p
  here : (0 ≤ v.targetLodForLoc a ∧ v.targetLodForLoc a = a.l) ∨
    (v.targetLodForLoc a < 0 ∧ a.l = v.maxlod) ∨
    (0 ≤ v.targetLodForLoc a ∧ v.targetLodForLoc a < a.l ∧
      if a = start then behind = false else 0 ≤ v.targetLodForLoc a.parent)

/-- The three cases in which a cell is selected: it is as fine as wanted; it is behind the camera
and the finest there is; or it is finer than wanted, below a cell that is in front. -/
theorem exit_eq_take_iff {cur : Loc} {behind : Bool} : v.exit cur behind = .take ↔
    (0 ≤ v.targetLodForLoc cur ∧ v.targetLodForLoc cur = cur.l) ∨
    (v.targetLodForLoc cur < 0 ∧ cur.l = v.maxlod) ∨
    (0 ≤ v.targetLodForLoc cur ∧ v.targetLodForLoc cur < cur.l ∧ behind = false) := by
  unfold exit
  cases behind <;> grind

theorem exit_eq_descend_iff {cur : Loc} {behind : Bool} : v.exit cur behind = .descend ↔
    (v.targetLodForLoc cur < 0 ∧ cur.l ≠ v.maxlod) ∨ cur.l < v.targetLodForLoc cur ∧
      0 ≤ v.targetLodForLoc cur := by
  unfold exit
  cases behind <;> grind

theorem stops_self_iff {cur : Loc} {behind : Bool} :
    v.Stops cur behind cur ↔ cur.l ≤ v.maxlod ∧ v.exit cur behind = .take := by
  constructor
  · intro h
    refine ⟨h.level_le, exit_eq_take_iff.mpr ?_⟩
    simpa using h.here
  · intro ⟨hle, htake⟩
    refine ⟨Forest.anc_refl cur, hle, ?_, ?_, by simpa using exit_eq_take_iff.mp htake⟩
    · intro p hp hlt
      have hle : p.l ≤ cur.l := hp.level_le
      omega
    · intro p hp hl hne
      exact absurd (hp.eq_of_level hl) hne

/-- With what `behindCamera` the walk comes to a cell below `cur` is the same seen from `cur` and
from the child of `cur` on the way. -/
theorem calledBehind_child {cur c a : Loc} (hc : c ∈ cur.children) (hne : a ≠ cur)
    (behind : Bool) :
    (if a = cur then behind = false else 0 ≤ v.targetLodForLoc a.parent) ↔
      if a = c then decide (v.targetLodForLoc cur < 0) = false
      else 0 ≤ v.targetLodForLoc a.parent := by
  rw [if_neg hne]
  split
  · rename_i hac
    rw [hac, Loc.mem_children.mp hc]
    simp
  · rfl

theorem Stops.of_child {cur c a : Loc} {behind : Bool} (hc : c ∈ cur.children)
    (hrel : v.relevant c = true) (hexit : v.exit cur behind = .descend)
    (h : v.Stops c (v.targetLodForLoc cur < 0) a) : v.Stops cur behind a := by
  have hl := Loc.l_of_mem_children hc
  have hca : c.l ≤ a.l := h.below.level_le
  have hcur : Loc.forest.Anc cur a := (Forest.anc_of_mem_children hc).trans h.below
  refine ⟨hcur, h.level_le, ?_, ?_, ?_⟩
  · intro p hp hlt
    -- the child itself, or strictly below it
    rcases Int.lt_or_le c.l p.l with hcp | hcp
    · exact h.relevant p hp hcp
    · have hpc : p.l = c.l := by omega
      rw [hp.eq_of_level_eq h.below hpc]
      exact hrel
  · intro p hp hle hne
    rcases Int.lt_or_le cur.l p.l with hlt | hle'
    · exact h.goesOn p hp (by omega) hne
    · have hpcur : p.l = cur.l := by omega
      rw [hp.eq_of_level_eq hcur hpcur]
      have := exit_eq_descend_iff.mp hexit
      omega
  · have hne : a ≠ cur := by
      rintro rfl
      omega
    rw [calledBehind_child hc hne]
    exact h.here

theorem Stops.exists_child {cur a : Loc} {behind : Bool} (h : v.Stops cur behind a)
    (hne : a ≠ cur) : v.exit cur behind = .descend ∧
      ∃ c ∈ cur.children, v.relevant c = true ∧ v.Stops c (v.targetLodForLoc cur < 0) a := by
  obtain ⟨c, hc, hca⟩ := h.below.exists_child hne.symm
  have hl := Loc.l_of_mem_children hc
  have hle : c.l ≤ a.l := hca.level_le
  have hmax := h.level_le
  refine ⟨?_, c, hc, h.relevant c hca (by omega), hca, hmax, ?_, ?_, ?_⟩
  · have hgoes := h.goesOn cur h.below (Int.le_refl _) hne.symm
    rw [exit_eq_descend_iff]
    omega
  · intro p hp hlt
    exact h.relevant p hp (by omega)
  · intro p hp hlt hpa
    exact h.goesOn p hp (by omega) hpa
  · rw [← calledBehind_child hc hne behind]
    exact h.here

theorem isSome_select_succ {depth : Nat} {cur : Loc} {behind : Bool} :
    (v.select (depth + 1) cur behind).isSome = true ↔ v.exit cur behind = .take ∨
      v.exit cur behind = .descend ∧ ∃ c ∈ cur.children, v.relevant c = true ∧
        (v.select depth c (v.targetLodForLoc cur < 0)).isSome = true := by
  rw [select]
  cases v.exit cur behind with
  | drop => simp
  | take => simp
  | descend =>
    simp only [reduceCtorEq, false_or, true_and]
    have hany : ((cur.children.filter v.relevant).any fun c =>
          (v.select depth c (v.targetLodForLoc cur < 0)).isSome) = true ↔
        ∃ c ∈ cur.children, v.relevant c = true ∧
          (v.select depth c (v.targetLodForLoc cur < 0)).isSome = true := by
      simp only [List.any_eq_true, List.mem_filter, and_assoc]
    rw [← hany]
    split
    · rename_i hfound
      exact iff_of_true rfl hfound
    · rename_i hnone
      exact iff_of_false (by simp) hnone

/-- Something is selected exactly if the search stops somewhere. -/
theorem isSome_select_iff {depth : Nat} {cur : Loc} {behind : Bool}
    (hdepth : cur.l + depth = v.maxlod) :
    (v.select depth cur behind).isSome = true ↔ ∃ a, v.Stops cur behind a := by
  have hself : v.exit cur behind = .take → ∃ a, v.Stops cur behind a := fun htake =>
    ⟨cur, stops_self_iff.mpr ⟨by omega, htake⟩⟩
  induction depth generalizing cur behind with
  | zero =>
    unfold select
    constructor
    · intro h
      split at h
      · exact hself ‹_›
      · exact absurd h (by simp)
    · intro ⟨a, ha⟩
      have hlevel : a.l ≤ cur.l := by
        have := ha.level_le
        omega
      -- at the finest level there is nowhere further down to stop
      obtain rfl := ha.below.eq_of_level hlevel
      simp [(stops_self_iff.mp ha).2]
  | succ depth ih =>
    have ihc : ∀ c ∈ cur.children, ∀ b, (v.select depth c b).isSome = true ↔
        ∃ a, v.Stops c b a := by
      intro c hc b
      have hl := Loc.l_of_mem_children hc
      exact ih (by omega) fun htake => ⟨c, stops_self_iff.mpr ⟨by omega, htake⟩⟩
    rw [isSome_select_succ]
    constructor
    · rintro (htake | ⟨hexit, c, hc, hrel, hsome⟩)
      · exact hself htake
      · obtain ⟨a, ha⟩ := (ihc c hc _).mp hsome
        exact ⟨a, ha.of_child hc hrel hexit⟩
    · intro ⟨a, ha⟩
      by_cases hne : a = cur
      · subst hne
        exact .inl (stops_self_iff.mp ha).2
      · obtain ⟨hexit, c, hc, hrel, hstops⟩ := ha.exists_child hne
        exact .inr ⟨hexit, c, hc, hrel, (ihc c hc _).mpr ⟨a, hstops⟩⟩

/-! ## The call `FrustumTiles::Get` makes

It starts at the root, with `behindCamera` set, and ignores the answer; nothing is filled in for
the root if it is `false`. -/

/-- `FrustumTiles::Get`: the search from the root, which counts as below a cell behind the camera.
-/
def get (v : View) (locs : List Loc) : List Loc := (v.getLocsInView locs .root true).2

/-- Some cell of the finest level is in view, with all cells above it. -/
def NonEmpty (v : View) : Prop := ∃ d, Loc.forest.Anc .root d ∧ d.l = v.maxlod ∧
  ∀ p, Loc.forest.Anc p d → 0 < p.l → v.relevant p = true

theorem root_add_depth (hmax : 0 ≤ v.maxlod) :
    Loc.root.l + ((v.maxlod - Loc.root.l).toNat : Int) = v.maxlod := by
  show 0 + ((v.maxlod - 0).toNat : Int) = v.maxlod
  omega

/-- What `Get` returns is nothing, or a cover of what is in view. -/
theorem get_cover {v : View} (hmax : 0 ≤ v.maxlod) : v.get [] = [] ∨
    Loc.forest.Cover (v.relevant · = true) v.maxlod .root (v.get []) := by
  rw [get, getLocsInView, getLocsInViewAt_eq, List.nil_append]
  cases hsel : v.select (v.maxlod - Loc.root.l).toNat .root true with
  | none => exact .inl rfl
  | some out => exact .inr (cover_of_select (Int.le_of_eq (root_add_depth hmax)) hsel)

theorem mem_get {v : View} (hmax : 0 ≤ v.maxlod) {a : Loc} (ha : a ∈ v.get []) :
    a.l ≤ v.maxlod ∧ Loc.forest.Reached (v.relevant · = true) .root a := by
  rcases get_cover hmax with hnil | hcover
  · rw [hnil] at ha
    exact absurd ha (by simp)
  · exact ⟨hcover.level_le a ha, hcover.reached a ha⟩

theorem eq_of_anc_get {v : View} (hmax : 0 ≤ v.maxlod) {a b : Loc} (ha : a ∈ v.get [])
    (hb : b ∈ v.get []) (hab : Loc.forest.Anc a b) : a = b := by
  rcases get_cover hmax with hnil | hcover
  · rw [hnil] at ha
    exact absurd ha (by simp)
  · exact hcover.antichain.unique ha hb hab (Forest.anc_refl b)

/-- **The selection for a frame is empty unless some cell stops the walk from the root.** That
the view is non-empty is not enough. -/
theorem get_selects_iff_stops (v : View) (locs : List Loc) (hmax : 0 ≤ v.maxlod) :
    ((v.getLocsInView locs .root true).1 = true ↔ ∃ a, v.Stops .root true a) ∧
    (v.get locs ≠ locs ↔ ∃ a, v.Stops .root true a) := by
  have hdepth := root_add_depth hmax
  rw [← isSome_select_iff hdepth]
  unfold get getLocsInView
  rw [getLocsInViewAt_eq]
  refine ⟨Iff.rfl, ?_⟩
  cases hsel : v.select (v.maxlod - Loc.root.l).toNat .root true with
  | none => simp
  | some out =>
    have hout := (cover_of_select (Int.le_of_eq hdepth) hsel).nonempty
    simpa using hout

theorem get_selects_iff_stops_halfView :
    (0 ≤ halfView.maxlod ∧ (halfView.getLocsInView [] .root true).1 = true) ∧
      ∃ a, halfView.Stops .root true a :=
  ⟨by decide, (get_selects_iff_stops halfView [] (by decide)).1.mp (by decide)⟩

/-- Every cell of this view wants level 5, which `maxlod` does not have. -/
def tooFine : View where
  targetLodForLoc _ := 5
  relevant _ := true
  maxlod := 1

theorem get_tooFine_selects_nothing : 1 ≤ tooFine.maxlod ∧
    (∀ a, -1 ≤ tooFine.targetLodForLoc a) ∧ tooFine.NonEmpty ∧
    (tooFine.getLocsInView [] .root true).1 = false ∧ tooFine.get [] = [] := by
  refine ⟨by decide, fun _ => show (-1 : Int) ≤ 5 by decide,
    ⟨⟨0, 0, 0, 1⟩, ⟨1, rfl⟩, rfl, fun _ _ _ => rfl⟩, ?_, ?_⟩
  · decide
  · decide

end View

end MapBg
