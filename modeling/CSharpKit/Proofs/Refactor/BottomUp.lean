import CSharpKit.Proofs.Outcome
import CSharpKit.Proofs.Syntax.Paths
import CSharpKit.Refactor.Edit

/-!
# Edits as one rewrite from the leaves up

The edits of a document are made one after the other, each on the tree that the
ones before it left, and a target is found again by its path. This comes to the
same as one recursion over the unedited tree: the children of a node are
rewritten first, then the changes recorded for the node are made in their order.

The proof goes through a third form, `makeAll`, which walks down the path of
each edit and knows of no kinds. An edit that is still to be made is never
deeper than those already made, so nothing on its path has been replaced.
-/

namespace CSharpKit.Refactor.Edit

open Syntax Outcome

/-! ## The recursion -/

/-- The edits recorded for the node at a path. -/
def recordedAt (edits : List Edit) (path : List Nat) : List Edit :=
  edits.filter (·.target.path == path)

/-- Makes the changes of edits on one node, each on what the one before gave. -/
def changeNode (edits : List Edit) (node : Tree) : Except EditError Tree :=
  edits.foldlM (fun current edit => do return (← edit.change current).tree) node

mutual

/-- Rewrites the tree at a path: first its children, then the node itself. -/
def rewriteAt (edits : List Edit) (path : List Nat) : Tree → Except EditError Tree
  | .token k s => .ok (.token k s)
  | .node k cs => do
    changeNode (recordedAt edits path) (.node k (← rewriteRow edits path 0 cs))

/-- Rewrites trees in a row, the first of which is child `i` of the node at a path. -/
def rewriteRow (edits : List Edit) (path : List Nat) (i : Nat) : Forest → Except EditError Forest
  | [] => .ok []
  | t :: ts => do
    let first ← rewriteAt edits (path ++ [i]) t
    let others ← rewriteRow edits path (i + 1) ts
    return first :: others

end

/-- All edits of a tree as one rewrite from the leaves up. -/
def rewrite (edits : List Edit) (root : Tree) : Except EditError Tree := rewriteAt edits [] root

mutual

theorem rewriteAt_congr {edits others : List Edit} {path : List Nat}
    (h : ∀ below, recordedAt edits (path ++ below) = recordedAt others (path ++ below)) :
    ∀ t : Tree, rewriteAt edits path t = rewriteAt others path t
  | .token k s => rfl
  | .node k cs => by
      have hpath : recordedAt edits path = recordedAt others path := by simpa using h []
      have hrow := rewriteRow_congr (fun j below => by simpa using h (j :: below)) 0 cs
      simp only [rewriteAt, hpath, hrow]

theorem rewriteRow_congr {edits others : List Edit} {path : List Nat}
    (h : ∀ (j : Nat) below,
      recordedAt edits (path ++ j :: below) = recordedAt others (path ++ j :: below)) :
    ∀ (i : Nat) (ts : Forest), rewriteRow edits path i ts = rewriteRow others path i ts
  | _, [] => rfl
  | i, t :: ts => by
      have hi (below : List Nat) : recordedAt edits (path ++ [i] ++ below) =
          recordedAt others (path ++ [i] ++ below) := by
        simpa using h i below
      have ht := rewriteAt_congr hi t
      simp only [rewriteRow, ht, rewriteRow_congr h (i + 1) ts]

end

theorem rewriteRow_eq_ok_iff {edits : List Edit} {path : List Nat} {i : Nat} {ts us : Forest} :
    rewriteRow edits path i ts = .ok us ↔
      us.length = ts.length ∧ ∀ j (t u : Tree), ts[j]? = some t → us[j]? = some u →
        rewriteAt edits (path ++ [i + j]) t = .ok u := by
  induction ts generalizing i us with
  | nil =>
      simp only [rewriteRow, Except.ok.injEq, List.length_nil, List.length_eq_zero_iff]
      exact ⟨fun h => ⟨h.symm, by simp⟩, fun h => h.1.symm⟩
  | cons t ts ih =>
      simp only [rewriteRow, bind_eq_ok_iff, pure_eq_ok_iff, ih]
      constructor
      · rintro ⟨u, hu, us', ⟨hlen, hus⟩, rfl⟩
        refine ⟨by simp [hlen], fun j t' u' ht hu' => ?_⟩
        cases j with
        | zero =>
            simp only [List.getElem?_cons_zero, Option.some.injEq] at ht hu'
            subst ht hu'
            exact hu
        | succ j =>
            have hj := hus j t' u' (by simpa using ht) (by simpa using hu')
            rwa [Nat.add_assoc, Nat.add_comm 1 j] at hj
      · rintro ⟨hlen, h⟩
        cases us with
        | nil => simp at hlen
        | cons u us =>
            refine ⟨u, by simpa using h 0 t u, us, ⟨by simpa using hlen, fun j t' u' ht hu => ?_⟩,
              rfl⟩
            have hj := h (j + 1) t' u' (by simpa using ht) (by simpa using hu)
            rwa [Nat.add_comm j 1, ← Nat.add_assoc] at hj

mutual

theorem rewriteAt_nil (path : List Nat) : ∀ t : Tree, rewriteAt [] path t = .ok t
  | .token k s => rfl
  | .node k cs => by
      simp only [rewriteAt, rewriteRow_nil path 0 cs, recordedAt, List.filter_nil]
      rfl

theorem rewriteRow_nil (path : List Nat) : ∀ (i : Nat) (ts : Forest), rewriteRow [] path i ts = .ok ts
  | _, [] => rfl
  | i, t :: ts => by
      simp only [rewriteRow, rewriteAt_nil (path ++ [i]) t, rewriteRow_nil path (i + 1) ts]
      rfl

end

/-! ## One edit after the other -/

/-- Makes a change at the end of a path. -/
def changeAt (edit : Edit) (path : List Nat) (t : Tree) : Except EditError Tree :=
  match t.nodeAt? path with
  | none => .error edit.notFound
  | some node => do return t.replaceAt path (← edit.change node).tree

/-- Makes edits in a row, each at the path of its target. -/
def makeAll (edits : List Edit) (t : Tree) : Except EditError Tree :=
  edits.foldlM (fun current edit => changeAt edit edit.target.path current) t

theorem recordedAt_append (edits others : List Edit) (path : List Nat) :
    recordedAt (edits ++ others) path = recordedAt edits path ++ recordedAt others path :=
  List.filter_append ..

theorem recordedAt_singleton_self (edit : Edit) : recordedAt [edit] edit.target.path = [edit] := by
  simp [recordedAt]

theorem recordedAt_singleton_of_ne {edit : Edit} {path : List Nat} (h : edit.target.path ≠ path) :
    recordedAt [edit] path = [] := by
  simp [recordedAt, h]

/-- A node with no edits of its own only carries its children along. -/
theorem rewriteAt_node_eq_ok_iff {edits : List Edit} {path : List Nat} {k : Kind} {cs : Forest}
    {u : Tree} (h : recordedAt edits path = []) :
    rewriteAt edits path (.node k cs) = .ok u ↔
      ∃ us, rewriteRow edits path 0 cs = .ok us ∧ u = .node k us := by
  simp [rewriteAt, h, changeNode, @eq_comm _ u]

theorem isNode_of_changeNode {edits : List Edit} {t u : Tree} (ht : t.isNode = true)
    (h : changeNode edits t = .ok u) : u.isNode = true := by
  refine foldlM_keeps (P := fun t => t.isNode = true) (fun edit _ a b _ hb => ?_) ht h
  obtain ⟨new, _, rfl⟩ := map_eq_ok_iff.mp (by simpa using hb)
  rfl

theorem isNode_of_rewriteAt {edits : List Edit} {path : List Nat} {t u : Tree}
    (ht : t.isNode = true) (h : rewriteAt edits path t = .ok u) : u.isNode = true := by
  cases t with
  | token k s => simp [Tree.isNode] at ht
  | node k cs =>
      obtain ⟨us, _, hu⟩ := bind_eq_ok_iff.mp (by simpa only [rewriteAt] using h)
      exact isNode_of_changeNode rfl hu

/-- Rows that two lists of edits rewrite alike but for one place. -/
theorem rewriteRow_set_ok {edits others : List Edit} {path : List Nat} {cs us : Forest} {i : Nat}
    {t w : Tree} (hi : cs[i]? = some t) (hrow : rewriteRow edits path 0 cs = .ok us)
    (hother : ∀ j, j ≠ i → ∀ x : Tree,
      rewriteAt edits (path ++ [j]) x = rewriteAt others (path ++ [j]) x)
    (hw : rewriteAt others (path ++ [i]) t = .ok w) :
    rewriteRow others path 0 cs = .ok (us.set i w) := by
  obtain ⟨hlen, hrow⟩ := rewriteRow_eq_ok_iff.mp hrow
  refine rewriteRow_eq_ok_iff.mpr ⟨by simpa using hlen, fun j x y hx hy => ?_⟩
  rw [Nat.zero_add]
  by_cases hj : i = j
  · subst hj
    have hlt : i < us.length := hlen ▸ (List.getElem?_eq_some_iff.mp hi).1
    obtain rfl : w = y := by simpa [hlt] using hy
    obtain rfl : x = t := Option.some.inj (hx.symm.trans hi)
    exact hw
  · rw [List.getElem?_set_ne hj] at hy
    rw [← hother j (fun h => hj h.symm)]
    simpa using hrow j x y hx hy

theorem exists_of_rewriteRow {edits : List Edit} {path : List Nat} {cs us : Forest} {i : Nat}
    {t : Tree} (hi : cs[i]? = some t) (hrow : rewriteRow edits path 0 cs = .ok us) :
    ∃ u, us[i]? = some u ∧ rewriteAt edits (path ++ [i]) t = .ok u := by
  obtain ⟨hlen, hrow⟩ := rewriteRow_eq_ok_iff.mp hrow
  have hlt : i < us.length := hlen ▸ (List.getElem?_eq_some_iff.mp hi).1
  have hu : us[i]? = some us[i] := List.getElem?_eq_getElem hlt
  exact ⟨us[i], hu, by simpa using hrow i t us[i] hi hu⟩

/-- A change below a child changes that child. -/
theorem changeAt_cons_eq_ok_iff {edit : Edit} {k : Kind} {cs : Forest} {i : Nat}
    {below : List Nat} {t u : Tree} (hi : cs[i]? = some t) (ht : t.isNode = true) :
    changeAt edit (i :: below) (.node k cs) = .ok u ↔
      ∃ w, changeAt edit below t = .ok w ∧ u = .node k (cs.set i w) := by
  have hnode : (Syntax.Tree.node k cs).nodeAt? (i :: below) = t.nodeAt? below := by
    simp [Tree.nodeAt?, Tree.children, hi, ht]
  have hreplace (new : Tree) : (Syntax.Tree.node k cs).replaceAt (i :: below) new =
      .node k (cs.set i (t.replaceAt below new)) := by
    simp [Tree.replaceAt, Tree.withChildren, Tree.children, List.modify_eq_set_getElem?, hi]
  rw [changeAt, changeAt, hnode]
  cases h : t.nodeAt? below with
  | none => simp
  | some v =>
      simp only [hreplace, bind_eq_ok_iff, pure_eq_ok_iff]
      constructor
      · rintro ⟨new, hnew, rfl⟩
        exact ⟨_, ⟨new, hnew, rfl⟩, rfl⟩
      · rintro ⟨w, ⟨new, hnew, rfl⟩, rfl⟩
        exact ⟨new, hnew, rfl⟩

section

variable {done : List Edit} {edit : Edit} {path below : List Nat} {i : Nat}

/-- At the target itself a new change comes last, and nothing is new below it. -/
theorem rewriteAt_append_self_ok_iff {t u : Tree} (hnode : t.isNode = true) :
    rewriteAt (done ++ [edit]) edit.target.path t = .ok u ↔
      ∃ t', rewriteAt done edit.target.path t = .ok t' ∧ changeAt edit [] t' = .ok u := by
  obtain ⟨k, cs, rfl⟩ : ∃ k cs, t = .node k cs := by
    cases t with
    | node k cs => exact ⟨k, cs, rfl⟩
    | token k s => simp [Tree.isNode] at hnode
  have hrow : rewriteRow (done ++ [edit]) edit.target.path 0 cs =
      rewriteRow done edit.target.path 0 cs := by
    refine rewriteRow_congr (fun j below => ?_) 0 cs
    rw [recordedAt_append, recordedAt_singleton_of_ne (by simp), List.append_nil]
  simp only [rewriteAt, hrow, recordedAt_append, recordedAt_singleton_self, changeNode,
    List.foldlM_append, bind_eq_ok_iff, changeAt, Tree.nodeAt?_nil, Tree.replaceAt_nil]
  constructor
  · rintro ⟨us, hus, w, hw, hu⟩
    exact ⟨w, ⟨us, hus, hw⟩, by simpa using hu⟩
  · rintro ⟨w, ⟨us, hus, hw⟩, hu⟩
    exact ⟨us, hus, w, hw, by simpa using hu⟩

/-- A node above a target is higher than all targets that are as deep. -/
theorem recordedAt_eq_nil_of_above (hdepth : ∀ d ∈ done, edit.target.depth ≤ d.target.depth)
    (hpath : edit.target.path = path ++ i :: below) : recordedAt done path = [] := by
  refine List.filter_eq_nil_iff.mpr fun d hd heq => ?_
  have hlen := hdepth d hd
  rw [Tag.depth, Tag.depth, hpath, beq_iff_eq.mp heq, List.length_append, List.length_cons] at hlen
  omega

/-- Beside the way to the target nothing is new. -/
theorem rewriteAt_append_beside (hpath : edit.target.path = path ++ i :: below) {j : Nat}
    (hj : j ≠ i) (w : Tree) :
    rewriteAt (done ++ [edit]) (path ++ [j]) w = rewriteAt done (path ++ [j]) w := by
  refine rewriteAt_congr (fun rest => ?_) w
  have hne : edit.target.path ≠ path ++ [j] ++ rest := by
    rw [hpath, List.append_assoc]
    intro h
    have := List.append_cancel_left h
    simp at this
    exact hj this.1.symm
  rw [recordedAt_append, recordedAt_singleton_of_ne hne, List.append_nil]

/-- One more edit, whose target is not below that of an earlier one, is made
after the rewrite of all the others. -/
theorem rewriteAt_append_ok_iff (hdepth : ∀ d ∈ done, edit.target.depth ≤ d.target.depth)
    (path : List Nat) {below : List Nat} (hpath : edit.target.path = path ++ below) {t u v : Tree}
    (hv : t.nodeAt? below = some v) (hnode : v.isNode = true) :
    rewriteAt (done ++ [edit]) path t = .ok u ↔
      ∃ t', rewriteAt done path t = .ok t' ∧ changeAt edit below t' = .ok u := by
  induction below generalizing path t u with
  | nil =>
      obtain rfl : t = v := by simpa using hv
      obtain rfl : edit.target.path = path := by simpa using hpath
      exact rewriteAt_append_self_ok_iff hnode
  | cons i below ih =>
      obtain ⟨t₁, ht₁, ht₁node, hsub⟩ := Tree.nodeAt?_cons_eq_some.mp hv
      obtain ⟨k, cs, rfl⟩ : ∃ k cs, t = .node k cs := by
        cases t with
        | node k cs => exact ⟨k, cs, rfl⟩
        | token k s => simp [Tree.children] at ht₁
      have hcs : cs[i]? = some t₁ := ht₁
      have hdone : recordedAt done path = [] := recordedAt_eq_nil_of_above hdepth hpath
      have hboth : recordedAt (done ++ [edit]) path = [] := by
        rw [recordedAt_append, hdone, recordedAt_singleton_of_ne (by simp [hpath])]
        rfl
      have hother (j : Nat) (hj : j ≠ i) (w : Tree) :
          rewriteAt (done ++ [edit]) (path ++ [j]) w = rewriteAt done (path ++ [j]) w :=
        rewriteAt_append_beside hpath hj w
      have hone (w : Tree) := ih (u := w) (path ++ [i]) (by rw [hpath]; simp) hsub
      rw [rewriteAt_node_eq_ok_iff hboth]
      constructor
      · rintro ⟨us, hus, rfl⟩
        obtain ⟨w, hw, hrewrite⟩ := exists_of_rewriteRow hcs hus
        obtain ⟨t₁', ht₁', hchange⟩ := (hone w).mp hrewrite
        have hrow := rewriteRow_set_ok hcs hus hother ht₁'
        have hlt : i < us.length := (List.getElem?_eq_some_iff.mp hw).1
        refine ⟨.node k (us.set i t₁'), (rewriteAt_node_eq_ok_iff hdone).mpr ⟨_, hrow, rfl⟩, ?_⟩
        refine (changeAt_cons_eq_ok_iff (List.getElem?_set_self hlt)
          (isNode_of_rewriteAt ht₁node ht₁')).mpr ⟨w, hchange, ?_⟩
        rw [List.set_set, ← (List.getElem?_eq_some_iff.mp hw).2, List.set_getElem_self]
      · rintro ⟨t', ht', hchange⟩
        obtain ⟨us, hus, rfl⟩ := (rewriteAt_node_eq_ok_iff hdone).mp ht'
        obtain ⟨t₁', ht₁', hrewrite⟩ := exists_of_rewriteRow hcs hus
        obtain ⟨w, hw, rfl⟩ := (changeAt_cons_eq_ok_iff ht₁'
          (isNode_of_rewriteAt ht₁node hrewrite)).mp hchange
        have hlast : rewriteAt (done ++ [edit]) (path ++ [i]) t₁ = .ok w :=
          (hone w).mpr ⟨t₁', hrewrite, hw⟩
        exact ⟨_, rewriteRow_set_ok hcs hus (fun j hj x => (hother j hj x).symm) hlast, rfl⟩

end

/-- Edits from the deepest target up, made one after the other, are the rewrite. -/
theorem rewrite_append_ok_iff {root : Tree} (done rest : List Edit) {u : Tree}
    (hsorted : (done ++ rest).Pairwise fun a b => b.target.depth ≤ a.target.depth)
    (hnode : ∀ edit ∈ rest, ∃ v, root.nodeAt? edit.target.path = some v ∧ v.isNode = true) :
    rewrite (done ++ rest) root = .ok u ↔
      ∃ t, rewrite done root = .ok t ∧ makeAll rest t = .ok u := by
  induction rest generalizing done u with
  | nil => simp [makeAll]
  | cons edit rest ih =>
      have hsplit : done ++ edit :: rest = (done ++ [edit]) ++ rest := by simp
      have hdepth : ∀ d ∈ done, edit.target.depth ≤ d.target.depth := fun d hd =>
        (List.pairwise_append.mp hsorted).2.2 d hd edit List.mem_cons_self
      obtain ⟨v, hv, hvnode⟩ := hnode edit List.mem_cons_self
      have hone (t : Tree) := rewriteAt_append_ok_iff hdepth [] rfl hv hvnode (u := t)
      rw [hsplit] at hsorted ⊢
      rw [ih _ hsorted fun e he => hnode e (List.mem_cons_of_mem _ he)]
      simp only [rewrite, hone, makeAll, List.foldlM_cons, bind_eq_ok_iff]
      constructor
      · rintro ⟨t, ⟨t', ht', hchange⟩, hrest⟩
        exact ⟨t', ht', t, hchange, hrest⟩
      · rintro ⟨t', ht', t, hchange, hrest⟩
        exact ⟨t, ⟨t', ht', hchange⟩, hrest⟩

/-! ## Targets are found again -/

/-- An edit to be made finds a node at its path, and of the kind it looks for. -/
def Pending (state : EditState) (edit : Edit) : Prop :=
  (state.tree.nodeAt? edit.target.path).map Tree.kind =
    some ((state.replaced.lookup edit.target.path).getD edit.target.kind)

/-- An edit whose target is found changes it and fails only with its change. -/
theorem step_of_pending {state : EditState} {edit : Edit} (h : Pending state edit) :
    ∃ v, state.tree.nodeAt? edit.target.path = some v ∧
      step state edit = do
        let new ← edit.change v
        return ⟨state.tree.replaceAt edit.target.path new,
          (edit.target.path, new.kind) :: state.replaced⟩ := by
  obtain ⟨v, hv, hkind⟩ := Option.map_eq_some_iff.mp h
  obtain ⟨c, hc, rfl⟩ : ∃ c, (Cursor.root state.tree).at? edit.target.path = some c ∧
      c.focus = v := by
    have hfocus := (Cursor.root state.tree).focus_at? edit.target.path
    rw [Cursor.focus, hv] at hfocus
    exact Option.map_eq_some_iff.mp hfocus
  have hfound : edit.target.findKind? (.root state.tree)
      ((state.replaced.lookup edit.target.path).getD edit.target.kind) = some c := by
    simp [Tag.findKind?, hc, Option.filter, Cursor.kind, hkind]
  refine ⟨c.focus, hv, ?_⟩
  simp only [step, hfound, Cursor.replaceWith_of_at? hc]
  rfl

/-- A step leaves the targets of edits that are not deeper where they are. -/
theorem pending_of_step {state next : EditState} {edit later : Edit}
    (hdepth : later.target.depth ≤ edit.target.depth) (hedit : Pending state edit)
    (hlater : Pending state later) (h : step state edit = .ok next) : Pending next later := by
  obtain ⟨v, hv, hstep⟩ := step_of_pending hedit
  obtain ⟨new, _, hnext⟩ := bind_eq_ok_iff.mp (hstep ▸ h)
  obtain rfl := pure_eq_ok_iff.mp hnext
  by_cases hpath : later.target.path = edit.target.path
  · simp only [Pending, hpath, List.lookup_cons_self, Option.getD_some]
    rw [Tree.nodeAt?_replaceAt_self rfl hv]
    rfl
  · simp only [Pending, List.lookup_cons, beq_eq_false_iff_ne.mpr hpath]
    rw [Tree.kind_nodeAt?_replaceAt hdepth hpath]
    exact hlater

/-- Edits from the deepest target up find all their targets: the run is the one
that goes by paths alone. -/
theorem foldlM_step_of_pending {edits : List Edit} {state : EditState}
    (hsorted : edits.Pairwise fun a b => b.target.depth ≤ a.target.depth)
    (hpending : ∀ edit ∈ edits, Pending state edit) :
    (do return (← edits.foldlM step state).tree) = makeAll edits state.tree := by
  induction edits generalizing state with
  | nil => rfl
  | cons edit edits ih =>
      obtain ⟨hfirst, hsorted⟩ := List.pairwise_cons.mp hsorted
      have hedit := hpending edit List.mem_cons_self
      obtain ⟨v, hv, hstep⟩ := step_of_pending hedit
      simp only [List.foldlM_cons, makeAll, changeAt, hv, hstep]
      cases hnew : edit.change v with
      | error e => rfl
      | ok new =>
          have hnext : step state edit = .ok ⟨state.tree.replaceAt edit.target.path new,
              (edit.target.path, new.kind) :: state.replaced⟩ := by rw [hstep, hnew]; rfl
          exact ih hsorted fun later hlater => pending_of_step (hfirst later hlater) hedit
            (hpending later (List.mem_cons_of_mem _ hlater)) hnext

/-- An error of a run by paths is the error of a change, if every target is there. -/
theorem error_of_foldlM_step {edits : List Edit} {state : EditState} {e : EditError}
    (hsorted : edits.Pairwise fun a b => b.target.depth ≤ a.target.depth)
    (hpending : ∀ edit ∈ edits, Pending state edit) (h : edits.foldlM step state = .error e) :
    ∃ edit ∈ edits, ∃ node, edit.change node = .error e := by
  induction edits generalizing state with
  | nil => simp at h
  | cons edit edits ih =>
      obtain ⟨hfirst, hsorted⟩ := List.pairwise_cons.mp hsorted
      have hedit := hpending edit List.mem_cons_self
      rcases bind_eq_error_iff.mp (by simpa only [List.foldlM_cons] using h) with h | ⟨next, hn, h⟩
      · obtain ⟨v, _, hstep⟩ := step_of_pending hedit
        rcases bind_eq_error_iff.mp (hstep ▸ h) with h | ⟨_, _, h⟩
        · exact ⟨edit, List.mem_cons_self, v, h⟩
        · exact absurd h pure_ne_error
      · obtain ⟨later, hlater, he⟩ := ih hsorted (fun later hlater =>
          pending_of_step (hfirst later hlater) hedit
            (hpending later (List.mem_cons_of_mem _ hlater)) hn) h
        exact ⟨later, List.mem_cons_of_mem _ hlater, he⟩

/-! ## Recording order -/

theorem deepestFirst_sorted (edits : List Edit) :
    (deepestFirst edits).Pairwise fun a b => b.target.depth ≤ a.target.depth := by
  have h : (deepestFirst edits).Pairwise fun a b => decide (b.target.depth ≤ a.target.depth) :=
    List.pairwise_mergeSort (by intro a b c; simp; omega) (by intro a b; simp; omega) edits
  exact h.imp (by simp)

/-- Sorting keeps the order of the edits of one node. -/
theorem recordedAt_deepestFirst (edits : List Edit) (path : List Nat) :
    recordedAt (deepestFirst edits) path = recordedAt edits path := by
  have hperm : (deepestFirst edits).Perm edits := List.mergeSort_perm ..
  have hlevel : (recordedAt edits path).Pairwise
      fun a b => decide (b.target.depth ≤ a.target.depth) := by
    refine List.pairwise_iff_forall_sublist.mpr fun {a b} hab => ?_
    have ha := (List.mem_filter.mp (hab.subset List.mem_cons_self)).2
    have hb := (List.mem_filter.mp (hab.subset (List.mem_cons_of_mem _ List.mem_cons_self))).2
    simp [Tag.depth, beq_iff_eq.mp ha, beq_iff_eq.mp hb]
  have hsub : (recordedAt edits path).Sublist (deepestFirst edits) :=
    List.sublist_mergeSort (by intro a b c; simp; omega) (by intro a b; simp; omega) hlevel
      List.filter_sublist
  have hsub' : (recordedAt edits path).Sublist (recordedAt (deepestFirst edits) path) := by
    have := hsub.filter (·.target.path == path)
    simpa [recordedAt] using this
  exact (hsub'.eq_of_length (hperm.filter _).length_eq.symm).symm

/-! ## The edits of a document -/

theorem find?_of_captured {root : Tree} {c : Cursor} (h : c ∈ (Cursor.root root).nodes) :
    (Tag.of c).find? (.root root) = some c := by
  simp [Tag.find?, Tag.findKind?, Tag.of, Cursor.at?_root_of_mem_nodes h, Option.filter]

/-- Every target of an edit is a node of the tree, as it was when it was recorded. -/
def CapturedFrom (root : Tree) (edits : List Edit) : Prop :=
  ∀ edit ∈ edits, ∃ c ∈ (Cursor.root root).nodes, edit.target = Tag.of c

theorem pending_of_captured {root : Tree} {edits : List Edit} (h : CapturedFrom root edits) :
    ∀ edit ∈ deepestFirst edits, Pending ⟨root, []⟩ edit := by
  intro edit hedit
  obtain ⟨c, hc, htarget⟩ := h edit (List.mem_mergeSort.mp hedit)
  have hfocus := (Cursor.root root).focus_at? c.path
  rw [Cursor.at?_root_of_mem_nodes hc] at hfocus
  simp only [Pending, htarget, Tag.of, List.lookup_nil, Option.getD_none]
  rw [← show _ = root.nodeAt? c.path from hfocus]
  rfl

/-- With all targets in the tree, only the run itself is left. -/
theorem applyToTree_of_captured {root : Tree} {edits : List Edit} (h : CapturedFrom root edits) :
    applyToTree edits root = do return (← (deepestFirst edits).foldlM step ⟨root, []⟩).tree := by
  have hfind : (edits.find? fun edit => (edit.target.find? (.root root)).isNone) = none := by
    refine List.find?_eq_none.mpr fun edit hedit => ?_
    obtain ⟨c, hc, htarget⟩ := h edit hedit
    simp [htarget, find?_of_captured hc]
  simp only [applyToTree, hfind]

theorem applyToTree_ok_iff_rewrite {root : Tree} {edits : List Edit} (h : CapturedFrom root edits)
    (tree : Tree) : applyToTree edits root = .ok tree ↔ rewrite edits root = .ok tree := by
  have hnode : ∀ edit ∈ deepestFirst edits,
      ∃ v, root.nodeAt? edit.target.path = some v ∧ v.isNode = true := by
    intro edit hedit
    obtain ⟨c, hc, htarget⟩ := h edit (List.mem_mergeSort.mp hedit)
    have hfocus := (Cursor.root root).focus_at? c.path
    rw [Cursor.at?_root_of_mem_nodes hc] at hfocus
    exact ⟨c.focus, htarget ▸ hfocus.symm, (List.mem_filter.mp hc).2⟩
  have hsort : rewrite edits root = rewrite (deepestFirst edits) root :=
    rewriteAt_congr (fun below => (recordedAt_deepestFirst edits _).symm) root
  have happend : rewrite (deepestFirst edits) root = .ok tree ↔ _ :=
    rewrite_append_ok_iff [] (deepestFirst edits) (deepestFirst_sorted edits) hnode
  rw [applyToTree_of_captured h,
    foldlM_step_of_pending (deepestFirst_sorted edits) (pending_of_captured h), hsort]
  rw [happend]
  simp [rewrite, rewriteAt_nil]

/-- In a tree the path of a target tells the whole target. -/
theorem recordedAt_of_mem_nodes {root : Tree} {edits : List Edit} (h : CapturedFrom root edits)
    {c : Cursor} (hc : c ∈ (Cursor.root root).nodes) :
    recordedAt edits c.path = edits.filter (·.target == Tag.of c) := by
  refine List.filter_congr fun edit hedit => ?_
  obtain ⟨d, hd, htarget⟩ := h edit hedit
  have hiff : edit.target.path = c.path ↔ edit.target = Tag.of c := by
    constructor
    · intro hpath
      have hcd : some c = some d := by
        rw [← Cursor.at?_root_of_mem_nodes hc, ← Cursor.at?_root_of_mem_nodes hd, ← hpath, htarget]
        rfl
      rw [htarget, Option.some.inj hcd]
    · intro heq
      rw [heq]
      rfl
  rw [Bool.eq_iff_iff, beq_iff_eq, beq_iff_eq, hiff]

theorem captured_of_same_targets {root : Tree} {edits others : List Edit}
    (hcaptured : CapturedFrom root edits)
    (h : ∀ tag, others.filter (·.target == tag) = edits.filter (·.target == tag)) :
    CapturedFrom root others := by
  intro edit hedit
  have hmem : edit ∈ edits.filter (·.target == edit.target) := by
    rw [← h]
    exact List.mem_filter.mpr ⟨hedit, beq_self_eq_true _⟩
  exact hcaptured edit (List.mem_filter.mp hmem).1

theorem recordedAt_of_same_targets {root : Tree} {edits others : List Edit}
    (hcaptured : CapturedFrom root edits)
    (h : ∀ tag, others.filter (·.target == tag) = edits.filter (·.target == tag))
    (path : List Nat) : recordedAt others path = recordedAt edits path := by
  have hothers := captured_of_same_targets hcaptured h
  by_cases hpath : ∃ c ∈ (Cursor.root root).nodes, c.path = path
  · obtain ⟨c, hc, rfl⟩ := hpath
    rw [recordedAt_of_mem_nodes hothers hc, recordedAt_of_mem_nodes hcaptured hc, h]
  · have hnone {list : List Edit} (hlist : CapturedFrom root list) : recordedAt list path = [] := by
      refine List.filter_eq_nil_iff.mpr fun edit hedit heq => ?_
      obtain ⟨c, hc, htarget⟩ := hlist edit hedit
      exact hpath ⟨c, hc, by rw [← beq_iff_eq.mp heq, htarget]; rfl⟩
    rw [hnone hothers, hnone hcaptured]

/-- The edits of a document are one rewrite from the leaves up. If every target
was captured from the tree, the run finds each of them again, so that no error
but that of a change comes out of it; it succeeds exactly when the rewrite does,
with the same tree; and recording the edits in another order that keeps the
order of those with the same target makes no difference. -/
theorem applyToTree_simultaneous (root : Tree) (edits : List Edit)
    (captured : CapturedFrom root edits) :
    (∀ e, applyToTree edits root = .error e →
      ∃ edit ∈ edits, ∃ node, edit.change node = .error e) ∧
    (∀ tree, applyToTree edits root = .ok tree ↔ rewrite edits root = .ok tree) ∧
    ∀ reordered : List Edit,
      (∀ tag, reordered.filter (·.target == tag) = edits.filter (·.target == tag)) →
      ∀ tree, applyToTree reordered root = .ok tree ↔ applyToTree edits root = .ok tree := by
  refine ⟨fun e he => ?_, applyToTree_ok_iff_rewrite captured, fun reordered hsame tree => ?_⟩
  · rw [applyToTree_of_captured captured] at he
    have hrun : (deepestFirst edits).foldlM step ⟨root, []⟩ = .error e := by simpa using he
    obtain ⟨edit, hedit, herror⟩ := error_of_foldlM_step (deepestFirst_sorted edits)
      (pending_of_captured captured) hrun
    exact ⟨edit, List.mem_mergeSort.mp hedit, herror⟩
  · rw [applyToTree_ok_iff_rewrite (captured_of_same_targets captured hsame),
      applyToTree_ok_iff_rewrite captured]
    have hcongr : rewrite reordered root = rewrite edits root :=
      rewriteAt_congr (fun below => recordedAt_of_same_targets captured hsame _) root
    rw [hcongr]

/-- A parameter that is edited after its type, although it was recorded first; the
type is changed twice and is of another kind in between. -/
theorem applyToTree_simultaneous_nested :
    let type : Tree := .node .predefinedType [.token .intKw "int"]
    let root : Tree := .node .parameter [type, .token .identifier "a"]
    let typeTag := Tag.of (.child (.root root) 0 0 type)
    let edits : List Edit := [
      ⟨0, Tag.of (.root root), NodeChange.insert 1 [.token .whitespace " "]⟩,
      ⟨0, typeTag, NodeChange.replaceWith ⟨.identifierName, [.token .identifier "T"]⟩⟩,
      ⟨0, typeTag, fun t => .ok ⟨.nullableType, [t, .token .question "?"]⟩⟩]
    CapturedFrom root edits ∧ applyToTree edits root = .ok (.node .parameter [
      .node .nullableType [.node .identifierName [.token .identifier "T"], .token .question "?"],
      .token .whitespace " ", .token .identifier "a"]) := by
  intro type root typeTag edits
  have hcaptured : CapturedFrom root edits := by
    intro edit hedit
    simp only [edits, List.mem_cons, List.not_mem_nil, or_false] at hedit
    rcases hedit with rfl | rfl | rfl
    · exact ⟨.root root, by simp [root, Cursor.nodes, Cursor.preorder, Cursor.preorderAt, Cursor.focus,
        Cursor.isNode, Tree.isNode], rfl⟩
    all_goals exact ⟨.child (.root root) 0 0 type, by simp [root, type, Cursor.nodes,
      Cursor.preorder, Cursor.preorderAt, Cursor.preorderRow, Cursor.focus, Cursor.isNode,
      Cursor.start, Tree.isNode], rfl⟩
  exact ⟨hcaptured, ((applyToTree_simultaneous root edits hcaptured).2.1 _).mpr rfl⟩

end CSharpKit.Refactor.Edit
