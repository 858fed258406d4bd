import CSharpKit.Proofs.Refactor.Splicing

/-!
# A node in place of another

A node is looked up and replaced by its path. Reading a path and putting a node there are a lens:
what was put is read, what was read can be put back, and of two nodes put at one path the second
counts. Beside the path no node changes, and in the text the new node takes the stretch of the
old one.
-/

namespace CSharpKit.Syntax

open Text

namespace Tree

variable {t v new : Tree} {path other : List Nat}

@[simp] theorem withChildren_children (t : Tree) : t.withChildren t.children = t := by
  cases t <;> rfl

/-- Below its root a replacement leaves a node a node. -/
theorem isNode_replaceAt_cons (t : Tree) (i : Nat) (path : List Nat) (new : Tree) :
    (t.replaceAt (i :: path) new).isNode = t.isNode := isNode_withChildren ..

/-- What stands at a path can be put there again. -/
theorem replaceAt_nodeAt? (h : t.nodeAt? path = some v) : t.replaceAt path v = t := by
  induction path generalizing t with
  | nil => exact (Option.some.inj h).symm
  | cons i path ih =>
      obtain ⟨u, hu, -, hv⟩ := nodeAt?_cons_eq_some.mp h
      have hsame : t.children.modify i (fun u => u.replaceAt path v) = t.children := by
        obtain ⟨hi, rfl⟩ := List.getElem?_eq_some_iff.mp hu
        rw [List.modify_eq_set_getElem?, hu]
        show t.children.set i (t.children[i].replaceAt path v) = t.children
        rw [ih hv, List.set_getElem_self hi]
      rw [replaceAt, hsame, withChildren_children]

/-- Of two trees put at one path the second counts. -/
theorem replaceAt_replaceAt (t : Tree) (path : List Nat) (new again : Tree) :
    (t.replaceAt path new).replaceAt path again = t.replaceAt path again := by
  induction path generalizing t with
  | nil => rfl
  | cons i path ih =>
      cases t with
      | token k s => rfl
      | node k cs =>
          have hmodify : (cs.modify i fun u => u.replaceAt path new).modify i
              (fun u => u.replaceAt path again) = cs.modify i fun u => u.replaceAt path again := by
            rw [List.modify_modify_eq]
            congr 1
            funext u
            exact ih u
          simp only [replaceAt, withChildren, children, hmodify]

/-- A path that neither leads through the replaced place nor ends above it leads to the same
node. -/
theorem nodeAt?_replaceAt_beside (h : ¬path <+: other) (h' : ¬other <+: path) :
    (t.replaceAt path new).nodeAt? other = t.nodeAt? other := by
  induction path generalizing t other with
  | nil => exact absurd List.nil_prefix h
  | cons i path ih =>
      cases other with
      | nil => exact absurd List.nil_prefix h'
      | cons j other =>
          cases t with
          | token k s => rfl
          | node k cs =>
              simp only [replaceAt, withChildren, children, nodeAt?, List.getElem?_modify]
              by_cases hij : i = j
              · subst hij
                simp only [List.cons_prefix_cons, true_and] at h h'
                -- The replacement is made below this child, so the child stays a node.
                cases path with
                | nil => exact absurd List.nil_prefix h
                | cons l path =>
                    cases hu : cs[i]? with
                    | none => rfl
                    | some u => simp [isNode_replaceAt_cons, ih h h']
              · cases hu : cs[j]? with
                | none => simp
                | some u => simp [hij]

/-- Where a child is replaced, the texts of those before and behind it stay. -/
theorem text_modify {k : Kind} {cs : Forest} {i : Nat} {u : Tree} (h : cs[i]? = some u)
    (f : Tree → Tree) : (node k (cs.modify i f)).text =
      forestText (cs.take i) ++ (f u).text ++ forestText (cs.drop (i + 1)) := by
  obtain ⟨hi, rfl⟩ := List.getElem?_eq_some_iff.mp h
  apply String.toList_injective
  rw [text_node, List.modify_eq_take_cons_drop hi, toList_forestText_append,
    toList_forestText_cons, String.toList_append, String.toList_append, List.append_assoc]

theorem utf8ByteSize_forestText (ts : Forest) : (forestText ts).utf8ByteSize = forestWidth ts := by
  rw [← byteLength_toList, byteLength_forestText]

end Tree

namespace Cursor

open Tree

variable {t : Tree} {c d : Cursor}

/-- The text of a tree before and behind a node does not depend on the node. -/
theorem exists_text_replaceAt {path : List Nat} (h : c.at? path = some d) :
    ∃ before behind : String, c.start + before.utf8ByteSize = d.start ∧
      ∀ new, (c.focus.replaceAt path new).text = before ++ new.text ++ behind := by
  induction path generalizing c with
  | nil =>
      obtain rfl : c = d := Option.some.inj h
      exact ⟨"", "", by simp, fun new => by simp⟩
  | cons i path ih =>
      obtain ⟨u, hu, -, hd⟩ := at?_cons_eq_some.mp h
      obtain ⟨before, behind, hstart, htext⟩ := ih hd
      simp only [focus_child] at htext
      cases hc : c.focus with
      | token k s => simp [hc, Tree.children] at hu
      | node k cs =>
          rw [hc] at hu hstart
          replace hu : cs[i]? = some u := hu
          replace hstart : c.start + forestWidth (cs.take i) + before.utf8ByteSize = d.start :=
            hstart
          refine ⟨forestText (cs.take i) ++ before, behind ++ forestText (cs.drop (i + 1)), ?_,
            fun new => ?_⟩
          · rw [String.utf8ByteSize_append, utf8ByteSize_forestText, ← hstart, Nat.add_assoc]
          · show (node k (cs.modify i fun u => u.replaceAt path new)).text = _
            rw [text_modify hu, htext new]
            simp only [String.append_assoc]

/-- A node of a tree is the focus at its path. -/
theorem nodeAt?_path (h : d ∈ (root t).nodes) : t.nodeAt? d.path = some d.focus := by
  have hfocus := (root t).focus_at? d.path
  rw [at?_root_of_mem_nodes h] at hfocus
  exact hfocus.symm

/-- A node of a tree is replaced at its path. -/
theorem replaceWith_eq (h : d ∈ (root t).nodes) (new : Tree) :
    d.replaceWith new = t.replaceAt d.path new :=
  replaceWith_of_at? (at?_root_of_mem_nodes h) new

/-- What a tree is after another node came in the place of one of its nodes. -/
structure Replaced (t : Tree) (c : Cursor) (new : Node) (r : Tree) : Prop where
  found : ((root r).at? c.path).map focus = some new.tree
  /-- A path beside that of the node leads to what it led to, or still leads nowhere. -/
  beside : ∀ path, ¬c.path <+: path → ¬path <+: c.path →
    ((root r).at? path).map focus = ((root t).at? path).map focus
  text : ∃ before behind : String, before.utf8ByteSize = c.start ∧
    t.text = before ++ c.text ++ behind ∧ r.text = before ++ new.tree.text ++ behind

theorem replaced_replaceWith (hc : c ∈ (root t).nodes) (new : Node) :
    Replaced t c new (c.replaceWith new) := by
  have hfound : t.nodeAt? c.path = some c.focus := nodeAt?_path hc
  rw [replaceWith_eq hc]
  refine ⟨?_, fun path h h' => ?_, ?_⟩
  · rw [focus_at?]
    exact nodeAt?_replaceAt_self rfl hfound
  · rw [focus_at?, focus_at?]
    exact nodeAt?_replaceAt_beside h h'
  · obtain ⟨before, behind, hstart, htext⟩ := exists_text_replaceAt (at?_root_of_mem_nodes hc)
    refine ⟨before, behind, by simpa [start] using hstart, ?_, htext new⟩
    have hold := htext c.focus
    rwa [focus, replaceAt_nodeAt? hfound] at hold

/-- No two nodes of a tree have the same path. -/
theorem nodup_map_path (t : Tree) : ((root t).nodes.map path).Nodup := by
  refine List.Nodup.map_on (fun c hc d hd hpath => ?_) (nodup_nodes _)
  have hfound := at?_root_of_mem_nodes hc
  rw [hpath, at?_root_of_mem_nodes hd] at hfound
  exact (Option.some.inj hfound).symm

/-- **Replacement.** A node of a tree is found by its path, and no two nodes have the same path. If
the node is replaced by itself, the tree is as it was. If it is replaced by any node, this one is
found by the path, what is found by paths beside it stays, and its text stands between the text
before the old node and the text behind it. If what is found there is replaced as well, the tree
is the one of the second replacement alone. -/
theorem replaceWith_lens {t : Tree} {c : Cursor} (hc : c ∈ (root t).nodes) :
    (root t).at? c.path = some c ∧
    ((root t).nodes.map path).Nodup ∧
    c.replaceWith c.focus = t ∧
    ∀ new : Node, Replaced t c new (c.replaceWith new) ∧
      ∀ d, (root (c.replaceWith new)).at? c.path = some d →
        ∀ again : Node, d.replaceWith again = c.replaceWith again := by
  refine ⟨at?_root_of_mem_nodes hc, nodup_map_path t, ?_, fun new =>
    ⟨replaced_replaceWith hc new, fun d hd again => ?_⟩⟩
  · rw [replaceWith_eq hc, replaceAt_nodeAt? (nodeAt?_path hc)]
  · rw [replaceWith_of_at? hd, replaceWith_eq hc, replaceWith_eq hc]
    exact replaceAt_replaceAt t c.path new again

/-- The arguments `(a, a)`. -/
def twinArguments : Tree :=
  let argument : Tree := .node .argument [.node .identifierName [.token .identifier "a"]]
  .node .argumentList [.token .lParen "(", argument, .token .comma ",", .token .whitespace " ",
    argument, .token .rParen ")"]

/-- The access `b.c`. -/
def accessNode : Node :=
  ⟨.memberAccessExpression, [.node .identifierName [.token .identifier "b"], .token .dot ".",
    .node .identifierName [.token .identifier "c"]]⟩

/-- The second of two names that are alike is replaced by a longer construct. -/
theorem replaceWith_lens_twin : ∃ c ∈ (root twinArguments).nodes,
    c.path = [4, 0] ∧ c.start = 4 ∧ (root twinArguments).at? [4, 0] = some c ∧
    c.replaceWith c.focus = twinArguments ∧
    Replaced twinArguments c accessNode (c.replaceWith accessNode) ∧
    (c.replaceWith accessNode).text = "(a, b.c)" := by
  obtain ⟨c, hc, hpath, hstart, htext⟩ : ∃ c, (root twinArguments).nodes[4]? = some c ∧
      c.path = [4, 0] ∧ c.start = 4 ∧ (c.replaceWith accessNode).text = "(a, b.c)" :=
    ⟨_, rfl, rfl, by decide, by decide⟩
  have hmem := List.mem_of_getElem? hc
  obtain ⟨hat, -, hsame, hnew⟩ := replaceWith_lens hmem
  exact ⟨c, hmem, hpath, hstart, hpath ▸ hat, hsame, (hnew accessNode).1, htext⟩

end Cursor

end CSharpKit.Syntax
