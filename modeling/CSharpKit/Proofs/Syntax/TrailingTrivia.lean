import CSharpKit.Proofs.Syntax.CleanTypes
import CSharpKit.Proofs.Syntax.Complaints
import CSharpKit.Proofs.Syntax.Places
import CSharpKit.Proofs.Text.LinePlaces

/-!
# Trivia behind type arguments

In the tree of a type that is written without a mistake, trivia and then a comma or a closing
bracket stand behind each type argument. The same trivia stand in the text at the position
where the argument ends, and the block comments among them are closed, as the text goes on.
-/

namespace CSharpKit.Syntax

open Syntax.Tree CSharpKit.Syntax.Parser

/-! ## Block comments -/

namespace Token

/-- A block comment with what it says between its marks. -/
def commentText (body : String) : String := "/*" ++ body ++ "*/"

section

variable {lineStart : Bool} {c : Char} {cs rest : List Char} {n : Nat}

theorem commentTail_closed (h : cs.drop (commentTail cs) ≠ []) :
    ∃ body, cs.take (commentTail cs) = body ++ ['*', '/'] := by
  fun_induction commentTail cs with
  | case1 => exact absurd rfl h
  | case2 => exact ⟨[], rfl⟩
  | case3 c rest _ ih =>
      obtain ⟨body, hbody⟩ := ih (by simpa using h)
      exact ⟨c :: body, by simp [hbody]⟩

theorem scanComment_closed (h : scanComment rest = some (.multiLineComment, n))
    (hrest : rest.drop n ≠ []) : ∃ body, rest.take n = '*' :: (body ++ ['*', '/']) := by
  unfold scanComment at h
  split at h
  case h_3 more =>
    obtain ⟨-, rfl⟩ := Prod.mk.inj (Option.some.inj h)
    exact ⟨[], rfl⟩
  case h_5 body _ _ =>
    obtain ⟨-, rfl⟩ := Prod.mk.inj (Option.some.inj h)
    obtain ⟨inner, hinner⟩ := @commentTail_closed body (by simpa using hrest)
    exact ⟨inner, by simp [hinner]⟩
  all_goals cases h

theorem scan_comment_closed (h : scan lineStart c rest = (.multiLineComment, n))
    (hrest : rest.drop n ≠ []) : ∃ body, String.ofList (c :: rest.take n) = commentText body := by
  rcases cases_of_scan_trivia rfl h with hblank | ⟨rfl, rfl⟩ | ⟨rfl, hcomment⟩
  · rw [scan_blank hblank] at h
    cases h
  · rw [scan_directive] at h
    cases h
  · obtain ⟨body, hbody⟩ := scanComment_closed hcomment hrest
    refine ⟨String.ofList body, String.toList_injective ?_⟩
    simp [commentText, hbody]

end

/-- A block comment is closed if it is not what the text ends with. -/
theorem comment_closed (lineStart : Bool) (start : Nat) (cs : List Char) {t next : Token}
    (ht : t.kind = .multiLineComment) (hnext : next.kind ≠ .eof) :
    ∀ before behind, lexFrom lineStart start cs = before ++ t :: next :: behind →
      ∃ body, t.text = commentText body := by
  fun_induction lexFrom lineStart start cs with
  | case1 =>
      intro before behind h
      have hlength := congrArg List.length h
      simp at hlength
      omega
  | case2 lineStart start c rest kind n hscan chars token ih =>
      intro before behind h
      cases before with
      | cons u before => exact ih before behind (List.cons.inj h).2
      | nil =>
          obtain ⟨rfl, hmore⟩ := List.cons.inj h
          obtain rfl : kind = .multiLineComment := ht
          refine scan_comment_closed hscan fun hend => ?_
          rw [hend, lexFrom] at hmore
          obtain rfl := (List.cons.inj hmore).1
          exact hnext rfl

theorem comment_closed_of_contents {text : String} {before behind : List Token} {t : Token}
    (h : contents text = before ++ t :: behind) (hbehind : behind ≠ [])
    (ht : t.kind = .multiLineComment) : ∃ body, t.text = commentText body := by
  obtain ⟨last, hlex, -, -, hscanned⟩ := lex_eq_contents text
  obtain ⟨next, behind, rfl⟩ := List.exists_cons_of_ne_nil hbehind
  have hnext := (hscanned next (by simp [h])).kind_ne_eof
  rw [h, List.append_assoc] at hlex
  exact comment_closed true 0 text.toList ht hnext before _ hlex

end Token

/-! ## Rows with delimiters -/

namespace Tree

/-- Behind each node of a row stand trivia, and then a token that is none. -/
inductive Delimited : Forest → Prop
  | nil : Delimited []
  | token {k : Kind} {text : String} {f : Forest} (hf : Delimited f) :
      Delimited (.token k text :: f)
  | node {t : Tree} {g f : Forest} {k : Kind} {text : String} (hg : IsGap g)
      (hk : k.isTrivia = false) (hf : Delimited (g ++ .token k text :: f)) :
      Delimited (t :: (g ++ .token k text :: f))

namespace Delimited

variable {f g c : Forest} {t : Tree} {k : Kind}

theorem gap_append (hg : IsGap g) (hf : Delimited f) : Delimited (g ++ f) := by
  induction g with
  | nil => exact hf
  | cons t g ih =>
      obtain ⟨k, text, rfl, -⟩ := hg t List.mem_cons_self
      exact .token (ih fun t ht => hg t (List.mem_cons_of_mem _ ht))

theorem terminal_append (hc : Terminal k c) (hf : Delimited f) : Delimited (c ++ f) := by
  obtain ⟨g, text, hg, rfl⟩ := hc
  rw [List.append_assoc]
  exact gap_append hg (.token hf)

theorem node_terminal (t : Tree) (hc : Terminal k c) (hk : k.isTrivia = false) (hf : Delimited f) :
    Delimited (t :: (c ++ f)) := by
  have hrow := terminal_append hc hf
  obtain ⟨g, text, hg, rfl⟩ := hc
  rw [List.append_assoc] at hrow ⊢
  exact .node hg hk hrow

/-- What stands behind a node of a row. -/
theorem behind {front behind : Forest} (h : Delimited (front ++ t :: behind))
    (ht : t.isNode = true) :
    ∃ g k text f, IsGap g ∧ k.isTrivia = false ∧ behind = g ++ .token k text :: f := by
  generalize hrow : front ++ t :: behind = row at h
  induction h generalizing front with
  | nil => simp at hrow
  | token _ ih =>
      cases front with
      | nil =>
          obtain ⟨rfl, -⟩ := List.cons.inj hrow
          cases ht
      | cons u front => exact ih (List.cons.inj hrow).2
  | @node u g f k text hg hk _ ih =>
      cases front with
      | nil => exact ⟨g, k, text, f, hg, hk, (List.cons.inj hrow).2⟩
      | cons v front => exact ih (List.cons.inj hrow).2

end Delimited

/-- Behind each type argument of a tree stand trivia, and then a token that is none. -/
def DelimitsArguments : Tree → Prop :=
  All (fun k cs => k = .typeArgumentList → Delimited cs) fun _ _ => True

theorem DelimitsArguments.node {k : Kind} {cs : Forest} (hk : k ≠ .typeArgumentList)
    (hcs : ∀ c ∈ cs, DelimitsArguments c) : DelimitsArguments (.node k cs) :=
  all_node.mpr ⟨fun h => absurd h hk, hcs⟩

theorem delimitsArguments_token (k : Kind) (text : String) : DelimitsArguments (.token k text) :=
  all_token.mpr trivial

theorem delimitsArguments_gap {g : Forest} (hg : IsGap g) : ∀ t ∈ g, DelimitsArguments t := by
  intro t ht
  obtain ⟨k, text, rfl, -⟩ := hg t ht
  exact delimitsArguments_token k text

theorem delimitsArguments_terminal {k : Kind} {c : Forest} (hc : Terminal k c) :
    ∀ t ∈ c, DelimitsArguments t := by
  obtain ⟨g, text, hg, rfl⟩ := hc
  exact List.forall_mem_append.mpr ⟨delimitsArguments_gap hg,
    List.forall_mem_singleton.mpr (delimitsArguments_token ..)⟩

/-- A token before another tree, with trivia before each of the two. -/
theorem delimitsArguments_behind {k : Kind} {c g : Forest} {t : Tree} (hc : Terminal k c)
    (hg : IsGap g) (ht : DelimitsArguments t) : ∀ u ∈ c ++ (g ++ [t]), DelimitsArguments u :=
  List.forall_mem_append.mpr ⟨delimitsArguments_terminal hc,
    List.forall_mem_append.mpr ⟨delimitsArguments_gap hg, List.forall_mem_singleton.mpr ht⟩⟩

theorem delimitsArguments_commas {cs : Forest} (h : Commas cs) :
    ∀ t ∈ cs, DelimitsArguments t := by
  induction h with
  | nil => exact List.forall_mem_nil _
  | cons hc _ ih => exact List.forall_mem_append.mpr ⟨delimitsArguments_terminal hc, ih⟩

theorem delimitsArguments_ranks {rs : Forest} (h : Ranks rs) :
    ∀ t ∈ rs, DelimitsArguments t := by
  induction h with
  | nil => exact List.forall_mem_nil _
  | cons hg hcs hclose _ ih =>
      refine List.forall_mem_append.mpr
        ⟨delimitsArguments_gap hg, List.forall_mem_cons.mpr ⟨?_, ih⟩⟩
      refine .node (by decide) (List.forall_mem_cons.mpr ⟨delimitsArguments_token .., ?_⟩)
      exact List.forall_mem_append.mpr
        ⟨delimitsArguments_commas hcs, delimitsArguments_terminal hclose⟩

mutual

theorem delimitsArguments_type {t : Tree} (h : TypeTree t) : DelimitsArguments t :=
  match h with
  | .keyword _ => .node (by decide) (List.forall_mem_singleton.mpr (delimitsArguments_token ..))
  | .name ht => delimitsArguments_name ht
  | .nullable ht hq => .node (by decide) (List.forall_mem_cons.mpr
      ⟨delimitsArguments_type ht, delimitsArguments_terminal hq⟩)
  | .array ht _ hranks _ => .node (by decide) (List.forall_mem_cons.mpr
      ⟨delimitsArguments_type ht, delimitsArguments_ranks hranks⟩)

theorem delimitsArguments_name {t : Tree} (h : NameTree t) : DelimitsArguments t :=
  match h with
  | .simple ht => delimitsArguments_simple ht
  | .aliased hcolons hg ht => by
      refine .node (by decide) (List.forall_mem_cons.mpr ⟨.node (by decide) ?_, ?_⟩)
      · exact List.forall_mem_singleton.mpr (delimitsArguments_token ..)
      · exact delimitsArguments_behind hcolons hg (delimitsArguments_simple ht)
  | .qualified hleft hdot hg ht => .node (by decide) (List.forall_mem_cons.mpr
      ⟨delimitsArguments_name hleft,
        delimitsArguments_behind hdot hg (delimitsArguments_simple ht)⟩)

theorem delimitsArguments_simple {t : Tree} (h : SimpleTree t) : DelimitsArguments t :=
  match h with
  | .identifier => .node (by decide) (List.forall_mem_singleton.mpr (delimitsArguments_token ..))
  | .generic hg hslots hclose => by
      have hlist := delimited_slots hslots hclose
      refine .node (by decide) (List.forall_mem_cons.mpr ⟨delimitsArguments_token .., ?_⟩)
      refine List.forall_mem_append.mpr ⟨delimitsArguments_gap hg, List.forall_mem_singleton.mpr ?_⟩
      refine all_node.mpr ⟨fun _ => hlist.token, ?_⟩
      refine List.forall_mem_cons.mpr ⟨delimitsArguments_token .., ?_⟩
      exact List.forall_mem_append.mpr
        ⟨delimitsArguments_slots hslots, delimitsArguments_terminal hclose⟩

theorem delimitsArguments_slots {slots : Forest} (h : Slots slots) :
    ∀ t ∈ slots, DelimitsArguments t :=
  match h with
  | .nil => List.forall_mem_nil _
  | .comma hc hf => List.forall_mem_append.mpr
      ⟨delimitsArguments_terminal hc, delimitsArguments_slots hf⟩
  | .last hg ht => List.forall_mem_append.mpr
      ⟨delimitsArguments_gap hg, List.forall_mem_singleton.mpr (delimitsArguments_type ht)⟩
  | .item hg ht hc hf => by
      refine List.forall_mem_append.mpr ⟨delimitsArguments_gap hg, List.forall_mem_cons.mpr
        ⟨delimitsArguments_type ht, ?_⟩⟩
      exact List.forall_mem_append.mpr
        ⟨delimitsArguments_terminal hc, delimitsArguments_slots hf⟩

/-- Slots and the bracket that closes them. -/
theorem delimited_slots {slots close : Forest} (h : Slots slots)
    (hclose : Terminal .greater close) : Delimited (slots ++ close) :=
  match h with
  | .nil => by
      have hrow := Delimited.terminal_append hclose .nil
      rwa [List.append_nil] at hrow
  | .comma hc hf => by
      rw [List.append_assoc]
      exact .terminal_append hc (delimited_slots hf hclose)
  | .last (t := t) hg _ => by
      have hrow := Delimited.node_terminal t hclose rfl .nil
      rw [List.append_assoc, List.singleton_append]
      rw [List.append_nil] at hrow
      exact .gap_append hg hrow
  | .item (t := t) hg _ hc hf => by
      rw [List.append_assoc, List.cons_append, List.append_assoc]
      exact .gap_append hg (.node_terminal t hc rfl (delimited_slots hf hclose))

end

end Tree

/-! ## Places in the text -/

theorem eq_take_append_drop {α : Type} {xs : List α} {i : Nat} {x : α} (h : xs[i]? = some x) :
    xs = xs.take i ++ x :: xs.drop (i + 1) := by
  obtain ⟨hi, rfl⟩ := List.getElem?_eq_some_iff.mp h
  rw [List.getElem_cons_drop, List.take_append_drop]

/-- The leaves of a tree before, in and behind one of its children. -/
theorem Tree.leaves_of_child {t u : Tree} {i : Nat} (h : t.children[i]? = some u) :
    t.leaves = forestLeaves (t.children.take i) ++
      (u.leaves ++ forestLeaves (t.children.drop (i + 1))) := by
  cases t with
  | token k s => simp [children] at h
  | node k cs =>
      rw [← forestLeaves, ← forestLeaves_append, ← eq_take_append_drop h, leaves, children]

/-- The leaves of an element are leaves of the tree, and those before them lead up to it. -/
theorem Cursor.Below.exists_leaves {c d : Cursor} (h : Below c d) :
    ∃ before behind, c.focus.leaves = before ++ (d.focus.leaves ++ behind) ∧
      d.start = c.start + leavesWidth before := by
  induction h with
  | refl => exact ⟨[], [], by simp, rfl⟩
  | @tail p e _ he ih =>
      obtain ⟨before, behind, hleaves, hstart⟩ := ih
      obtain ⟨i, t, ht, rfl⟩ := mem_elements_iff.mp he
      refine ⟨before ++ forestLeaves (p.focus.children.take i),
        forestLeaves (p.focus.children.drop (i + 1)) ++ behind, ?_, ?_⟩
      · rw [hleaves, leaves_of_child ht]
        simp only [List.append_assoc, focus_child]
      · rw [leavesWidth_append, leavesWidth_forestLeaves, ← Nat.add_assoc, ← hstart]
        rfl

theorem Parser.IsGap.eq_map_tree {g : Forest} (hg : IsGap g) {ts : List Token}
    (h : ts.map Token.leaf = forestLeaves g) : g = ts.map Token.tree := by
  induction g generalizing ts with
  | nil =>
      obtain rfl := List.map_eq_nil_iff.mp h
      rfl
  | cons t g ih =>
      obtain ⟨k, text, rfl, -⟩ := hg t List.mem_cons_self
      obtain ⟨u, more, rfl, hu, hmore⟩ := List.map_eq_cons_iff.mp h
      obtain ⟨rfl, rfl⟩ := Prod.mk.inj hu
      rw [List.map_cons, ← ih (fun t ht => hg t (List.mem_cons_of_mem _ ht)) hmore]
      rfl

namespace Token

/-- The trivia of a text that stand at a position. -/
def triviaAt (text : String) (pos : Nat) : List Token :=
  ((lex text).dropWhile fun t => t.start < pos).takeWhile isTrivia

/-- The number of the line of a text that holds a position. -/
def lineAt (text : String) (pos : Nat) : Nat := ((Text.Lines.ofText text).lineCol pos).line

variable {text : String} {before trivia behind : List Token} {t next : Token}

theorem tiled_contents (h : contents text = before ++ behind) :
    ∃ last, Tiled 0 (before ++ (behind ++ [last])) ∧ lex text = before ++ (behind ++ [last]) := by
  obtain ⟨last, hlex, -⟩ := lex_eq_contents text
  rw [h, List.append_assoc] at hlex
  exact ⟨last, hlex ▸ tiled_lexFrom true 0 text.toList, hlex⟩

theorem triviaAt_rowWidth (h : contents text = before ++ (trivia ++ next :: behind))
    (htrivia : ∀ t ∈ trivia, t.isTrivia = true) (hnext : next.isTrivia = false) :
    triviaAt text (rowWidth before) = trivia := by
  obtain ⟨last, htiled, hlex⟩ := tiled_contents h
  have hbefore : ∀ t ∈ before, decide (t.start < rowWidth before) = true := by
    intro t ht
    have hstop := htiled.stop_le (by simp) t ht
    exact decide_eq_true (by omega)
  have hbehind := htiled.append.le_start
  have hrest : (trivia ++ (next :: behind) ++ [last]).dropWhile (·.start < rowWidth before) =
      trivia ++ next :: (behind ++ [last]) := by
    rw [List.append_assoc, List.cons_append]
    cases trivia with
    | nil => simp_all
    | cons t trivia => simp_all
  rw [triviaAt, hlex, List.dropWhile_append_of_pos hbefore, hrest,
    List.takeWhile_append_of_pos htrivia, List.takeWhile_cons_of_neg (by simp [hnext]),
    List.append_nil]

theorem rowWidth_eq_byteLength (ts : List Token) :
    rowWidth ts = Text.byteLength (ts.flatMap (·.text.toList)) := by
  induction ts with
  | nil => rfl
  | cons t ts ih =>
      rw [rowWidth_cons, ih, List.flatMap_cons, Text.byteLength_append, Text.byteLength_toList]

theorem start_eq_rowWidth (h : contents text = before ++ t :: behind) :
    t.start = rowWidth before := by
  obtain ⟨last, htiled, -⟩ := tiled_contents h
  exact htiled.append.1.trans (Nat.zero_add _)

/-- The start of a token is on the line of a position before it if no line break is between. -/
theorem lineAt_start_iff (h : contents text = before ++ (trivia ++ t :: behind)) {c : Char}
    (hc : t.text.toList.head? = some c) (hne : c ≠ '\n') :
    lineAt text t.start = lineAt text (rowWidth before) ↔
      ∀ u ∈ trivia, ∀ d ∈ u.text.toList, Text.isLineBreak d = false := by
  obtain ⟨-, -, -, hcover, -⟩ := lex_eq_contents text
  have hchars : text.toList = before.flatMap (·.text.toList) ++ trivia.flatMap (·.text.toList) ++
      (t.text.toList ++ behind.flatMap (·.text.toList)) := by
    rw [← hcover, h]
    simp
  have hback : (t.text.toList ++ behind.flatMap (·.text.toList)).head? ≠ some '\n' := by
    simp [List.head?_append, hc, hne]
  have hat : contents text = before ++ trivia ++ t :: behind := by rw [h, List.append_assoc]
  have hstart := start_eq_rowWidth hat
  rw [eq_comm, hstart, lineAt, lineAt, rowWidth_eq_byteLength, rowWidth_eq_byteLength,
    List.flatMap_append, Text.Lines.line_ofText_eq_iff hchars hback]
  simp only [List.mem_flatMap, forall_exists_index, and_imp]
  exact ⟨fun hall u hu d hd => hall d u hu hd, fun hall d u hu hd => hall u hu d hd⟩

end Token

/-- The position in a text where an element ends, in the tree of what was read from the text. -/
def stopIn (text : String) (c : Cursor) : Nat :=
  Token.rowWidth ((Token.lex text).takeWhile Token.isTrivia) + c.stop

/-- Where a type argument ends in a text, trivia follow, and then a token that is none. The same
tokens stand behind the argument in the tree. -/
theorem exists_tokens_behind {text : String} {node : Node} (h : parseType text = .ok node)
    {list argument : Cursor} (hlist : Cursor.Below (.root node.tree) list)
    (hkind : list.kind = .typeArgumentList) (hargument : argument ∈ list.elements)
    (hnode : argument.isNode = true) :
    ∃ (before trivia : List Token) (next : Token) (behind : List Token) (more : Forest),
      Token.contents text = before ++ (trivia ++ next :: behind) ∧
      (∀ t ∈ trivia, t.isTrivia = true) ∧ next.isTrivia = false ∧
      Token.rowWidth before = stopIn text argument ∧
      list.focus.children.drop (argument.index + 1) =
        trivia.map Token.tree ++ next.tree :: more := by
  obtain ⟨htree, rest, hcontents⟩ := typeTree_of_parseType h
  obtain ⟨i, t, ht, rfl⟩ := Cursor.mem_elements_iff.mp hargument
  have hrow : Delimited list.focus.children := by
    have hall : DelimitsArguments list.focus := hlist.all (delimitsArguments_type htree)
    cases hfocus : list.focus with
    | token k s => simp [hfocus, children] at ht
    | node k cs =>
        rw [hfocus] at hall
        refine (all_node.mp hall).1 ?_
        rwa [Cursor.kind, hfocus] at hkind
  rw [eq_take_append_drop ht] at hrow
  obtain ⟨g, k, s, more, hg, hk, hbehind⟩ := hrow.behind hnode
  obtain ⟨front, back, hleaves, hstart⟩ := hlist.exists_leaves
  have hsplit : (Token.contents text).map Token.leaf =
      (((Token.lex text).takeWhile Token.isTrivia).map Token.leaf ++
        (front ++ (forestLeaves (list.focus.children.take i) ++ t.leaves))) ++
      (forestLeaves g ++ (k, s) ::
        (forestLeaves more ++ (back ++ forestLeaves (triviaAhead rest)))) := by
    have hroot : node.tree.leaves = front ++ (list.focus.leaves ++ back) := hleaves
    rw [hcontents, forestLeaves_append, forestLeaves_append, triviaAhead, forestLeaves_map_tree,
      forestLeaves, hroot, leaves_of_child ht, hbehind, forestLeaves_append]
    simp only [forestLeaves, leaves, List.append_assoc, List.cons_append, List.nil_append,
      List.append_nil]
  obtain ⟨before, tail, hbefore, hmap, htail⟩ := List.map_eq_append_iff.mp hsplit
  obtain ⟨trivia, ahead, rfl, htrivia, hahead⟩ := List.map_eq_append_iff.mp htail
  obtain ⟨next, behind, rfl, hnext, -⟩ := List.map_eq_cons_iff.mp hahead
  obtain ⟨rfl, rfl⟩ := Prod.mk.inj hnext
  obtain rfl : g = trivia.map Token.tree := hg.eq_map_tree htrivia
  refine ⟨before, trivia, next, behind, more, hbefore, fun u hu => ?_, hk, ?_, hbehind⟩
  · obtain ⟨l, s, htoken, hl⟩ := hg u.tree (List.mem_map_of_mem hu)
    rw [Token.isTrivia, (Tree.token.inj htoken).1, hl]
  · rw [Token.rowWidth, hmap, stopIn, Cursor.stop_eq]
    simp only [leavesWidth_append, leavesWidth_forestLeaves, leavesWidth_leaves, Token.rowWidth]
    have hwidth : list.start = leavesWidth front := hstart.trans (Nat.zero_add _)
    show _ = _ + (list.start + forestWidth (list.focus.children.take i) + t.width)
    rw [hwidth, Nat.add_assoc (leavesWidth front)]

end CSharpKit.Syntax
