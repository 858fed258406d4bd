import CSharpKit.Proofs.Syntax.TrailingTrivia
import CSharpKit.Refactor.DelegateShape

/-!
# Names from comments

The parameter of a type argument is called by the only block comment behind the argument, up to
the end of the line. Where that end is, only blanks tell, and only by a line feed.
-/

namespace CSharpKit

open Syntax Syntax.Tree Syntax.Parser Text

/-! ## Lines in trivia -/

namespace Syntax.Token

/-- Blanks with a line feed. -/
def feedsLine (t : Token) : Bool := t.kind == .whitespace && t.text.toList.contains '\n'

/-- A token with a line break in it. -/
def breaksLine (t : Token) : Bool := t.text.toList.any isLineBreak

theorem kind_of_feedsLine {t : Token} (h : t.feedsLine = true) : t.kind = .whitespace := by
  simp only [feedsLine, Bool.and_eq_true, beq_iff_eq] at h
  exact h.1

theorem breaksLine_of_feedsLine {t : Token} (h : t.feedsLine = true) : t.breaksLine = true := by
  simp only [feedsLine, Bool.and_eq_true, List.contains_iff_mem] at h
  exact List.any_eq_true.mpr ⟨'\n', h.2, rfl⟩

/-- Where a line break stands in front of a block comment, blanks with a line feed do. -/
def BreaksFeed (trivia : List Token) : Prop :=
  ∀ (i : Nat) (h : i < trivia.length), trivia[i].kind = .multiLineComment →
    (trivia.take i).any breaksLine = true → (trivia.take i).any feedsLine = true

instance (trivia : List Token) : Decidable (BreaksFeed trivia) :=
  Nat.decidableBallLT trivia.length _

theorem BreaksFeed.of_append {before behind : List Token} {t : Token}
    (h : BreaksFeed (before ++ t :: behind)) (ht : t.kind = .multiLineComment)
    (hbreak : before.any breaksLine = true) : before.any feedsLine = true := by
  have hcomment := h before.length (by simp)
  rw [List.take_left] at hcomment
  exact hcomment (by simpa using ht) hbreak

/-- Among tokens there is one block comment, with a name between its marks. -/
def OnlyComment (tokens : List Token) (name : String) : Prop :=
  ∃ comment, tokens.filter (·.kind == .multiLineComment) = [comment] ∧
    comment.text = commentText name

end Syntax.Token

namespace Refactor

open Token

/-- The trivia of a text behind a type argument in it. -/
def triviaBehind (text : String) (argument : Cursor) : List Token :=
  triviaAt text (stopIn text argument)

/-- A token starts on the line of a text on which a type argument ends. -/
def startsOnLine (text : String) (argument : Cursor) (t : Token) : Bool :=
  lineAt text t.start == lineAt text (stopIn text argument)

/-! ## What a comment says -/

theorem commentContent_commentText (body : String) : commentContent (commentText body) = body := by
  simp [commentContent, commentText, dropEnding, List.isSuffixOf_iff_suffix]

theorem commentText_injective {a b : String} (h : commentText a = commentText b) : a = b := by
  rw [← commentContent_commentText a, h, commentContent_commentText]

/-- The comments behind an element of a row are those of the trivia that stand there. -/
theorem filter_trailingTrivia {cs : List Cursor} {trivia : List Token} {next : Token}
    {more : Forest} (h : cs.map Cursor.focus = trivia.map Token.tree ++ next.tree :: more)
    (htrivia : ∀ t ∈ trivia, t.isTrivia = true) (hnext : next.isTrivia = false) :
    ((trailingTrivia cs).filter (·.kind == .multiLineComment)).map Cursor.text =
      ((trivia.takeWhile (!·.feedsLine)).filter (·.kind == .multiLineComment)).map Token.text := by
  induction trivia generalizing cs with
  | nil =>
      obtain ⟨c, rest, rfl, hc, -⟩ := List.map_eq_cons_iff.mp h
      have hkind : c.kind.isTrivia = false := by rw [Cursor.kind, hc]; exact hnext
      simp [trailingTrivia, hkind]
  | cons t trivia ih =>
      obtain ⟨c, rest, rfl, hc, hrest⟩ := List.map_eq_cons_iff.mp h
      obtain ⟨ht, htrivia⟩ := List.forall_mem_cons.mp htrivia
      have hnode : c.isNode = false := by rw [Cursor.isNode, hc]; rfl
      have hkind : c.kind = t.kind := by rw [Cursor.kind, hc]; rfl
      have htext : c.text = t.text := by rw [Cursor.text, hc]; rfl
      have htrailing : trailingTrivia (c :: rest) =
          if t.feedsLine then [c] else c :: trailingTrivia rest := by
        have hplain : ¬(false || !t.kind.isTrivia) = true := by simpa [isTrivia] using ht
        rw [trailingTrivia, hnode, hkind, htext, if_neg hplain]
        rfl
      rw [htrailing, List.takeWhile_cons]
      cases hfeeds : t.feedsLine with
      | true =>
          have hblank := kind_of_feedsLine hfeeds
          simp [hkind, hblank]
      | false =>
          simp only [Bool.false_eq_true, if_false, Bool.not_false, if_true, List.filter_cons, hkind]
          split
          · rw [List.map_cons, List.map_cons, ih hrest htrivia, htext]
          · exact ih hrest htrivia

/-- A name is what the only block comment up to the first line feed in blanks says. -/
theorem annotatedName?_of_following {argument : Cursor} {trivia : List Token} {next : Token}
    {more : Forest}
    (h : (following argument).map Cursor.focus = trivia.map Token.tree ++ next.tree :: more)
    (htrivia : ∀ t ∈ trivia, t.isTrivia = true) (hnext : next.isTrivia = false)
    (hclosed : ∀ t ∈ trivia, t.kind = .multiLineComment → ∃ body, t.text = commentText body)
    (name : String) : annotatedName? argument = some name ↔
      OnlyComment (trivia.takeWhile (!·.feedsLine)) name := by
  have htexts := filter_trailingTrivia h htrivia hnext
  have hall : ∀ t ∈ (trivia.takeWhile (!·.feedsLine)).filter (·.kind == .multiLineComment),
      ∃ body, t.text = commentText body := by
    intro t ht
    obtain ⟨hmem, hkind⟩ := List.mem_filter.mp ht
    exact hclosed t ((List.takeWhile_sublist _).mem hmem) (eq_of_beq hkind)
  rw [annotatedName?, OnlyComment]
  generalize (trailingTrivia (following argument)).filter (·.kind == .multiLineComment) = found
    at htexts ⊢
  generalize (trivia.takeWhile (!·.feedsLine)).filter (·.kind == .multiLineComment) = comments
    at htexts hall ⊢
  cases comments with
  | nil =>
      obtain rfl := List.map_eq_nil_iff.mp htexts
      simp
  | cons t comments =>
      obtain ⟨c, found, rfl, hc, hrest⟩ := List.map_eq_cons_iff.mp htexts
      cases comments with
      | nil =>
          obtain rfl := List.map_eq_nil_iff.mp hrest
          obtain ⟨body, hbody⟩ := hall t List.mem_cons_self
          have htext : commentContent c.text = body := by
            rw [hc, hbody, commentContent_commentText]
          simp only [htext, hbody, Option.some.injEq, List.cons.injEq, and_true, exists_eq_left']
          exact ⟨fun h => h ▸ rfl, commentText_injective⟩
      | cons u comments =>
          obtain ⟨d, found, rfl, -⟩ := List.map_eq_cons_iff.mp hrest
          simp

/-! ## Lines -/

/-- Where line breaks in front of comments come with line feeds in blanks, the comments on the
first line are those up to the first such line feed. -/
theorem filter_takeWhile_feedsLine {onLine : Token → Bool} {before trivia : List Token}
    (hline : ∀ front t back, before ++ trivia = front ++ t :: back → t.kind = .multiLineComment →
      (onLine t = true ↔ front.any breaksLine = false))
    (hbreaks : BreaksFeed (before ++ trivia)) (hbefore : before.any feedsLine = false) :
    (trivia.filter onLine).filter (·.kind == .multiLineComment) =
      (trivia.takeWhile (!·.feedsLine)).filter (·.kind == .multiLineComment) := by
  induction trivia generalizing before with
  | nil => rfl
  | cons t trivia ih =>
      rw [List.takeWhile_cons]
      cases hfeeds : t.feedsLine with
      | true =>
          have hblank := kind_of_feedsLine hfeeds
          simp only [Bool.not_true, Bool.false_eq_true, if_false, List.filter_nil,
            List.filter_filter, List.filter_eq_nil_iff, Bool.and_eq_true, beq_iff_eq, not_and]
          refine List.forall_mem_cons.mpr ⟨by simp [hblank], fun u hu hkind hon => ?_⟩
          obtain ⟨front, back, rfl⟩ := List.append_of_mem hu
          have hnone := (hline (before ++ t :: front) u back (by simp) hkind).mp hon
          simp [breaksLine_of_feedsLine hfeeds] at hnone
      | false =>
          have hmore := @ih (before ++ [t]) (by simpa using hline) (by simpa using hbreaks)
            (by simp [hbefore, hfeeds])
          by_cases hkind : t.kind = .multiLineComment
          · have hnone : before.any breaksLine = false := by
              refine Bool.eq_false_iff.mpr fun hbreak => ?_
              rw [hbreaks.of_append hkind hbreak] at hbefore
              cases hbefore
            have hon := (hline before t trivia rfl hkind).mpr hnone
            simp [hon, hkind, hmore]
          · rw [List.filter_filter] at hmore ⊢
            simp [hkind, hmore]

/-! ## Type arguments -/

theorem map_focus_following {list argument : Cursor} (h : argument ∈ list.elements) :
    (following argument).map Cursor.focus = list.focus.children.drop (argument.index + 1) := by
  rw [following, Cursor.parent?_of_mem_elements h, List.map_drop, Cursor.map_focus_elements]

/-- A type argument names a parameter if there is one block comment behind it up to the first line
feed in blanks, and the name is what the comment says. These are the comments that start on the
line on which the argument ends, unless a line ends in another way in front of a comment. -/
theorem annotatedName?_eq_some_iff {text : String} {node : Node} (h : parseType text = .ok node)
    {generic argument : Cursor} (hgeneric : generic ∈ (Cursor.root node.tree).nodes)
    (hargument : argument ∈ generic.typeArguments) (name : String) :
    (annotatedName? argument = some name ↔
      OnlyComment ((triviaBehind text argument).takeWhile (!·.feedsLine)) name) ∧
    (BreaksFeed (triviaBehind text argument) →
      (annotatedName? argument = some name ↔
        OnlyComment ((triviaBehind text argument).filter (startsOnLine text argument)) name)) := by
  obtain ⟨list, hlist, hmem⟩ : ∃ list, generic.typeArgumentList? = some list ∧
      argument ∈ list.types := by
    rw [Cursor.typeArguments] at hargument
    cases hlist : generic.typeArgumentList? with
    | none => simp [hlist] at hargument
    | some list => exact ⟨list, rfl, by simpa [hlist] using hargument⟩
  obtain ⟨hchild, hkind⟩ := Cursor.mem_children_of_child? hlist
  have hbelow := (Cursor.below_of_mem_nodes hgeneric).trans (Cursor.below_of_mem_children hchild)
  obtain ⟨hchildren, -⟩ := Cursor.mem_children_of_mem_childrenOf hmem
  have helement := Cursor.mem_elements_of_mem_children hchildren
  obtain ⟨before, trivia, next, behind, more, hcontents, htrivia, hnext, hwidth, hrow⟩ :=
    exists_tokens_behind h hbelow hkind helement (Cursor.isNode_of_mem_children hchildren)
  have hbehind : triviaBehind text argument = trivia := by
    rw [triviaBehind, ← hwidth]
    exact triviaAt_rowWidth hcontents htrivia hnext
  have hclosed : ∀ t ∈ trivia, t.kind = .multiLineComment →
      ∃ body, t.text = commentText body := by
    intro t ht hcomment
    obtain ⟨front, back, rfl⟩ := List.append_of_mem ht
    have hat : contents text = before ++ front ++ t :: (back ++ next :: behind) := by
      rw [hcontents]
      simp
    exact comment_closed_of_contents hat (by simp) hcomment
  have hname := annotatedName?_of_following ((map_focus_following helement).trans hrow) htrivia
    hnext hclosed name
  rw [hbehind]
  refine ⟨hname, fun hbreaks => hname.trans ?_⟩
  have hcomments :=
    @filter_takeWhile_feedsLine (startsOnLine text argument) [] trivia ?_ hbreaks rfl
  · rw [OnlyComment, OnlyComment, hcomments]
  · rintro front t back rfl hcomment
    obtain ⟨body, hbody⟩ := hclosed t (by simp) hcomment
    have hat : contents text = before ++ (front ++ t :: (back ++ next :: behind)) := by
      rw [hcontents]
      simp
    have hslash : t.text.toList.head? = some '/' := by simp [hbody, commentText]
    rw [startsOnLine, beq_iff_eq, ← hwidth, lineAt_start_iff hat hslash (by decide)]
    simp [breaksLine]

/-- A text is read as a type, and one of its type arguments has a property. -/
def hasArgument (text : String) (i : Nat) (p : Cursor → Bool) : Bool :=
  match parseType text with
  | .ok found => ((Cursor.root found.tree).typeArguments[i]?).any p
  | .error _ => false

theorem exists_of_hasArgument {text : String} {i : Nat} {p : Cursor → Bool}
    (h : hasArgument text i p = true) : ∃ node argument, parseType text = .ok node ∧
      argument ∈ (Cursor.root node.tree).typeArguments ∧ p argument = true := by
  unfold hasArgument at h
  split at h
  · next found hparse =>
    obtain ⟨argument, hargument, hp⟩ := (Option.any_eq_true ..).mp h
    exact ⟨found, argument, hparse, List.mem_of_getElem? hargument, hp⟩
  · cases h

/-- Comments of three sorts behind the first of two type arguments. -/
def commentedArgument : String := "Func<int /* count */ /** doc */ // text\n /* other */, bool>"

theorem annotatedName?_eq_some_iff_commentedArgument :
    ∃ node argument, parseType commentedArgument = .ok node ∧
      argument ∈ (Cursor.root node.tree).typeArguments ∧
      BreaksFeed (triviaBehind commentedArgument argument) ∧
      annotatedName? argument = some " count " := by
  have hcomments : hasArgument commentedArgument 0 (fun argument =>
      decide (BreaksFeed (triviaBehind commentedArgument argument)) &&
      ((triviaBehind commentedArgument argument).filter
        (startsOnLine commentedArgument argument)).filter (·.kind == .multiLineComment) ==
          [⟨.multiLineComment, "/* count */", 9⟩]) = true := by decide +kernel
  obtain ⟨node, argument, hparse, hargument, hfound⟩ := exists_of_hasArgument hcomments
  simp only [Bool.and_eq_true, decide_eq_true_eq, beq_iff_eq] at hfound
  have hroot : Cursor.root node.tree ∈ (Cursor.root node.tree).nodes :=
    (Cursor.Below.refl _).mem_nodes rfl
  refine ⟨node, argument, hparse, hargument, hfound.1, ?_⟩
  exact ((annotatedName?_eq_some_iff hparse hroot hargument " count ").2 hfound.1).mpr
    ⟨_, hfound.2, rfl⟩

/-- A lone carriage return ends a line, but does not keep a comment from being the name; and
the line feed in a comment ends a line, but does not keep the next one from counting. -/
theorem annotatedName?_otherLineEnds :
    (∃ node argument, parseType "Action<string\r/*name*/>" = .ok node ∧
      argument ∈ (Cursor.root node.tree).typeArguments ∧ annotatedName? argument = some "name" ∧
      ¬OnlyComment ((triviaBehind "Action<string\r/*name*/>" argument).filter
        (startsOnLine "Action<string\r/*name*/>" argument)) "name") ∧
    ∃ node argument, parseType "Action<string /*a\nb*/ /*c*/>" = .ok node ∧
      argument ∈ (Cursor.root node.tree).typeArguments ∧ annotatedName? argument = none ∧
      OnlyComment ((triviaBehind "Action<string /*a\nb*/ /*c*/>" argument).filter
        (startsOnLine "Action<string /*a\nb*/ /*c*/>" argument)) "a\nb" := by
  have hreturn : hasArgument "Action<string\r/*name*/>" 0 (fun argument =>
      annotatedName? argument == some "name" &&
      ((triviaBehind "Action<string\r/*name*/>" argument).filter
        (startsOnLine "Action<string\r/*name*/>" argument)).filter (·.kind == .multiLineComment) ==
          []) = true := by decide +kernel
  have hcomment : hasArgument "Action<string /*a\nb*/ /*c*/>" 0 (fun argument =>
      annotatedName? argument == none &&
      ((triviaBehind "Action<string /*a\nb*/ /*c*/>" argument).filter
        (startsOnLine "Action<string /*a\nb*/ /*c*/>" argument)).filter
          (·.kind == .multiLineComment) == [⟨.multiLineComment, "/*a\nb*/", 14⟩]) = true := by
    decide +kernel
  obtain ⟨node, argument, hparse, hargument, hfound⟩ := exists_of_hasArgument hreturn
  obtain ⟨node', argument', hparse', hargument', hfound'⟩ := exists_of_hasArgument hcomment
  simp only [Bool.and_eq_true, beq_iff_eq] at hfound hfound'
  refine ⟨⟨node, argument, hparse, hargument, hfound.1, ?_⟩,
    node', argument', hparse', hargument', hfound'.1, _, hfound'.2, rfl⟩
  rintro ⟨comment, hnone, -⟩
  rw [hfound.2] at hnone
  cases hnone

end Refactor

end CSharpKit
