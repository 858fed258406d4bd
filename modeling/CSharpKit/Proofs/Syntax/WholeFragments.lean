import CSharpKit.Proofs.Syntax.DeclarationForms
import CSharpKit.Proofs.Syntax.GrammarComplaints
import CSharpKit.Proofs.Syntax.TypeGrammar

/-!
# Fragments are whole texts

A reader of a fragment returns one node and drops the rest of what it read. Where it has
nothing to complain about there is nothing to drop but trivia: the reader made exactly one
node, and came to the end of the text.
-/

namespace CSharpKit.Syntax

open Syntax.Tree CSharpKit.Syntax.Parser

/-- A text is trivia, the text of a node, and trivia again; its tokens in the middle are the
leaves of the node. -/
def Encloses (text : String) (g : Node) : Prop :=
  ∃ front inner back : List Token, Token.contents text = front ++ inner ++ back ∧
    (∀ t ∈ front ++ back, t.isTrivia = true) ∧ g.tree.leaves = inner.map Token.leaf ∧
    text = String.join (front.map Token.text) ++ g.tree.text ++ String.join (back.map Token.text)

/-! ## One node among trivia -/

theorem Parser.IsGap.leaves {g : Forest} (h : IsGap g) :
    ∀ l ∈ forestLeaves g, l.1.isTrivia = true := by
  intro l hl
  obtain ⟨t, ht, hl⟩ := mem_forestLeaves.mp hl
  obtain ⟨k, text, rfl, hk⟩ := h t ht
  obtain rfl : l = (k, text) := by simpa [Tree.leaves] using hl
  exact hk

/-- A row with one tree that is no trivia has trivia around it. -/
theorem Tree.exists_of_bare_eq_singleton {ts : Forest} {t : Tree} (h : bare ts = [t]) :
    ∃ front back, ts = front ++ t :: back ∧ IsGap front ∧ IsGap back := by
  have hgap : ∀ u : Tree, ¬(u.isNode || !u.kind.isTrivia) = true →
      ∃ k text, u = .token k text ∧ k.isTrivia = true := by
    intro u hu
    cases u with
    | node k cs => simp [isNode] at hu
    | token k text => exact ⟨k, text, rfl, by simpa [isNode, Tree.kind] using hu⟩
  obtain ⟨front, back, rfl, hfront, -, hback⟩ := List.filter_eq_cons_iff.mp h
  exact ⟨front, back, rfl, fun u hu => hgap u (hfront u hu),
    fun u hu => hgap u (List.filter_eq_nil_iff.mp hback u hu)⟩

/-- A node whose leaves are all tokens of a text but trivia around them. -/
theorem encloses_of_leaves {text : String} {g : Node} {front back : Forest}
    (h : forestLeaves (front ++ g.tree :: back) = (Token.contents text).map Token.leaf)
    (hfront : IsGap front) (hback : IsGap back) : Encloses text g := by
  rw [forestLeaves_append, forestLeaves] at h
  obtain ⟨before, rest, hcontents, hbefore, hrest⟩ := List.map_eq_append_iff.mp h.symm
  obtain ⟨inner, behind, rfl, hinner, hbehind⟩ := List.map_eq_append_iff.mp hrest
  rw [← List.append_assoc] at hcontents
  refine ⟨before, inner, behind, hcontents, fun t ht => ?_, hinner.symm, ?_⟩
  · rcases List.mem_append.mp ht with ht | ht
    · exact hfront.leaves t.leaf (hbefore ▸ List.mem_map_of_mem ht)
    · exact hback.leaves t.leaf (hbehind ▸ List.mem_map_of_mem ht)
  · have htext : String.join ((Token.contents text).map Token.text) = text := by
      obtain ⟨-, -, -, hcover, -⟩ := Token.lex_eq_contents text
      apply String.toList_injective
      rw [String.toList_join, ← hcover, List.flatMap_map]
    have hnode : g.tree.text = String.join (inner.map Token.text) := by
      rw [Tree.text, ← hinner, List.map_map]
      rfl
    rw [hnode, ← String.join_append, ← String.join_append, ← List.map_append, ← List.map_append,
      ← hcontents, htext]

/-! ## Readers of one node -/

section

variable {what : Grammar.Rules → Parser Unit} {text : String} {s : ParserState} {new : Forest}
  {p : Kind → Bool}

/-- A reader that makes one node either has a complaint, or the node is the fragment and the
text is trivia around it. -/
theorem parseFragment_of_forming
    (hs : s = ((what (Grammar.within (nestingBound (Token.lex text)))).run (openFile text)).2)
    (hnew : Forming false (.node p) (openFile text) s new)
    (hflawless : Smooth false (openFile text) s → Each Flawless new) :
    parseFragment what text = .error (fragmentState what text).parsed.errors ∨
    ∃ g, parseFragment what text = .ok g ∧ Encloses text g ∧ p g.kind = true ∧ g.kind ≠ .error := by
  by_cases hclean : (fragmentState what text).parsed.errors = []
  · right
    obtain ⟨herrors, -, hchildren, hleaves⟩ := fragment_of_clean hs hnew.ext hclean
    have hsmooth : Smooth false (openFile text) s := ⟨herrors, nofun⟩
    obtain ⟨k, cs, hbare, hk⟩ := (hnew.whole hsmooth).2
    obtain ⟨front, back, rfl, hfront, hback⟩ := Tree.exists_of_bare_eq_singleton hbare
    have hbehind : IsGap (back ++ triviaAhead s.rest) :=
      List.forall_mem_append.mpr ⟨hback, Lookahead.isGap_triviaAhead _⟩
    rw [List.append_assoc, List.cons_append] at hchildren hleaves
    refine ⟨⟨k, cs⟩, ?_, encloses_of_leaves hleaves hfront hbehind, hk, ?_⟩
    · refine parseFragment_eq_ok_iff.mpr ⟨hclean, ?_⟩
      rw [hchildren, List.findSome?_append, findSome?_node?_of_gap hfront]
      rfl
    · have hnode := hflawless hsmooth (.node k cs) (by simp)
      exact (flawless_node.mp hnode).1.1
  · left
    rw [parseFragment_eq, if_pos]
    simpa using hclean

/-- What a reader of one node makes of a text: the node with trivia around it, or the
complaints that are returned. -/
def ReadsOne (p : Kind → Bool) (what : Grammar.Rules → Parser Unit) (text : String) : Prop :=
  parseFragment what text = .error (fragmentState what text).parsed.errors ∨
    ∃ g, parseFragment what text = .ok g ∧ Encloses text g ∧ p g.kind = true ∧ g.kind ≠ .error

theorem readsOne_of_forms {q : Parser Unit} {n : Prop}
    (hq : (what (Grammar.within (nestingBound (Token.lex text)))).run (openFile text) =
      q.run (openFile text))
    (hforms : FormsIf false (fun _ => True) (.node p) q) (hneat : Neat false n q) :
    ReadsOne p what text := by
  obtain ⟨new, hnew⟩ := hforms _ (underway_openFile text) trivial
  obtain ⟨more, hmore⟩ := hneat _ (sound_openFile text) (ended_lex text) trivial
  obtain rfl := hnew.ext.unique hmore.ext
  exact parseFragment_of_forming (congrArg Prod.snd hq).symm hnew fun hsmooth =>
    (hmore.flawless hsmooth).1

end

theorem readsOne_type (text : String) : ReadsOne Kind.isType (fun _ => Grammar.type) text :=
  readsOne_of_forms rfl Grammar.forms_type Grammar.neat_type

theorem readsOne_expression (text : String) :
    ReadsOne Kind.isExpr (fun rules => rules (.expression 0)) text :=
  readsOne_of_forms (Grammar.whole_eq_within _ (openFile text)).symm
    (Grammar.forms_whole (.expression 0)) (Grammar.neat_whole (.expression 0))

theorem readsOne_member (text : String) :
    ReadsOne Kind.isMember (fun rules => rules .member) text := by
  have hrun : (Grammar.within (nestingBound (Token.lex text)) .member).run (openFile text) =
      (Grammar.member Grammar.whole).run (openFile text) :=
    calc (Grammar.within (nestingBound (Token.lex text)) .member).run (openFile text)
        = (Grammar.whole .member).run (openFile text) :=
          (Grammar.whole_eq_within .member (openFile text)).symm
      _ = (Grammar.member Grammar.whole).run (openFile text) := Grammar.whole_run .member _
  exact readsOne_of_forms hrun (Grammar.forms_member Grammar.forms_whole)
    (Grammar.neat_member Grammar.neat_whole)

/-! ## The complaint of an empty fragment -/

theorem locates_fragmentEnd {all : List Token} : Locates all fragmentEnd :=
  .ask_bind fun _ => .ite (.pure _) ((LocatesIf.complain _).bind fun _ => .skipTo _)

/-- Where a text was read as a fragment, the complaints are at their places. -/
theorem located_fragmentState {what : Grammar.Rules → Parser Unit} (text : String)
    (hwhat : ∀ depth, Locates (Token.lex text) (what (Grammar.within depth))) :
    Located (Token.lex text) (fragmentState what text) :=
  located_runOn text fun depth => (hwhat depth).bind fun _ => locates_fragmentEnd

/-- A token of no width at the start of a text is its end. -/
theorem eq_empty_of_span {text : String} {t : Token} (ht : t ∈ Token.lex text)
    (hspan : t.span = ⟨0, 0⟩) : text = "" := by
  obtain ⟨tokens, hlex, -, -, -, htokens, -⟩ := Token.lex_tiles text
  have hstart : t.span.start = 0 := congrArg Text.Span.start hspan
  have hstop : t.span.stop = 0 := congrArg Text.Span.stop hspan
  rw [hlex, List.mem_append, List.mem_singleton] at ht
  rcases ht with ht | rfl
  · have hlt := (htokens t ht).2.2.2.1
    omega
  · exact String.utf8ByteSize_eq_zero_iff.mp hstart

/-- That nothing was found is said of the start of the text, where only an empty text has a
token to complain about. -/
theorem emptyFragment_not_mem {what : Grammar.Rules → Parser Unit} {text : String}
    (hwhat : ∀ depth, Locates (Token.lex text) (what (Grammar.within depth)))
    (hempty : ⟨"empty fragment", ⟨0, 0⟩⟩ ∉ (fragmentState what "").parsed.errors) :
    ⟨"empty fragment", ⟨0, 0⟩⟩ ∉ (fragmentState what text).parsed.errors := by
  intro hmem
  have hlocated := located_fragmentState text hwhat
  obtain ⟨t, ht⟩ := hlocated.about _ (List.mem_reverse.mp hmem)
  obtain rfl := eq_empty_of_span ht.mem ht.span.symm
  exact hempty hmem

/-- What a reader of one node returns, if it does not complain about an empty fragment. -/
theorem ReadsOne.cases {what : Grammar.Rules → Parser Unit} {text : String} {p : Kind → Bool}
    (h : ReadsOne p what text)
    (hnone : ⟨"empty fragment", ⟨0, 0⟩⟩ ∉ (fragmentState what text).parsed.errors) :
    (∀ g, parseFragment what text = .ok g →
      Encloses text g ∧ p g.kind = true ∧ g.kind ≠ .error) ∧
    ∀ errors, parseFragment what text = .error errors →
      ⟨"empty fragment", ⟨0, 0⟩⟩ ∉ errors := by
  rcases h with h | ⟨g, h, hg⟩
  all_goals rw [h]
  · exact ⟨nofun, by rintro errors ⟨⟩; exact hnone⟩
  · exact ⟨by rintro g ⟨⟩; exact hg, nofun⟩

/-- **Fragments are whole texts.** A text that is read as a type, an expression or a member
is trivia, the text of the node that is returned, and trivia again. The node is of the kind
that was asked for, and no error; that there was no node in a text is never the complaint. -/
theorem parse_fragments (text : String) :
    (∀ g, parseType text = .ok g → Encloses text g ∧ g.kind.isType = true) ∧
    (∀ g, parseExpression text = .ok g → Encloses text g ∧ g.kind.isExpr = true) ∧
    (∀ g, parseMember text = .ok g →
      Encloses text g ∧ g.kind.isMember = true ∧ g.kind ≠ .error) ∧
    ∀ errors, parseType text = .error errors ∨ parseExpression text = .error errors ∨
      parseMember text = .error errors → ⟨"empty fragment", ⟨0, 0⟩⟩ ∉ errors := by
  obtain ⟨htype, htypeErrors⟩ := (readsOne_type text).cases
    (emptyFragment_not_mem (fun _ => Grammar.locates_type) (by decide +kernel))
  obtain ⟨hexpr, hexprErrors⟩ := (readsOne_expression text).cases
    (emptyFragment_not_mem (fun _ => Grammar.locates_within _ _) (by decide +kernel))
  obtain ⟨hmember, hmemberErrors⟩ := (readsOne_member text).cases
    (emptyFragment_not_mem (fun _ => Grammar.locates_within _ _) (by decide +kernel))
  refine ⟨fun g hg => ?_, fun g hg => ?_, hmember, ?_⟩
  · exact ⟨(htype g hg).1, (htype g hg).2.1⟩
  · exact ⟨(hexpr g hg).1, (hexpr g hg).2.1⟩
  · rintro errors (h | h | h)
    · exact htypeErrors errors h
    · exact hexprErrors errors h
    · exact hmemberErrors errors h

theorem exists_eq_ok {ε α : Type} {e : Except ε α} (h : e.isOk = true) : ∃ a, e = .ok a := by
  cases e with
  | ok a => exact ⟨a, rfl⟩
  | error err => cases h

theorem exists_eq_error {ε α : Type} {e : Except ε α} (h : e.isOk = false) :
    ∃ err, e = .error err := by
  cases e with
  | ok a => cases h
  | error err => exact ⟨err, rfl⟩

theorem parse_fragments_spaced :
    (∃ g, parseType " List<int>? // t" = .ok g ∧ Encloses " List<int>? // t" g ∧
      g.kind.isType = true) ∧
    (∃ g, parseExpression "/* c */ f(x)\n" = .ok g ∧ Encloses "/* c */ f(x)\n" g ∧
      g.kind.isExpr = true) ∧
    (∃ g, parseMember " int x; " = .ok g ∧ Encloses " int x; " g ∧ g.kind.isMember = true ∧
      g.kind ≠ .error) ∧
    ∃ errors, parseMember "" = .error errors ∧ ⟨"empty fragment", ⟨0, 0⟩⟩ ∉ errors := by
  obtain ⟨g, hg⟩ := exists_eq_ok (show (parseType " List<int>? // t").isOk = true by decide +kernel)
  obtain ⟨e, he⟩ := exists_eq_ok
    (show (parseExpression "/* c */ f(x)\n").isOk = true by decide +kernel)
  obtain ⟨m, hm⟩ := exists_eq_ok (show (parseMember " int x; ").isOk = true by decide +kernel)
  obtain ⟨errors, herrors⟩ := exists_eq_error
    (show (parseMember "").isOk = false by decide +kernel)
  refine ⟨⟨g, hg, ?_⟩, ⟨e, he, ?_⟩, ⟨m, hm, ?_⟩, errors, herrors, ?_⟩
  · exact (parse_fragments _).1 g hg
  · exact (parse_fragments _).2.1 e he
  · exact (parse_fragments _).2.2.1 m hm
  · exact (parse_fragments "").2.2.2 errors (.inr (.inr herrors))

end CSharpKit.Syntax
