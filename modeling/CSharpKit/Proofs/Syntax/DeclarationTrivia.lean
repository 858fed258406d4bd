import CSharpKit.Proofs.Syntax.ExpressionTrivia

/-!
# Trivia in parse trees

The readers of declarations follow the rules for trivia as well, and so does the
grammar as a whole: it is closed with a complaint where it nests deeper than the tokens
allow, and that is never read.
-/

namespace CSharpKit.Syntax

open Syntax.Tree CSharpKit.Syntax.Parser

namespace Grammar

variable {C : List Token → Prop} {n : Prop}

section

variable {r : Rules} (hr : ∀ c : Construct, Neat false c.Fills (r c))
include hr

/-! ## Parts of declarations -/

omit hr in
theorem neat_modifiers : NeatIf false False C modifiers := by
  refine .ask_bind fun a => .ite (fun ha => ?_) fun _ => .pure _
  have hnode : NeatIf false True (fun ts => Lookahead.atModifier ts = true)
      (node .modifiers (whileAhead Lookahead.atModifier bump)) :=
    .node (by decide) (by simp [Steady]) (.whileAhead_first
      (.bump fun _ => Lookahead.ne_eof_of_atModifier))
  exact (hnode.weaken fun ts hts => hts.2.trans ha).neat

omit hr in
theorem neat_constraintTail (fuel : Nat) : ∀ depth, Neat false False (constraintTail fuel depth) := by
  induction fuel with
  | zero => exact fun _ => .pure _
  | succ fuel ih =>
      intro depth
      refine .ask_bind fun k => .ask_bind fun stops => .ite (fun _ => .pure _) fun hgoes => ?_
      refine ((NeatIf.bump ?_).bind fun _ => .ite (fun _ => ih _) fun _ => .ite (fun _ => ih _)
        fun _ => ih _).neat
      rintro ts ⟨⟨-, rfl⟩, rfl⟩ heof
      simp [heof] at hgoes

omit hr in
theorem neat_constraintClauses : NeatIf false False C constraintClauses := by
  refine .whileAhead (n := True) (neat_keyword (n := True) (by decide) ?_ ?_)
  · exact (NeatIf.require (by decide) _).bind fun _ => (NeatIf.require (by decide) _).bind fun _ =>
      .get_bind fun _ => neat_constraintTail _ _
  · intro ts hts heof
    simp [Lookahead.atWord, heof] at hts

omit hr in
theorem neat_typeParameter : NeatIf false True C typeParameter := by
  refine .under (.node (by decide) (fun _ => id) (neat_attributeLists.next fun _ =>
    .ask_bind fun a => .opt (n := True) (fun ha => .bump ?_) fun _ => .require (by decide) _))
  rintro ts ⟨-, hts⟩ heof
  rw [heof, ha] at hts
  exact absurd hts (by decide)

omit hr in
theorem neat_typeParameterList : NeatIf false True C typeParameterList :=
  .under (.node (by decide) (fun _ => id) ((NeatIf.require (by decide) _).bind fun _ =>
    (NeatIf.separated neat_typeParameter).bind fun _ => .require (by decide) _))

omit hr in
theorem neat_baseList : NeatIf false True C baseList :=
  .under (.node (by decide) (fun _ => id) ((NeatIf.require (by decide) _).bind fun _ =>
    .separated neat_type))

theorem neat_parameterList : NeatIf false True C (parameterList r) :=
  .under (.node (by decide) (fun _ => id) ((NeatIf.expect (by decide) _).bind (m := False) fun _ =>
    .ite (fun _ => ((NeatIf.separatedUntil (neat_parameter hr false)).bind fun _ =>
      NeatIf.require (by decide) _).neat) fun _ => .pure _))

theorem neat_arrowExpressionClause : NeatIf false True C (arrowExpressionClause r) :=
  .under (.node (by decide) (fun _ => id) ((NeatIf.require (by decide) _).bind fun _ =>
    neat_expression hr))

theorem neat_bodyOrSemicolon : NeatIf false True C (bodyOrSemicolon r) := by
  refine .ask_bind fun k => ?_
  split
  · exact neat_block hr
  · exact (neat_arrowExpressionClause hr).bind fun _ => .require (by decide) _
  · exact .require (by decide) _

theorem neat_accessor : NeatIf false True C (accessor r) :=
  .under (.node (by decide) (fun _ => id) (neat_attributeLists.next fun _ =>
    neat_modifiers.next fun _ => .eat_bind (by decide) (neat_bodyOrSemicolon hr)
      ((NeatIf.complain _).bind fun _ => .skip)))

theorem neat_accessorList : NeatIf false True C (accessorList r) :=
  .under (.node (by decide) (fun _ => id) ((NeatIf.require (by decide) _).bind fun _ =>
    (NeatIf.untilAny (neat_accessor hr)).bind fun _ => .require (by decide) _))

omit hr in
theorem neat_optionalSemicolon : NeatIf false False C optionalSemicolon :=
  (NeatIf.eat (by decide)).bind fun _ => .pure _

/-! ## Declarations -/

theorem neat_typeDeclaration {kind : Kind} (hkind : kind ≠ .error) :
    NeatFrom false n True (fun ts => Lookahead.kind ts ≠ .eof) fun start =>
      typeDeclaration r start kind := by
  refine .nodeFrom hkind ((NeatIf.bump fun _ => id).bind fun _ => (NeatIf.require (by decide) _).bind
    fun _ => NeatIf.ask_bind (n := False) fun _ => .opt (fun _ => neat_typeParameterList) fun _ => ?_)
  refine .ask_bind fun _ => .opt (fun _ => neat_baseList) fun _ => neat_constraintClauses.next fun _ => ?_
  refine ((NeatIf.expect (by decide) _).bind (m := False) fun _ => .ite (fun _ => ?_) fun _ =>
    neat_optionalSemicolon).neat
  exact (NeatIf.untilAny (hr .member).under).next fun _ => ((NeatIf.require (by decide) _).bind
    fun _ => neat_optionalSemicolon).neat

theorem neat_enumMember : NeatIf false True C (enumMember r) :=
  .under (.node (by decide) (fun _ => id) (neat_attributeLists.next fun _ =>
    (NeatIf.require (by decide) _).bind fun _ => NeatIf.ask_bind (n := False) fun _ =>
      .ite (fun _ => (neat_equalsValueClause hr).neat) fun _ => .pure _))

theorem neat_enumDeclaration :
    NeatFrom false n True (fun ts => Lookahead.kind ts ≠ .eof) (enumDeclaration r) := by
  refine .nodeFrom (by decide) ((NeatIf.bump fun _ => id).bind fun _ =>
    (NeatIf.require (by decide) _).bind fun _ => NeatIf.ask_bind (n := False) fun _ =>
      .opt (fun _ => neat_baseList) fun _ => ?_)
  refine ((NeatIf.expect (by decide) _).bind (m := False) fun _ => .ite (fun _ => ?_) fun _ =>
    neat_optionalSemicolon).neat
  refine (NeatIf.loop (n := False) ?_).next fun _ => ((NeatIf.require (by decide) _).bind fun _ =>
    neat_optionalSemicolon).neat
  exact .ask_bind fun _ => .ite (fun _ => ((neat_enumMember hr).bind fun _ =>
    .eat (by decide)).neat) fun _ => .pure _

theorem neat_delegateDeclaration :
    NeatFrom false n True (fun ts => Lookahead.kind ts ≠ .eof) (delegateDeclaration r) := by
  refine .nodeFrom (by decide) ((NeatIf.bump fun _ => id).bind fun _ => neat_type.bind fun _ =>
    (NeatIf.require (by decide) _).bind fun _ => NeatIf.ask_bind (n := True) fun _ =>
      .opt (fun _ => neat_typeParameterList) fun _ => ?_)
  exact (neat_parameterList hr).bind fun _ => neat_constraintClauses.bind fun _ =>
    .require (by decide) _

theorem neat_constructorInitializer (hC : ∀ ts, C ts → Lookahead.kind ts ≠ .eof) :
    NeatIf false True C (constructorInitializer r) := by
  have hend : ∀ {C}, NeatIf false False C (isAt .lParen >>= fun opened =>
      if opened then argumentList r else pure ()) :=
    .ask_bind fun _ => .ite (fun _ => (neat_argumentList hr).neat) fun _ => .pure _
  refine (NeatIf.bump hC).bind fun _ => NeatIf.ask_bind (n := True) fun a => .ite (fun ha => ?_) fun _ => ?_
  · refine (NeatIf.bump ?_).bind fun _ => hend
    rintro ts ⟨-, hts⟩ heof
    rw [heof, ha] at hts
    exact absurd hts (by decide)
  · exact (NeatIf.complain _).bind fun _ => hend

theorem neat_constructorDeclaration :
    NeatFrom false n True (fun ts => Lookahead.kind ts ≠ .eof) (constructorDeclaration r) := by
  refine .nodeFrom (by decide) ((NeatIf.bump fun _ => id).bind fun _ => (neat_parameterList hr).bind
    fun _ => NeatIf.ask_bind (n := True) fun a => .opt (fun ha => neat_constructorInitializer hr ?_) fun _ =>
      neat_bodyOrSemicolon hr)
  rintro ts ⟨-, rfl⟩
  simp [eq_of_beq ha]

theorem neat_methodDeclaration :
    NeatFrom false n True (fun ts => Lookahead.kind ts ≠ .eof) (methodDeclaration r) :=
  .nodeFrom (by decide) ((NeatIf.bump fun _ => id).bind fun _ => NeatIf.ask_bind (n := True) fun _ =>
    .opt (fun _ => neat_typeParameterList) fun _ => (neat_parameterList hr).bind fun _ =>
      neat_constraintClauses.bind fun _ => neat_bodyOrSemicolon hr)

theorem neat_propertyDeclaration :
    NeatFrom false n True (fun ts => Lookahead.kind ts ≠ .eof) (propertyDeclaration r) := by
  refine .nodeFrom (by decide) ((NeatIf.bump fun _ => id).bind fun _ => NeatIf.ask_bind (n := True)
    fun _ => .ite (fun _ => ?_) fun _ => ?_)
  · exact (neat_arrowExpressionClause hr).bind fun _ => .require (by decide) _
  · refine (neat_accessorList hr).bind fun _ => NeatIf.ask_bind (n := False) fun _ => ?_
    exact .ite (fun _ => ((neat_equalsValueClause hr).bind fun _ => .require (by decide) _).neat)
      fun _ => .pure _

omit hr in
theorem run_flushTrivia_opening (s : ParserState) (kind : Kind) (first : Nat) :
    (flushTrivia.run (opening s kind first)).2 = opening (flushTrivia.run s).2 kind first := by
  have hrun : ∀ s : ParserState, (flushTrivia.run s).2 = { s with
      builder := (splitTrivia s.builder s.rest).1, rest := (splitTrivia s.builder s.rest).2 } :=
    fun _ => rfl
  rw [hrun, hrun, splitTrivia_eq, splitTrivia_eq]
  rfl

/-- The variables of a field take over its type, which starts at a mark of its own. -/
theorem passes_fieldDeclaration {s₀ s s₁ : ParserState} {front typ : Forest} (hs : Sound s₀)
    (hend : Ended s₀.rest) (hready : Ready s₀.rest) (hfront : Passage false n s₀ s front)
    (htype : Passage false True (flushTrivia.run s).2 s₁ typ) :
    Passes false True s₀ (fieldDeclaration r s₀.builder.mark (flushTrivia.run s).2.builder.mark) s₁ := by
  have hext := hfront.ext.trans (extends_flushTrivia s)
  have hvariables : NeatFrom false True True (fun _ => True) fun start =>
      nodeFrom start .variableDeclaration (variableDeclarators r) >>= fun _ =>
        require .semicolon "expected `;` after field declaration" :=
    (NeatFrom.nodeFrom (by decide) (neat_variableDeclarators hr)).bind fun _ =>
      .of_neat (.require (by decide) _)
  have hready₁ : Ready (flushTrivia.run s).2.rest := by
    rw [rest_flushTrivia]
    exact triviaAhead_significant s.rest
  obtain ⟨more, hmore⟩ := hvariables (opening (flushTrivia.run s).2 .fieldDeclaration s₀.builder.mark)
    (opening s₁ .fieldDeclaration s₀.builder.mark) typ (sound_opening hext _) (hext.ended hend) hready₁
    (htype.opened _ _) trivial
  have hbehind : Passage false True (flushTrivia.run (opening s .fieldDeclaration s₀.builder.mark)).2
      ((nodeFrom (flushTrivia.run s).2.builder.mark .variableDeclaration (variableDeclarators r) >>=
        fun _ => require .semicolon "expected `;` after field declaration").run
          (opening s₁ .fieldDeclaration s₀.builder.mark)).2 more := by
    rw [run_flushTrivia_opening]
    exact hmore
  have hbody := (hfront.opened .fieldDeclaration s₀.builder.mark).trans hbehind.behind_trivia
  exact passes_nodeFrom hs hready (hext.trans htype.ext) (hbody.imp .inr) fun h =>
    absurd h (by decide)

omit hr in
theorem neat_skipMember : NeatIf false False C skipMember := by
  refine .loop (n := False) (.ask_bind fun k => .ite (fun _ => .pure _) fun hk => ?_)
  have hbump : NeatIf false True (fun ts => True ∧ Lookahead.kind ts = k) bump := by
    refine .bump ?_
    rintro ts ⟨-, rfl⟩ heof
    simp [heof] at hk
  refine .ite (fun _ => (hbump.bind fun _ => .pure _).neat) fun _ => .ite (fun hbrace => ?_) fun _ =>
    (hbump.bind fun _ => .pure _).neat
  refine (((neat_skipBracketed (by decide)).weaken ?_).bind fun _ => .ask _).neat
  rintro ts ⟨-, rfl⟩
  exact eq_of_beq hbrace

theorem neat_typedMember : NeatFrom false n True C (typedMember r) := by
  intro s₀ s front hs hend hready hfront _
  -- The type starts behind the trivia, and all since then is what it read.
  have hext := hfront.ext.trans (extends_flushTrivia s)
  obtain ⟨typ, htype⟩ := neat_type (C := fun _ => True) (flushTrivia.run s).2 (hext.sound hs)
    (hext.ended hend) trivial
  have hall := (hfront.trans htype.behind_trivia).imp (m := True) .inr
  refine Passes.mark (Passes.run_bind (Passes.ask ?_))
  generalize (type.run (flushTrivia.run s).2).2 = s₁ at htype hall ⊢
  split
  case h_1 | h_2 =>
    exact neat_methodDeclaration hr s₀ s₁ _ hs hend hready hall (ne_eof_of_follower ‹_›)
  case h_3 | h_4 =>
    exact neat_propertyDeclaration hr s₀ s₁ _ hs hend hready hall (ne_eof_of_follower ‹_›)
  case h_5 => exact passes_fieldDeclaration hr hs hend hready hfront htype
  case h_6 =>
    have herror : NeatFrom false True True (fun _ => True) fun start =>
        nodeFrom start .error (complain "expected member name" >>= fun _ => skipMember) :=
      .nodeFrom_error neat_skipMember
    exact herror s₀ s₁ _ hs hend hready hall trivial

theorem neat_memberAfter : NeatFrom false n True C (memberAfter r) := by
  refine .ask_bind fun k => ?_
  split
  case h_1 | h_2 | h_3 =>
    exact (neat_typeDeclaration hr (by decide)).weaken (ne_eof_of_and_eq (by decide))
  case h_4 => exact (neat_enumDeclaration hr).weaken (ne_eof_of_and_eq (by decide))
  case h_5 => exact (neat_delegateDeclaration hr).weaken (ne_eof_of_and_eq (by decide))
  case h_6 =>
    refine .ask_bind fun _ => .ite (fun hk => ?_) fun _ => .ask_bind fun _ => .ite (fun _ => ?_) fun _ => ?_
    · refine (neat_constructorDeclaration hr).weaken ?_
      rintro ts ⟨⟨-, rfl⟩, -⟩ heof
      simp [heof] at hk
    · exact neat_typedMember hr
    · exact .nodeFrom_error (NeatIf.skip.next fun _ => neat_skipMember)

omit hr in
theorem neat_declarationFront : NeatIf false False C declarationFront :=
  neat_attributeLists.next fun _ => neat_modifiers

theorem neat_member : NeatIf false True C (member r) :=
  .under (.mark_bind (fun _ => id) ((NeatFrom.of_neat neat_declarationFront).bind fun _ =>
    neat_memberAfter hr))

/-! ## Files and namespaces -/

omit hr in
theorem neat_usingDirective : NeatIf false True C usingDirective := by
  have hend : ∀ {C}, NeatIf false True C (type >>= fun _ =>
      require .semicolon "expected `;` after using directive") :=
    neat_type.bind fun _ => .require (by decide) _
  refine .under (.node (by decide) (fun _ => id) ((NeatIf.require (by decide) _).bind (m := True)
    fun _ => .ask_bind fun a => .opt (n := True) (fun ha => .bump ?_) fun _ => .ask_bind fun b =>
      .ask_bind fun c => .ite (fun halias => ?_) fun _ => hend))
  · rintro ts ⟨-, rfl⟩
    simp [eq_of_beq ha]
  · -- The name of an alias, and the mark behind it.
    simp only [Bool.and_eq_true] at halias
    have hname : NeatIf false True (fun ts => Lookahead.kind ts ≠ .eof ∧
        Lookahead.kindAt? 1 ts = some .eq) bump := .bump fun _ => And.left
    refine (hname.seq (m := True) leaves_bump fun _ => ?_).weaken ?_
    · exact (NeatIf.bump fun ts hts => by simp [hts]).bind fun _ => hend
    · rintro ts ⟨⟨-, rfl⟩, rfl⟩
      exact ⟨by simp [eq_of_beq halias.1], eq_of_beq halias.2⟩

theorem neat_namespaceDeclaration :
    NeatFrom false n True C (namespaceDeclaration r) := by
  refine (NeatFrom.of_neatIf (NeatIf.require (by decide) _) (k := True) .inr).bind fun _ =>
    (NeatFrom.of_neat (neat_name neat_type false)).bind fun _ => .ask_bind fun a => .ite (fun ha => ?_)
      fun _ => ?_
  · refine .nodeFrom (by decide) ((NeatIf.bump ?_).bind fun _ => hr (.namespaceBody false))
    rintro ts ⟨-, rfl⟩
    simp [eq_of_beq ha]
  · exact .nodeFrom (by decide) ((NeatIf.require (by decide) _).bind fun _ =>
      (hr (.namespaceBody true)).next fun _ => (NeatIf.require (by decide) _).bind fun _ =>
        neat_optionalSemicolon)

theorem neat_namespaceMember : NeatIf false True C (namespaceMember r) := by
  refine .under (.mark_bind (fun _ => id) ((NeatFrom.of_neat neat_declarationFront).bind fun _ =>
    .ask_bind fun _ => .ite (fun _ => ?_) fun _ => ?_))
  · exact neat_namespaceDeclaration hr
  · exact neat_memberAfter hr

omit hr in
theorem neat_strayTokens : NeatIf false True C strayTokens :=
  have hskip : Neat false False (skip >>= fun _ => skipTo namespaceAnchors) :=
    NeatIf.skip.next fun _ => .skipTo _
  .node_error hskip

theorem neat_namespaceItem (inBlock : Bool) : Neat false False (namespaceItem r inBlock) := by
  refine .ask_bind fun k => .ite (fun _ => .pure _) fun _ => .ite (fun _ => ?_) fun _ =>
    .ask_bind fun _ => .ite (fun _ => ?_) fun _ => ?_
  · exact (neat_usingDirective.bind fun _ => .pure _).neat
  · exact ((neat_namespaceMember hr).bind fun _ => .pure _).neat
  · exact (neat_strayTokens.bind fun _ => .pure _).neat

theorem neat_construct (c : Construct) : Neat false c.Fills (construct r c) := by
  cases c with
  | namespaceBody inBlock => exact .loop (neat_namespaceItem hr inBlock)
  | member => exact neat_member hr
  | statement => exact neat_statement hr
  | expression power => exact neat_expressionAbove hr power
  | unary => exact neat_unary hr
  | initializer => exact neat_initializer hr

end

/-- A complaint in place of a construct. -/
def refusal : Rules := fun _ => complain "nested too deep"

theorem neat_withinOr (depth : Nat) (c : Construct) : Neat false c.Fills (withinOr refusal depth c) := by
  induction depth generalizing c with
  | zero => exact (NeatIf.complain _).imp fun _ => trivial
  | succ depth ih => exact neat_construct ih c

theorem neat_whole (c : Construct) : Neat false c.Fills (whole c) := by
  intro s hs hend _
  have henters : Enters (pending s.rest) (fun _ => True) (fun ts => True ∧ c.Opens ts) (whole c)
      (withinOr refusal (3 * pending s.rest + c.rank + 1) c) := enters_whole (Nat.lt_succ_self _)
  refine Passes.congr (congrArg Prod.snd (henters s trivial (Nat.lt_succ_self _)).1) ?_
  exact neat_withinOr _ c s hs hend trivial

end Grammar

theorem ended_lex (text : String) : Ended (Token.lex text) := by
  obtain ⟨last, hlex, hlast, -⟩ := Token.lex_eq_contents text
  exact ⟨Token.contents text, last, hlex, hlast⟩

/-- The reader of a file starts with the open root, and what it reads goes under the root. -/
theorem parse_of_extends {text : String} {s : ParserState} {new : Forest}
    (hs : s = ((Grammar.whole (.namespaceBody false)).run (openFile text)).2)
    (hext : Extends (openFile text) s new) :
    (parse text).tree = .node .compilationUnit (new ++ triviaAhead s.rest) ∧
      (parse text).errors = s.errors.reverse := by
  rw [Grammar.whole, run_get_bind] at hs
  obtain ⟨hbuilder, -, herrors, -⟩ := wholeFile_run hs hext rfl
  refine ⟨?_, congrArg List.reverse herrors⟩
  show ((parseState text).builder.finish?.getD default).tree = _
  rw [show (parseState text).builder = _ from hbuilder]
  rfl

theorem exists_passage (text : String) : ∃ s new, Passage false False (openFile text) s new ∧
    (parse text).tree = .node .compilationUnit (new ++ triviaAhead s.rest) ∧
    (parse text).errors = s.errors.reverse := by
  obtain ⟨new, hnew⟩ := Grammar.neat_whole (.namespaceBody false) (openFile text)
    (sound_openFile text) (ended_lex text) trivial
  exact ⟨_, new, hnew, parse_of_extends rfl hnew.ext⟩

/-- **Trivia in parse trees.** Every node but the root is empty or opens with a token that is
no trivia. If the parser had no complaint, every such node opens and closes with a token that
is no trivia, and no node is an error. -/
theorem parse_trivia (text : String) :
    (∀ c ∈ (parse text).tree.children, Attached c) ∧
    ((parse text).errors = [] →
      (parse text).tree.kind ≠ .error ∧ ∀ c ∈ (parse text).tree.children, Flawless c) := by
  obtain ⟨s, new, hnew, htree, herrors⟩ := exists_passage text
  have htrivia : Each (fun t => Attached t ∧ Flawless t) (triviaAhead s.rest) :=
    triviaAhead_all (fun k text _ => ⟨attached_token k text, flawless_token k text⟩) _
  rw [htree, herrors]
  refine ⟨hnew.attached.append fun t ht => (htrivia t ht).1, fun hclean => ⟨nofun, ?_⟩⟩
  have hsmooth : Smooth false (openFile text) s := ⟨List.reverse_eq_nil_iff.mp hclean, nofun⟩
  exact (hnew.flawless hsmooth).1.append fun t ht => (htrivia t ht).2

end CSharpKit.Syntax
