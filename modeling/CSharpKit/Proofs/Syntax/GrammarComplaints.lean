import CSharpKit.Proofs.Syntax.Complaints
import CSharpKit.Proofs.Syntax.DeclarationTrivia

/-!
# Complaints of the grammar

Every reader of the grammar makes its complaints about the next token, and opens a node for
an error only with a complaint. How deep constructs nest does not matter here.
-/

namespace CSharpKit.Syntax

open CSharpKit.Syntax.Parser

namespace Grammar

variable {all : List Token} {C : List Token → Prop}

/-! ## Types -/

theorem locates_leaf {kind : Kind} (hkind : kind ≠ .error) : LocatesIf all C (leaf kind) :=
  .node hkind .bump

section

variable {inner : Parser Unit} (h : Locates all inner)
include h

theorem locates_typeArgumentList : LocatesIf all C (typeArgumentList inner) :=
  .node (by decide) ((LocatesIf.require _ _).bind fun _ => (LocatesIf.loop
    (.ask_bind fun _ => .ite (.pure _) ((LocatesIf.eat _).bind fun _ => .ite (.pure _)
      (h.under.bind fun _ => .eat _)))).bind fun _ => .require _ _)

theorem locates_simpleName (generic : Bool) : LocatesIf all C (simpleName inner generic) :=
  .ask_bind fun _ => .ask_bind fun _ => .ite
    (.node (by decide) (LocatesIf.bump.bind fun _ => locates_typeArgumentList h))
    (.node (by decide) (.require _ _))

theorem locates_nameHead (start : Nat) (generic : Bool) :
    LocatesIf all C (nameHead inner start generic) :=
  .ask_bind fun _ => .ask_bind fun _ => .ite
    (.nodeFrom (by decide) start ((locates_leaf (by decide)).bind fun _ =>
      LocatesIf.bump.bind fun _ => locates_simpleName h generic))
    (locates_simpleName h generic)

theorem locates_name (generic : Bool) : LocatesIf all C (name inner generic) :=
  LocatesIf.mark.bind fun start => (locates_nameHead h start generic).bind fun _ =>
    .whileAhead (.nodeFrom (by decide) start (LocatesIf.bump.bind fun _ =>
      locates_simpleName h generic))

omit h in
theorem locates_typeSuffix (start : Nat) : LocatesIf all C (typeSuffix start) := by
  have hrank : ∀ {C}, LocatesIf all C rankSpecifiers :=
    .whileAhead (.node (by decide) (LocatesIf.bump.bind fun _ =>
      (LocatesIf.loop (.eat _)).bind fun _ => .require _ _))
  refine .ask_bind fun k => ?_
  split
  · exact (LocatesIf.nodeFrom (by decide) start .bump).bind fun _ => .pure _
  · exact .ask_bind fun _ => .ask_bind fun _ => .ite
      ((LocatesIf.nodeFrom (by decide) start hrank).bind fun _ => .pure _) (.pure _)
  · exact .pure _

theorem locates_typeWith : Locates all (typeWith inner) :=
  LocatesIf.mark.bind fun start => .ask_bind fun _ => .ite
    ((locates_leaf (by decide)).bind fun _ => .loop (locates_typeSuffix start))
    (.ite ((locates_name h true).bind fun _ => .loop (locates_typeSuffix start)) (.complain _))

end

theorem locates_typeWithin (depth : Nat) : Locates all (typeWithin depth) := by
  induction depth with
  | zero => exact .pure _
  | succ depth ih => exact locates_typeWith ih

theorem locates_type : LocatesIf all C type := .get_bind fun _ => (locates_typeWithin _).under

/-! ## Expressions -/

theorem locates_bracketed (opening closing : Kind) (fuel : Nat) :
    ∀ depth, Locates all (bracketed opening closing fuel depth) := by
  induction fuel with
  | zero => exact fun _ => .pure _
  | succ fuel ih =>
      intro depth
      refine .ask_bind fun k => .ite (.pure _) (.ite (LocatesIf.bump.bind fun _ => ih _) (.ite ?_
        (LocatesIf.bump.bind fun _ => ih _)))
      exact (LocatesIf.countDown depth).bind fun _ => LocatesIf.bump.bind fun _ =>
        .ite (.pure _) (ih _)

theorem locates_skipBracketed (opening closing : Kind) :
    LocatesIf all C (skipBracketed opening closing) :=
  .get_bind fun _ => (locates_bracketed _ _ _ _).under

theorem locates_attributeLists : LocatesIf all C attributeLists :=
  .whileAhead (.node (by decide) (locates_skipBracketed _ _))

theorem locates_expressionName : LocatesIf all C expressionName :=
  .ask_bind fun _ => locates_simpleName locates_type _

theorem locates_aliasQualifiedExpression : LocatesIf all C aliasQualifiedExpression :=
  .node (by decide) ((locates_leaf (by decide)).bind fun _ => LocatesIf.bump.bind fun _ =>
    .ask_bind fun _ => .ite locates_expressionName (.complain _))

theorem locates_createdType : LocatesIf all C createdType :=
  LocatesIf.mark.bind fun start => .ask_bind fun _ => .ite
    ((locates_leaf (by decide)).bind fun _ => .ask_bind fun _ =>
      .ite (.nodeFrom (by decide) start .bump) (.pure _))
    ((locates_name locates_type true).bind fun _ => .ask_bind fun _ =>
      .ite (.nodeFrom (by decide) start .bump) (.pure _))

section

variable {r : Rules} (hr : ∀ c : Construct, Locates all (r c))
include hr

theorem locates_expression : LocatesIf all C (expression r) := (hr (.expression 0)).under

theorem locates_equalsValueClause : LocatesIf all C (equalsValueClause r) :=
  .node (by decide) ((LocatesIf.require _ _).bind fun _ => locates_expression hr)

theorem locates_block : LocatesIf all C (block r) :=
  .node (by decide) ((LocatesIf.require _ _).bind fun _ =>
    (LocatesIf.untilAny (hr .statement)).bind fun _ => .require _ _)

theorem locates_parameter (implicitType : Bool) : LocatesIf all C (parameter r implicitType) := by
  have hname : ∀ {C}, LocatesIf all C (require .identifier "expected parameter name" >>= fun _ =>
      isAt .eq >>= fun atEq => if atEq then equalsValueClause r else pure ()) :=
    (LocatesIf.require _ _).bind fun _ => .ask_bind fun _ =>
      .ite (locates_equalsValueClause hr) (.pure _)
  exact .node (by decide) (locates_attributeLists.bind fun _ => .ask_bind fun _ =>
    .opt (.node (by decide) (.whileAhead .bump)) fun _ => .ask_bind fun _ => .ask_bind fun _ =>
      .ask_bind fun _ => .ite hname (locates_type.bind fun _ => hname))

theorem locates_argument : LocatesIf all C (argument r) := by
  have hvalue : Locates all (isAtAny [.refKw, .outKw, .inKw] >>= fun passed => if passed then
      isAt .outKw >>= fun out => bump >>= fun _ => ask Lookahead.atOutDeclaration >>= fun declares =>
        if out && declares then type >>= fun _ => bump else expression r
      else expression r) :=
    .ask_bind fun _ => .ite (.ask_bind fun _ => LocatesIf.bump.bind fun _ => .ask_bind fun _ =>
      .ite (locates_type.bind fun _ => .bump) (locates_expression hr)) (locates_expression hr)
  exact .node (by decide) (.ask_bind fun _ => .ask_bind fun _ => .opt (.node (by decide)
    ((locates_leaf (by decide)).bind fun _ => .bump)) fun _ => hvalue)

theorem locates_argumentList : LocatesIf all C (argumentList r) :=
  .node (by decide) ((LocatesIf.require _ _).bind fun _ =>
    (LocatesIf.separatedUntil (locates_argument hr)).bind fun _ => .require _ _)

theorem locates_bracketedArgumentList : LocatesIf all C (bracketedArgumentList r) :=
  .node (by decide) ((LocatesIf.require _ _).bind fun _ =>
    (LocatesIf.separatedUntil (locates_argument hr)).bind fun _ => .require _ _)

theorem locates_lambdaBody : LocatesIf all C (lambdaBody r) :=
  (LocatesIf.require _ _).bind fun _ => .ask_bind fun _ =>
    .ite (locates_block hr) (locates_expression hr)

theorem locates_simpleLambda (isAsync : Bool) : LocatesIf all C (simpleLambda r isAsync) :=
  .node (by decide) (.opt .bump fun _ => (locates_leaf (by decide)).bind fun _ =>
    locates_lambdaBody hr)

theorem locates_parenthesizedLambda (isAsync : Bool) :
    LocatesIf all C (parenthesizedLambda r isAsync) := by
  have hparameters : Locates all (node .parameterList (bump >>= fun _ =>
      separatedUntil [.rParen, .eof] (parameter r true) >>= fun _ => require .rParen "expected `)`")) :=
    .node (by decide) (LocatesIf.bump.bind fun _ =>
      (LocatesIf.separatedUntil (locates_parameter hr true)).bind fun _ => .require _ _)
  exact .node (by decide) (.opt .bump fun _ => hparameters.bind fun _ => locates_lambdaBody hr)

theorem locates_creationRank : LocatesIf all C (creationRank r) :=
  .node (by decide) (LocatesIf.bump.bind fun _ => (LocatesIf.separatedUntil
    (.ask_bind fun _ => .ite (.pure _) (locates_expression hr))).bind fun _ => .require _ _)

theorem locates_objectCreation : LocatesIf all C (objectCreation r) := by
  have hvalues : Locates all (isAt .lBrace >>= fun braced =>
      if braced then r .initializer else pure ()) :=
    .ask_bind fun _ => .ite (hr .initializer).under (.pure _)
  exact .node (by decide) (LocatesIf.bump.bind fun _ => .ask_bind fun _ =>
    .opt locates_createdType fun _ => (LocatesIf.whileAhead (locates_creationRank hr)).bind fun _ =>
      .ask_bind fun _ => .opt (locates_argumentList hr) fun _ => hvalues)

theorem locates_initializer : LocatesIf all C (initializer r) :=
  .node (by decide) ((LocatesIf.require _ _).bind fun _ => (LocatesIf.separatedUntil
    (.ask_bind fun _ => .ite (hr .initializer).under (locates_expression hr))).bind fun _ =>
      .require _ _)

theorem locates_afterParen : LocatesIf all C (afterParen r) :=
  .ask_bind fun _ => .ite (locates_parenthesizedLambda hr _) (.ask_bind fun _ => .ite
    (.node (by decide) (LocatesIf.bump.bind fun _ => locates_type.bind fun _ =>
      (LocatesIf.require _ _).bind fun _ => hr .unary))
    (.node (by decide) (LocatesIf.bump.bind fun _ => (locates_expression hr).bind fun _ =>
      .require _ _)))

theorem locates_afterIdentifier : LocatesIf all C (afterIdentifier r) :=
  .ask_bind fun _ => .ask_bind fun _ => .ask_bind fun _ => .ite (locates_parenthesizedLambda hr _)
    (.ask_bind fun _ => .ask_bind fun _ => .ite (locates_simpleLambda hr _)
      (.ask_bind fun _ => .ite (locates_simpleLambda hr _)
        (.ask_bind fun _ => .ite locates_aliasQualifiedExpression locates_expressionName)))

theorem locates_primary : LocatesIf all C (primary r) := by
  refine .ask_bind fun k => ?_
  split
  case h_10 =>
    exact .node (by decide) (LocatesIf.bump.bind fun _ => (LocatesIf.require _ _).bind fun _ =>
      locates_type.bind fun _ => .require _ _)
  case h_11 =>
    exact .node (by decide) (LocatesIf.bump.bind fun _ => (LocatesIf.eat _).bind fun _ =>
      .ite (locates_type.bind fun _ => .require _ _) (.pure _))
  case h_12 => exact locates_objectCreation hr
  case h_13 => exact locates_afterParen hr
  case h_14 => exact locates_afterIdentifier hr
  case h_15 => exact .ite (locates_leaf (by decide)) (.complain _)
  all_goals exact locates_leaf (by decide)

theorem locates_postfixPart (start : Nat) : LocatesIf all C (postfixPart r start) := by
  have hstep : ∀ {C} {kind : Kind} {body : Parser Unit}, kind ≠ .error → Locates all body →
      LocatesIf all C (nodeFrom start kind body >>= fun _ => pure true) :=
    fun hkind hbody => (LocatesIf.nodeFrom hkind start hbody.under).bind fun _ => .pure _
  have hmember : Locates all (bump >>= fun _ => isAt .identifier >>= fun atName =>
      if atName then expressionName else complain "expected member name") :=
    LocatesIf.bump.bind fun _ => .ask_bind fun _ => .ite locates_expressionName (.complain _)
  refine .ask_bind fun k => ?_
  split
  case h_1 | h_2 => exact hstep (by decide) hmember
  case h_3 => exact hstep (by decide) (locates_argumentList hr)
  case h_4 => exact hstep (by decide) (locates_bracketedArgumentList hr)
  case h_5 | h_6 => exact hstep (by decide) .bump
  case h_7 =>
    exact .ask_bind fun _ => .ask_bind fun _ => .ite (.pure _) (hstep (by decide) .bump)
  case h_8 => exact .pure _

theorem locates_operand : LocatesIf all C (operand r) :=
  LocatesIf.mark.bind fun start => (locates_primary hr).bind fun _ =>
    (LocatesIf.grownSince start).bind fun _ => .ite (.loop (locates_postfixPart hr start)) (.pure _)

theorem locates_unary : LocatesIf all C (unary r) := by
  have hprefix : ∀ {C}, LocatesIf all C
      (node .prefixUnaryExpression (bump >>= fun _ => r .unary)) :=
    .node (by decide) (LocatesIf.bump.bind fun _ => hr .unary)
  refine .ask_bind fun k => ?_
  split
  case h_10 => exact .ask_bind fun _ => .ite hprefix (locates_operand hr)
  case h_11 => exact locates_operand hr
  all_goals exact hprefix

/-! ## Operators -/

theorem locates_conditionalPart (power start : Nat) :
    LocatesIf all C (conditionalPart r power start) :=
  .ite (.pure _) ((LocatesIf.nodeFrom (by decide) start (LocatesIf.bump.bind fun _ =>
    (locates_expression hr).bind fun _ => (LocatesIf.require _ _).bind fun _ =>
      hr (.expression _))).bind fun _ => .pure _)

theorem locates_isPart (power start : Nat) : LocatesIf all C (isPart r power start) :=
  .ite (.pure _) ((LocatesIf.nodeFrom (by decide) start (LocatesIf.bump.bind fun _ =>
    .ask_bind fun _ => .ite (locates_type.bind fun _ => (LocatesIf.eat _).bind fun _ => .pure _)
      (hr (.expression _)).under)).bind fun _ => .pure _)

omit hr in
theorem locates_asPart (power start : Nat) : LocatesIf all C (asPart power start) :=
  .ite (.pure _) ((LocatesIf.nodeFrom (by decide) start (LocatesIf.bump.bind fun _ =>
    locates_type)).bind fun _ => .pure _)

omit hr in
/-- Both tokens of a shift operator are there, side by side. -/
theorem locates_shift {more : Parser Unit} (hmore : Locates all more) :
    LocatesIf all (fun ts => (Lookahead.shiftTail? ts).isSome = true)
      (bump >>= fun _ => take >>= fun _ => more) := by
  refine LocatesIf.bump.seq (fun s hs => ?_) fun _ => LocatesIf.take.bind fun _ => hmore
  obtain ⟨a, b, rest, hrest, ha, hb⟩ := exists_of_shiftTail? hs
  have hne : Lookahead.kind s.rest ≠ .eof := by
    simp [Lookahead.kind, Lookahead.headKind?, hrest, ha]
  obtain ⟨-, -, t, hnext, -⟩ := yields_bump hne
  rw [hrest] at hnext
  refine ⟨b, rest, (List.cons.inj hnext).2.symm, ?_⟩
  rcases hb with hb | hb <;> simp [hb]

theorem locates_binaryPart (power start : Nat) : LocatesIf all C (binaryPart r power start) := by
  refine .ask_bind fun found => ?_
  split
  case h_1 => exact .pure _
  case h_2 binding =>
    refine .ite (.pure _) (.ask_bind fun isShift => ?_)
    have hoperator : LocatesIf all (fun ts => (Lookahead.shiftTail? ts).isSome = isShift)
        (bump >>= fun _ => if isShift then take >>= fun _ => r (.expression binding.right)
          else r (.expression binding.right)) := by
      cases isShift with
      | true => exact locates_shift (hr (.expression _))
      | false => exact LocatesIf.bump.bind fun _ => hr (.expression _)
    intro s hs hc
    have hkind : binding.node ≠ .error := by
      rcases node_of_binding? hc.1.2 with hkind | hkind <;> simp [hkind]
    exact LocatesIf.bind (LocatesIf.nodeFrom hkind start hoperator) (fun _ => .pure _) s hs hc.2

theorem locates_infixPart (power start : Nat) : LocatesIf all C (infixPart r power start) := by
  refine .ask_bind fun k => ?_
  split
  case h_1 => exact locates_conditionalPart hr power start
  case h_2 => exact locates_isPart hr power start
  case h_3 => exact locates_asPart power start
  case h_4 => exact locates_binaryPart hr power start

theorem locates_expressionAbove (power : Nat) : LocatesIf all C (expressionAbove r power) :=
  LocatesIf.mark.bind fun start => (hr .unary).bind fun _ =>
    (LocatesIf.grownSince start).bind fun _ =>
      .ite (.loop (locates_infixPart hr power start)) (.pure _)

/-! ## Statements -/

theorem locates_variableDeclarators : LocatesIf all C (variableDeclarators r) :=
  .separated (.node (by decide) ((LocatesIf.require _ _).bind fun _ => .ask_bind fun _ =>
    .opt (locates_bracketedArgumentList hr) fun _ => .ask_bind fun _ =>
      .ite (locates_equalsValueClause hr) (.pure _)))

theorem locates_variableDeclaration : LocatesIf all C (variableDeclaration r) :=
  .node (by decide) (locates_type.bind fun _ => locates_variableDeclarators hr)

theorem locates_embeddedStatement : LocatesIf all C (embeddedStatement r) :=
  .ask_bind fun _ => .ite (.complain _) (hr .statement).under

theorem locates_parenthesizedCondition : LocatesIf all C (parenthesizedCondition r) :=
  (LocatesIf.require _ _).bind fun _ => (locates_expression hr).bind fun _ => .require _ _

theorem locates_jump {kind : Kind} (hkind : kind ≠ .error) (missing : String) :
    LocatesIf all C (jump r kind missing) :=
  .node hkind (LocatesIf.bump.bind fun _ => .ask_bind fun _ => .ite (.require _ _)
    ((locates_expression hr).bind fun _ => .require _ _))

theorem locates_ifStatement : LocatesIf all C (ifStatement r) :=
  .node (by decide) (LocatesIf.bump.bind fun _ => (locates_parenthesizedCondition hr).bind fun _ =>
    (locates_embeddedStatement hr).bind fun _ => .ask_bind fun _ => .ite
      (.node (by decide) (LocatesIf.bump.bind fun _ => locates_embeddedStatement hr)) (.pure _))

theorem locates_whileStatement : LocatesIf all C (whileStatement r) :=
  .node (by decide) (LocatesIf.bump.bind fun _ => (locates_parenthesizedCondition hr).bind fun _ =>
    locates_embeddedStatement hr)

theorem locates_expressionList (terminator : Kind) : LocatesIf all C (expressionList r terminator) :=
  .loop ((locates_expression hr).bind fun _ => .ask_bind fun _ => .ite (.pure _) (.eat _))

theorem locates_forStatement : LocatesIf all C (forStatement r) := by
  have hend : ∀ {C}, LocatesIf all C (require .rParen "expected `)`" >>= fun _ =>
      embeddedStatement r) :=
    (LocatesIf.require _ _).bind fun _ => locates_embeddedStatement hr
  have hsteps : ∀ {C}, LocatesIf all C (require .semicolon "expected `;`" >>= fun _ =>
      isAt .rParen >>= fun closed =>
        if closed then require .rParen "expected `)`" >>= fun _ => embeddedStatement r
        else expressionList r .rParen >>= fun _ => require .rParen "expected `)`" >>= fun _ =>
          embeddedStatement r) :=
    (LocatesIf.require _ _).bind fun _ => .ask_bind fun _ =>
      .ite hend ((locates_expressionList hr _).bind fun _ => hend)
  have hcondition : ∀ {C}, LocatesIf all C (require .semicolon "expected `;`" >>= fun _ =>
      isAt .semicolon >>= fun empty => if empty then _ else expression r >>= fun _ => _) :=
    (LocatesIf.require _ _).bind fun _ => .ask_bind fun _ =>
      .ite hsteps ((locates_expression hr).bind fun _ => hsteps)
  exact .node (by decide) (LocatesIf.bump.bind fun _ => (LocatesIf.require _ _).bind fun _ =>
    .ask_bind fun _ => .ite hcondition (.ask_bind fun _ =>
      .ite ((locates_variableDeclaration hr).bind fun _ => hcondition)
        ((locates_expressionList hr _).bind fun _ => hcondition)))

theorem locates_forEachStatement : LocatesIf all C (forEachStatement r) :=
  .node (by decide) (LocatesIf.bump.bind fun _ => (LocatesIf.require _ _).bind fun _ =>
    locates_type.bind fun _ => (LocatesIf.require _ _).bind fun _ =>
      (LocatesIf.require _ _).bind fun _ => (locates_expression hr).bind fun _ =>
        (LocatesIf.require _ _).bind fun _ => locates_embeddedStatement hr)

theorem locates_constantDeclaration : LocatesIf all C (constantDeclaration r) :=
  .node (by decide) ((locates_leaf (by decide)).bind fun _ =>
    (locates_variableDeclaration hr).bind fun _ => .require _ _)

theorem locates_plainStatement : LocatesIf all C (plainStatement r) :=
  .ask_bind fun _ => .ite
    (.node (by decide) ((locates_variableDeclaration hr).bind fun _ => .require _ _))
    (.ask_bind fun _ => .ite
      (.node (by decide) ((locates_expression hr).bind fun _ => .require _ _))
      (.node_error .skip))

theorem locates_statement : LocatesIf all C (statement r) := by
  refine .ask_bind fun k => ?_
  split
  case h_1 => exact locates_block hr
  case h_2 => exact locates_leaf (by decide)
  case h_3 | h_4 => exact locates_jump hr (by decide) _
  case h_5 | h_6 => exact .node (by decide) (LocatesIf.bump.bind fun _ => .require _ _)
  case h_7 => exact locates_ifStatement hr
  case h_8 => exact locates_whileStatement hr
  case h_9 => exact locates_forStatement hr
  case h_10 => exact locates_forEachStatement hr
  case h_11 => exact locates_constantDeclaration hr
  case h_12 => exact locates_plainStatement hr

/-! ## Parts of declarations -/

omit hr in
theorem locates_modifiers : LocatesIf all C modifiers :=
  .ask_bind fun _ => .ite (.node (by decide) (.whileAhead .bump)) (.pure _)

omit hr in
theorem locates_declarationFront : LocatesIf all C declarationFront :=
  locates_attributeLists.bind fun _ => locates_modifiers

omit hr in
theorem locates_constraintTail (fuel : Nat) : ∀ depth, Locates all (constraintTail fuel depth) := by
  induction fuel with
  | zero => exact fun _ => .pure _
  | succ fuel ih =>
      intro depth
      exact .ask_bind fun _ => .ask_bind fun _ => .ite (.pure _) (LocatesIf.bump.bind fun _ =>
        .ite (ih _) (.ite (ih _) (ih _)))

omit hr in
theorem locates_constraintClauses : LocatesIf all C constraintClauses :=
  .whileAhead (.node (by decide) (LocatesIf.bump.bind fun _ => (LocatesIf.require _ _).bind fun _ =>
    (LocatesIf.require _ _).bind fun _ => .get_bind fun _ => locates_constraintTail _ _))

omit hr in
theorem locates_typeParameterList : LocatesIf all C typeParameterList := by
  have hparameter : Locates all typeParameter :=
    .node (by decide) (locates_attributeLists.bind fun _ => .ask_bind fun _ =>
      .opt .bump fun _ => .require _ _)
  exact .node (by decide) ((LocatesIf.require _ _).bind fun _ =>
    (LocatesIf.separated hparameter).bind fun _ => .require _ _)

omit hr in
theorem locates_baseList : LocatesIf all C baseList :=
  .node (by decide) ((LocatesIf.require _ _).bind fun _ => .separated locates_type)

theorem locates_parameterList : LocatesIf all C (parameterList r) :=
  .node (by decide) ((LocatesIf.expect _ _).bind fun _ => .ite
    ((LocatesIf.separatedUntil (locates_parameter hr false)).bind fun _ => .require _ _) (.pure _))

theorem locates_arrowExpressionClause : LocatesIf all C (arrowExpressionClause r) :=
  .node (by decide) ((LocatesIf.require _ _).bind fun _ => locates_expression hr)

theorem locates_bodyOrSemicolon : LocatesIf all C (bodyOrSemicolon r) := by
  refine .ask_bind fun k => ?_
  split
  · exact locates_block hr
  · exact (locates_arrowExpressionClause hr).bind fun _ => .require _ _
  · exact .require _ _

theorem locates_accessor : LocatesIf all C (accessor r) :=
  .node (by decide) (locates_attributeLists.bind fun _ => locates_modifiers.bind fun _ =>
    (LocatesIf.eat _).bind fun _ => .ite (locates_bodyOrSemicolon hr)
      ((LocatesIf.complain _).bind fun _ => .skip))

theorem locates_accessorList : LocatesIf all C (accessorList r) :=
  .node (by decide) ((LocatesIf.require _ _).bind fun _ =>
    (LocatesIf.untilAny (locates_accessor hr)).bind fun _ => .require _ _)

omit hr in
theorem locates_optionalSemicolon : LocatesIf all C optionalSemicolon :=
  (LocatesIf.eat _).bind fun _ => .pure _

/-! ## Declarations -/

theorem locates_typeDeclaration {kind : Kind} (hkind : kind ≠ .error) (start : Nat) :
    LocatesIf all C (typeDeclaration r start kind) :=
  .nodeFrom hkind start (LocatesIf.bump.bind fun _ => (LocatesIf.require _ _).bind fun _ =>
    .ask_bind fun _ => .opt locates_typeParameterList fun _ => .ask_bind fun _ =>
      .opt locates_baseList fun _ => locates_constraintClauses.bind fun _ =>
        (LocatesIf.expect _ _).bind fun _ => .ite
          ((LocatesIf.untilAny (hr .member)).bind fun _ => (LocatesIf.require _ _).bind fun _ =>
            locates_optionalSemicolon)
          locates_optionalSemicolon)

theorem locates_enumDeclaration (start : Nat) : LocatesIf all C (enumDeclaration r start) := by
  have hmember : ∀ {C}, LocatesIf all C (enumMember r) :=
    .node (by decide) (locates_attributeLists.bind fun _ => (LocatesIf.require _ _).bind fun _ =>
      .ask_bind fun _ => .ite (locates_equalsValueClause hr) (.pure _))
  have hmembers : Locates all (loop do
      if ← isAtAny [.identifier, .lBracket] then
        enumMember r
        eat .comma
      else return false) :=
    .loop (.ask_bind fun _ => .ite (hmember.bind fun _ => .eat _) (.pure _))
  exact .nodeFrom (by decide) start (LocatesIf.bump.bind fun _ =>
    (LocatesIf.require _ _).bind fun _ => .ask_bind fun _ => .opt locates_baseList fun _ =>
      (LocatesIf.expect _ _).bind fun _ => .ite
        (hmembers.bind fun _ => (LocatesIf.require _ _).bind fun _ => locates_optionalSemicolon)
        locates_optionalSemicolon)

theorem locates_delegateDeclaration (start : Nat) :
    LocatesIf all C (delegateDeclaration r start) :=
  .nodeFrom (by decide) start (LocatesIf.bump.bind fun _ => locates_type.bind fun _ =>
    (LocatesIf.require _ _).bind fun _ => .ask_bind fun _ => .opt locates_typeParameterList fun _ =>
      (locates_parameterList hr).bind fun _ => locates_constraintClauses.bind fun _ => .require _ _)

theorem locates_constructorInitializer : LocatesIf all C (constructorInitializer r) := by
  have hend : Locates all (isAt .lParen >>= fun opened =>
      if opened then argumentList r else pure ()) :=
    .ask_bind fun _ => .ite (locates_argumentList hr) (.pure _)
  exact LocatesIf.bump.bind fun _ => .ask_bind fun _ => .ite (LocatesIf.bump.bind fun _ => hend)
    ((LocatesIf.complain _).bind fun _ => hend)

theorem locates_constructorDeclaration (start : Nat) :
    LocatesIf all C (constructorDeclaration r start) :=
  .nodeFrom (by decide) start (LocatesIf.bump.bind fun _ => (locates_parameterList hr).bind fun _ =>
    .ask_bind fun _ => .opt (locates_constructorInitializer hr) fun _ => locates_bodyOrSemicolon hr)

theorem locates_methodDeclaration (start : Nat) : LocatesIf all C (methodDeclaration r start) :=
  .nodeFrom (by decide) start (LocatesIf.bump.bind fun _ => .ask_bind fun _ =>
    .opt locates_typeParameterList fun _ => (locates_parameterList hr).bind fun _ =>
      locates_constraintClauses.bind fun _ => locates_bodyOrSemicolon hr)

theorem locates_propertyDeclaration (start : Nat) : LocatesIf all C (propertyDeclaration r start) := by
  have hvalue : Locates all (isAt .eq >>= fun atEq =>
      if atEq then equalsValueClause r >>= fun _ => require .semicolon "expected `;` after initializer"
      else pure ()) :=
    .ask_bind fun _ => .ite ((locates_equalsValueClause hr).bind fun _ => .require _ _) (.pure _)
  exact .nodeFrom (by decide) start (LocatesIf.bump.bind fun _ => .ask_bind fun _ => .ite
    ((locates_arrowExpressionClause hr).bind fun _ => .require _ _)
    ((locates_accessorList hr).bind fun _ => hvalue))

theorem locates_fieldDeclaration (start typeStart : Nat) :
    LocatesIf all C (fieldDeclaration r start typeStart) :=
  .nodeFrom (by decide) start ((LocatesIf.nodeFrom (by decide) typeStart
    (locates_variableDeclarators hr)).bind fun _ => .require _ _)

omit hr in
theorem locates_skipMember : LocatesIf all C skipMember :=
  .loop (.ask_bind fun _ => .ite (.pure _) (.ite (LocatesIf.bump.bind fun _ => .pure _)
    (.ite ((locates_skipBracketed _ _).bind fun _ => .ask _) (LocatesIf.bump.bind fun _ => .pure _))))

theorem locates_typedMember (start : Nat) : LocatesIf all C (typedMember r start) := by
  refine LocatesIf.mark.bind fun typeStart => locates_type.bind fun _ => .ask_bind fun follower => ?_
  split
  case h_1 | h_2 => exact locates_methodDeclaration hr start
  case h_3 | h_4 => exact locates_propertyDeclaration hr start
  case h_5 => exact locates_fieldDeclaration hr start typeStart
  case h_6 => exact .nodeFrom_error start locates_skipMember

theorem locates_memberAfter (start : Nat) : LocatesIf all C (memberAfter r start) := by
  refine .ask_bind fun k => ?_
  split
  case h_1 | h_2 | h_3 => exact locates_typeDeclaration hr (by decide) start
  case h_4 => exact locates_enumDeclaration hr start
  case h_5 => exact locates_delegateDeclaration hr start
  case h_6 =>
    exact .ask_bind fun _ => .ite (locates_constructorDeclaration hr start) (.ask_bind fun _ =>
      .ite (locates_typedMember hr start)
        (.nodeFrom_error start (LocatesIf.skip.bind fun _ => locates_skipMember)))

theorem locates_member : LocatesIf all C (member r) :=
  LocatesIf.mark.bind fun start => locates_declarationFront.bind fun _ =>
    locates_memberAfter hr start

/-! ## Files and namespaces -/

omit hr in
theorem locates_usingDirective : LocatesIf all C usingDirective := by
  have hend : ∀ {C}, LocatesIf all C (type >>= fun _ =>
      require .semicolon "expected `;` after using directive") :=
    locates_type.bind fun _ => .require _ _
  exact .node (by decide) ((LocatesIf.require _ _).bind fun _ => .ask_bind fun _ =>
    .opt .bump fun _ => .ask_bind fun _ => .ask_bind fun _ =>
      .ite (LocatesIf.bump.bind fun _ => LocatesIf.bump.bind fun _ => hend) hend)

theorem locates_namespaceDeclaration (start : Nat) :
    LocatesIf all C (namespaceDeclaration r start) :=
  (LocatesIf.require _ _).bind fun _ => (locates_name locates_type false).bind fun _ =>
    .ask_bind fun _ => .ite
      (.nodeFrom (by decide) start (LocatesIf.bump.bind fun _ => hr (.namespaceBody false)))
      (.nodeFrom (by decide) start ((LocatesIf.require _ _).bind fun _ =>
        (hr (.namespaceBody true)).bind fun _ => (LocatesIf.require _ _).bind fun _ =>
          locates_optionalSemicolon))

theorem locates_namespaceItem (inBlock : Bool) : LocatesIf all C (namespaceItem r inBlock) := by
  have hmember : Locates all (namespaceMember r) :=
    LocatesIf.mark.bind fun start => locates_declarationFront.bind fun _ => .ask_bind fun _ =>
      .ite (locates_namespaceDeclaration hr start) (locates_memberAfter hr start)
  have hstray : Locates all strayTokens :=
    .node_error (LocatesIf.skip.bind fun _ => .skipTo _)
  exact .ask_bind fun _ => .ite (.pure _) (.ite (locates_usingDirective.bind fun _ => .pure _)
    (.ask_bind fun _ => .ite (hmember.under.bind fun _ => .pure _)
      (hstray.under.bind fun _ => .pure _)))

theorem locates_construct (c : Construct) : Locates all (construct r c) := by
  cases c with
  | namespaceBody inBlock => exact .loop (locates_namespaceItem hr inBlock)
  | member => exact locates_member hr
  | statement => exact locates_statement hr
  | expression power => exact locates_expressionAbove hr power
  | unary => exact locates_unary hr
  | initializer => exact locates_initializer hr

end

/-- The grammar makes its complaints about the next token, however deep it may nest. -/
theorem locates_within (depth : Nat) (c : Construct) : Locates all (within depth c) := by
  induction depth generalizing c with
  | zero => exact .pure _
  | succ depth ih => exact locates_construct ih c

end Grammar

/-! ## Whole texts -/

/-- At the start of a text nothing was read and nothing complained about. -/
theorem located_start (text : String) :
    Located (Token.lex text) ⟨Token.lex text, .empty, [], []⟩ where
  tiled := Token.tiled_lexFrom true 0 text.toList
  ended := ended_lex text
  read := ⟨[], rfl, rfl⟩
  about := List.forall_mem_nil _
  sorted := .nil
  nested := .nil
  inside := List.forall_mem_nil _
  blamed := trivial
  awaited := List.forall_mem_nil _

theorem locates_wholeFile {all : List Token} {body : Parser Unit} (hbody : Locates all body) :
    Locates all (wholeFile body) := by
  have hopens : Locates all
      (modify fun s => { s with builder := s.builder.startNode .compilationUnit } : Parser Unit) :=
    fun s hs _ => hs.opens hs.sound nofun
  exact hopens.bind fun _ => hbody.bind fun _ => LocatesIf.flushTrivia.bind fun _ =>
    .finishNode

/-- Where a reader of a text ends, its complaints are at their places. -/
theorem located_runOn (text : String) {body : Grammar.Rules → Parser Unit}
    (hbody : ∀ depth, Locates (Token.lex text) (body (Grammar.within depth))) :
    Located (Token.lex text) (runOn text body) :=
  locates_wholeFile (hbody _) _ (located_start text) trivial

end CSharpKit.Syntax
