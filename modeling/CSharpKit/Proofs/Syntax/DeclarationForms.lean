import CSharpKit.Proofs.Syntax.DeclarationTrivia
import CSharpKit.Proofs.Syntax.ExpressionForms

/-!
# Forms in parse trees

The readers of declarations make whole trees as well, and so does the grammar: a file without
a complaint is read as a tree in which every node has the form of its kind.
-/

namespace CSharpKit.Syntax

open Syntax.Tree CSharpKit.Syntax.Parser

namespace Grammar

variable {C : List Token → Prop} {inside : Bool} {F : Layout}

section

variable {r : Rules} (hr : ∀ c : Construct, FormsIf false (fun _ => True) c.row (r c))
include hr

/-! ## Parts of declarations -/

omit hr in
theorem forms_modifiers : FormsIf false C .any modifiers :=
  .ask_bind fun _ => .ite (fun _ => .node_any (.whileAhead .bump_any)) fun _ => .pure _

omit hr in
theorem forms_constraintTail (fuel : Nat) :
    ∀ depth, FormsIf false (fun _ => True) .any (constraintTail fuel depth) := by
  induction fuel with
  | zero => exact fun _ => .pure _
  | succ fuel ih =>
      intro depth
      refine .ask_bind fun k => .ask_bind fun stops => .ite (fun _ => .pure _) fun _ => ?_
      exact FormsIf.bump_any.bind fun _ => FormsIf.ite (fun _ => ih _) fun _ =>
        .ite (fun _ => ih _) fun _ => ih _

omit hr in
theorem forms_constraintClauses : FormsIf false C .any constraintClauses :=
  .whileAhead (.node_any (FormsIf.bump_any.bind fun _ => (FormsIf.require (by decide) _).bind
    fun _ => (FormsIf.require (by decide) _).bind fun _ => FormsIf.get_bind fun _ =>
      forms_constraintTail _ _))

omit hr in
theorem forms_typeParameterList : FormsIf false C .any typeParameterList := by
  have hparameter : FormsIf false (fun _ => True) .any typeParameter :=
    .node_any (forms_attributeLists.bind fun _ => FormsIf.ask_bind fun _ =>
      .opt_any (fun _ => .bump_any) fun _ => .require (by decide) _)
  exact .node_any ((FormsIf.require (by decide) _).bind fun _ =>
    (FormsIf.separated hparameter).bind fun _ => .require (by decide) _)

omit hr in
theorem forms_baseList : FormsIf false C .any baseList :=
  .node_any ((FormsIf.require (by decide) _).bind fun _ => .separated forms_type)

theorem forms_parameterList : FormsIf false C .any (parameterList r) :=
  .node_any ((FormsIf.expect _ _).bind fun _ => FormsIf.ite
    (fun _ => (FormsIf.separatedUntil (forms_parameter hr false)).bind fun _ =>
      .require (by decide) _) fun _ => .pure _)

theorem forms_arrowExpressionClause : FormsIf false C .any (arrowExpressionClause r) :=
  .node_any ((FormsIf.require (by decide) _).bind fun _ => forms_expression hr)

theorem forms_bodyOrSemicolon : FormsIf false C .any (bodyOrSemicolon r) := by
  refine .ask_bind fun k => ?_
  split
  · exact forms_block hr
  · exact (forms_arrowExpressionClause hr).bind fun _ => .require (by decide) _
  · exact (FormsIf.require (by decide) _).free

theorem forms_accessorList : FormsIf false C .any (accessorList r) := by
  have haccessor : FormsIf false (fun _ => True) .any (accessor r) :=
    .node_any (forms_attributeLists.bind fun _ => forms_modifiers.bind fun _ =>
      (FormsIf.eat _).bind fun _ => FormsIf.ite (fun _ => forms_bodyOrSemicolon hr) fun _ =>
        (FormsIf.complain (F := .any) _).bind fun _ => .skip)
  exact .node_any ((FormsIf.require (by decide) _).bind fun _ =>
    (FormsIf.untilAny haccessor).bind fun _ => .require (by decide) _)

omit hr in
theorem forms_optionalSemicolon : FormsIf false C .any optionalSemicolon :=
  (FormsIf.eat _).bind fun _ => .pure _

/-! ## Declarations -/

omit hr in
/-- A declaration is one node from its first attribute on. -/
theorem formsFrom_declaration {kind : Kind} {body : Parser Unit} {p : Kind → Bool}
    (hform : form kind = .any) (hkind : p kind = true)
    (hbody : FormsIf false (fun _ => True) .any body) :
    FormsFrom false C F (.node p) fun start => nodeFrom start kind body :=
  .nodeFrom hbody.under (fun _ _ => hform ▸ trivial) hkind

theorem forms_typeDeclaration {kind : Kind} (hform : form kind = .any)
    (hkind : kind.isMember = true) :
    FormsFrom false C F (.node Kind.isMember) fun start => typeDeclaration r start kind :=
  formsFrom_declaration hform hkind (FormsIf.bump_any.bind fun _ => (FormsIf.require (by decide) _).bind
    fun _ => FormsIf.ask_bind fun _ => .opt_any (fun _ => forms_typeParameterList) fun _ =>
      FormsIf.ask_bind fun _ => .opt_any (fun _ => forms_baseList) fun _ =>
        forms_constraintClauses.bind fun _ => (FormsIf.expect _ _).bind fun _ => FormsIf.ite
          (fun _ => (FormsIf.untilAny (hr .member)).bind fun _ =>
            (FormsIf.require (by decide) _).bind fun _ => forms_optionalSemicolon)
          fun _ => forms_optionalSemicolon)

theorem forms_enumDeclaration :
    FormsFrom false C F (.node Kind.isMember) (enumDeclaration r) := by
  have hmember : FormsIf false (fun _ => True) .any (enumMember r) :=
    .node_any (forms_attributeLists.bind fun _ => (FormsIf.require (by decide) _).bind fun _ =>
      FormsIf.ask_bind (F := .any) fun _ => .ite (fun _ => forms_equalsValueClause hr) fun _ =>
        .pure _)
  have hmembers : FormsIf false (fun _ => True) .any (loop do
      if ← isAtAny [.identifier, .lBracket] then
        enumMember r
        eat .comma
      else return false) :=
    .loop Layout.repeats_any (.ask_bind fun _ => .ite (fun _ => hmember.under.bind fun _ => .eat _)
      fun _ => .pure _)
  exact formsFrom_declaration rfl rfl (FormsIf.bump_any.bind fun _ => (FormsIf.require (by decide) _).bind
    fun _ => FormsIf.ask_bind fun _ => .opt_any (fun _ => forms_baseList) fun _ =>
      (FormsIf.expect _ _).bind fun _ => FormsIf.ite (fun _ => hmembers.bind fun _ =>
        (FormsIf.require (by decide) _).bind fun _ => forms_optionalSemicolon) fun _ =>
          forms_optionalSemicolon)

theorem forms_delegateDeclaration :
    FormsFrom false C F (.node Kind.isMember) (delegateDeclaration r) :=
  formsFrom_declaration rfl rfl (FormsIf.bump_any.bind fun _ => forms_type.bind fun _ =>
    (FormsIf.require (by decide) _).bind fun _ => FormsIf.ask_bind fun _ =>
      .opt_any (fun _ => forms_typeParameterList) fun _ => (forms_parameterList hr).bind fun _ =>
        forms_constraintClauses.bind fun _ => .require (by decide) _)

theorem forms_constructorInitializer : FormsIf false C .any (constructorInitializer r) := by
  have hend : FormsIf false (fun _ => True) .any (isAt .lParen >>= fun opened =>
      if opened then argumentList r else pure ()) :=
    .ask_bind fun _ => .ite (fun _ => (forms_argumentList hr).free) fun _ => .pure _
  exact FormsIf.bump_any.bind fun _ => FormsIf.ask_bind (F := .any) fun _ =>
    .ite (fun _ => FormsIf.bump_any.bind fun _ => hend) fun _ =>
      (FormsIf.complain (F := .any) _).bind fun _ => hend

theorem forms_constructorDeclaration :
    FormsFrom false C F (.node Kind.isMember) (constructorDeclaration r) :=
  formsFrom_declaration rfl rfl (FormsIf.bump_any.bind fun _ => (forms_parameterList hr).bind fun _ =>
    FormsIf.ask_bind fun _ => .opt_any (fun _ => forms_constructorInitializer hr) fun _ =>
      forms_bodyOrSemicolon hr)

theorem forms_methodDeclaration :
    FormsFrom false C F (.node Kind.isMember) (methodDeclaration r) :=
  formsFrom_declaration rfl rfl (FormsIf.bump_any.bind fun _ => FormsIf.ask_bind fun _ =>
    .opt_any (fun _ => forms_typeParameterList) fun _ => (forms_parameterList hr).bind fun _ =>
      forms_constraintClauses.bind fun _ => forms_bodyOrSemicolon hr)

theorem forms_propertyDeclaration :
    FormsFrom false C F (.node Kind.isMember) (propertyDeclaration r) := by
  have hvalue : FormsIf false (fun _ => True) .any (isAt .eq >>= fun atEq =>
      if atEq then equalsValueClause r >>= fun _ => require .semicolon "expected `;` after initializer"
      else pure ()) :=
    .ask_bind fun _ => .ite (fun _ => (forms_equalsValueClause hr).bind fun _ =>
      .require (by decide) _) fun _ => .pure _
  exact formsFrom_declaration rfl rfl (FormsIf.bump_any.bind fun _ => FormsIf.ask_bind (F := .any) fun _ =>
    .ite (fun _ => (forms_arrowExpressionClause hr).bind fun _ => .require (by decide) _) fun _ =>
      (forms_accessorList hr).bind fun _ => hvalue)

/-- The variables of a field take over its type, which starts at a mark of its own. -/
theorem forms_fieldDeclaration {s₀ s s₁ : ParserState} {front typ : Forest} (hs : Underway s₀)
    (hfront : Forming false F s₀ s front)
    (htype : Forming false .type (flushTrivia.run s).2 s₁ typ) :
    Forms false (.node Kind.isMember) s₀
      (fieldDeclaration r s₀.builder.mark (flushTrivia.run s).2.builder.mark) s₁ := by
  have hext := hfront.ext.trans (extends_flushTrivia s)
  have hvariables : FormsFrom false (fun _ => True) .type .any fun start =>
      nodeFrom start .variableDeclaration (variableDeclarators r) >>= fun _ =>
        require .semicolon "expected `;` after field declaration" :=
    (formsFrom_declaration (p := fun _ => true) rfl rfl (forms_variableDeclarators hr)).bind fun _ =>
      (FormsFrom.of_forms (FormsIf.require (by decide) _)).free
  obtain ⟨more, hmore⟩ := hvariables (opening (flushTrivia.run s).2 .fieldDeclaration s₀.builder.mark)
    (opening s₁ .fieldDeclaration s₀.builder.mark) typ
    ⟨sound_opening hext _, (hext.underway hs).ended⟩ (htype.opened _ _) trivial
  have hbehind : Forming false .any (flushTrivia.run (opening s .fieldDeclaration s₀.builder.mark)).2
      ((nodeFrom (flushTrivia.run s).2.builder.mark .variableDeclaration (variableDeclarators r) >>=
        fun _ => require .semicolon "expected `;` after field declaration").run
          (opening s₁ .fieldDeclaration s₀.builder.mark)).2 more := by
    rw [run_flushTrivia_opening]
    exact hmore
  have hbody := (hfront.opened .fieldDeclaration s₀.builder.mark).trans hbehind.behind_trivia
  exact forms_nodeFrom hs (hext.trans htype.ext) (hbody.imp fun _ _ => trivial) rfl

omit hr in
/-- What could not be read is complained about. -/
theorem formsFrom_error {message : String} {more : Parser Unit} {G : Layout}
    (hmore : FormsIf false (fun _ => True) G more) :
    FormsFrom false C F (.node Kind.isMember) fun start =>
      nodeFrom start .error (complain message >>= fun _ => more) :=
  formsFrom_declaration rfl rfl ((FormsIf.complain (F := .any) message).bind fun _ => hmore)

omit hr in
theorem forms_skipMember : FormsIf false C .any skipMember := by
  have hblock : FormsIf false (fun ts => Lookahead.kind ts = .lBrace) .any
      (skipBracketed .lBrace .rBrace) :=
    .of_reads (neat_skipBracketed (by decide)) (readsIf_skipBracketed .lBrace .rBrace (by decide))
  refine .loop Layout.repeats_any (.ask_bind fun k => .ite (fun _ => .pure _) fun _ => ?_)
  refine .ite (fun _ => FormsIf.bump_any.bind fun _ => .pure _) fun _ => .ite (fun hbrace => ?_)
    fun _ => FormsIf.bump_any.bind fun _ => .pure _
  refine (hblock.weaken ?_).bind fun _ => .ask _
  rintro ts ⟨-, rfl⟩
  exact eq_of_beq hbrace

theorem forms_typedMember : FormsFrom false C F (.node Kind.isMember) (typedMember r) := by
  intro s₀ s front hs hfront _
  -- The type starts behind the trivia, and all since then is what it read.
  have hext := hfront.ext.trans (extends_flushTrivia s)
  have hreads : FormsIf false (fun _ => True) .type type := forms_type
  obtain ⟨typ, htype⟩ := hreads (flushTrivia.run s).2 (hext.underway hs) trivial
  have hall := hfront.trans htype.behind_trivia
  refine Forms.mark (Forms.run_bind (Forms.ask ?_))
  generalize (type.run (flushTrivia.run s).2).2 = s₁ at htype hall ⊢
  split
  case h_1 | h_2 => exact forms_methodDeclaration hr (C := fun _ => True) s₀ s₁ _ hs hall trivial
  case h_3 | h_4 => exact forms_propertyDeclaration hr (C := fun _ => True) s₀ s₁ _ hs hall trivial
  case h_5 => exact forms_fieldDeclaration hr hs hfront htype
  case h_6 => exact formsFrom_error (C := fun _ => True) forms_skipMember s₀ s₁ _ hs hall trivial

theorem forms_memberAfter : FormsFrom false C F (.node Kind.isMember) (memberAfter r) := by
  refine .ask_bind fun k => ?_
  split
  case h_1 | h_2 | h_3 => exact forms_typeDeclaration hr rfl rfl
  case h_4 => exact forms_enumDeclaration hr
  case h_5 => exact forms_delegateDeclaration hr
  case h_6 =>
    exact .ask_bind fun _ => .ite (fun _ => forms_constructorDeclaration hr) fun _ =>
      .ask_bind fun _ => .ite (fun _ => forms_typedMember hr) fun _ =>
        formsFrom_error (FormsIf.skip.bind fun _ => forms_skipMember)

omit hr in
theorem forms_declarationFront : FormsIf false C .any declarationFront :=
  forms_attributeLists.bind fun _ => forms_modifiers

theorem forms_member : FormsIf false C (.node Kind.isMember) (member r) :=
  .mark_bind ((FormsFrom.first forms_declarationFront).bind fun _ => forms_memberAfter hr)

/-! ## Files and namespaces -/

omit hr in
theorem forms_usingDirective : FormsIf false C .any usingDirective := by
  have hend : ∀ {C}, FormsIf false C .any (type >>= fun _ =>
      require .semicolon "expected `;` after using directive") :=
    forms_type.bind fun _ => .require (by decide) _
  exact .node_any ((FormsIf.require (by decide) _).bind fun _ => FormsIf.ask_bind fun _ =>
    .opt_any (fun _ => .bump_any) fun _ => FormsIf.ask_bind (F := .any) fun _ => .ask_bind fun _ =>
      .ite (fun _ => FormsIf.bump_any.bind fun _ => FormsIf.bump_any.bind fun _ => hend) fun _ => hend)

theorem forms_namespaceDeclaration :
    FormsFrom false C F (.node Kind.isMember) (namespaceDeclaration r) := by
  refine (FormsFrom.of_forms (FormsIf.require (by decide) _)).bind fun _ =>
    (FormsFrom.of_forms (forms_name false)).bind fun _ => .ask_bind fun _ => .ite (fun _ => ?_) fun _ => ?_
  · exact formsFrom_declaration rfl rfl (FormsIf.bump_any.bind fun _ => hr (.namespaceBody false))
  · exact formsFrom_declaration rfl rfl ((FormsIf.require (by decide) _).bind fun _ =>
      (hr (.namespaceBody true)).bind fun _ => (FormsIf.require (by decide) _).bind fun _ =>
        forms_optionalSemicolon)

theorem forms_namespaceItem (inBlock : Bool) : FormsIf false C .any (namespaceItem r inBlock) := by
  have hmember : FormsIf false (fun _ => True) (.node Kind.isMember) (namespaceMember r) :=
    .mark_bind ((FormsFrom.first forms_declarationFront).bind fun _ => .ask_bind fun _ =>
      .ite (fun _ => forms_namespaceDeclaration hr) fun _ => forms_memberAfter hr)
  have hstray : FormsIf false (fun _ => True) .any strayTokens :=
    .node_any ((FormsIf.complain (F := .any) _).bind fun _ => FormsIf.skip.bind fun _ => .skipTo _)
  refine .ask_bind fun k => .ite (fun _ => .pure _) fun _ => .ite (fun _ => ?_) fun _ =>
    .ask_bind fun _ => .ite (fun _ => ?_) fun _ => ?_
  · exact forms_usingDirective.bind fun _ => .pure _
  · exact hmember.under.bind fun _ => .pure _
  · exact hstray.under.bind fun _ => .pure _

theorem forms_construct (c : Construct) : FormsIf false (fun _ => True) c.row (construct r c) := by
  cases c with
  | namespaceBody inBlock => exact .loop Layout.repeats_any (forms_namespaceItem hr inBlock)
  | member => exact (forms_member hr).free
  | statement => exact forms_statement hr
  | expression power => exact forms_expressionAbove hr power
  | unary => exact forms_unary hr
  | initializer => exact forms_initializer hr

end

theorem forms_withinOr (depth : Nat) (c : Construct) :
    FormsIf false (fun _ => True) c.row (withinOr refusal depth c) := by
  induction depth generalizing c with
  | zero => exact .complain _
  | succ depth ih => exact forms_construct ih c

theorem forms_whole (c : Construct) : FormsIf false (fun _ => True) c.row (whole c) := by
  intro s hs _
  have henters : Enters (pending s.rest) (fun _ => True) (fun ts => True ∧ c.Opens ts) (whole c)
      (withinOr refusal (3 * pending s.rest + c.rank + 1) c) := enters_whole (Nat.lt_succ_self _)
  refine Forms.congr (congrArg Prod.snd (henters s trivial (Nat.lt_succ_self _)).1) ?_
  exact forms_withinOr _ c s hs trivial

end Grammar

/-- **Forms in parse trees.** If the parser had no complaint, every node has the form of its
kind: what stands in it is what its reader read. -/
theorem parse_whole {text : String} (h : (parse text).errors = []) : Whole (parse text).tree := by
  obtain ⟨new, hnew⟩ :=
    Grammar.forms_whole (.namespaceBody false) (openFile text) (underway_openFile text) trivial
  obtain ⟨htree, herrors⟩ := parse_of_extends rfl hnew.ext
  rw [herrors, List.reverse_eq_nil_iff] at h
  rw [htree]
  exact whole_node.mpr ⟨trivial, (hnew.whole ⟨h, nofun⟩).1.append (OfTrivia.ahead _)⟩

end CSharpKit.Syntax
