import CSharpKit.Proofs.Syntax.ExpressionReading
import CSharpKit.Proofs.Syntax.Progress
import CSharpKit.Syntax.Grammar.Declarations

/-!
# What the readers of statements and declarations read

The rest of the grammar, and all of it together: by the depth to which its
constructs nest, every rule hands only well-shaped trees to the builder.
-/

namespace CSharpKit.Syntax.Grammar

open Tree CSharpKit.Syntax.Parser

variable {rules : Rules}

section

variable (hr : ∀ c, Reads IsPart (rules c))
include hr

/-! ## Statements -/

theorem reads_variableDeclarator : Reads IsPart (variableDeclarator rules) := by
  refine reads_plain rfl ((Reads.require _ _).bind fun _ => (Reads.isAt _).bind fun _ => ?_)
  refine Reads.opt (reads_bracketedArgumentList hr) fun _ => (Reads.isAt _).bind fun _ => ?_
  exact Reads.ite (reads_equalsValueClause hr) (ReadsIf.pure _)

theorem reads_variableDeclarators : Reads IsPart (variableDeclarators rules) :=
  Reads.separated (reads_variableDeclarator hr)

theorem reads_variableDeclaration : Reads IsPart (variableDeclaration rules) :=
  reads_plain rfl (reads_type_part.bind fun _ => reads_variableDeclarators hr)

theorem reads_embeddedStatement : Reads IsPart (embeddedStatement rules) :=
  (Reads.isAtAny _).bind fun _ => Reads.ite (Reads.complain _) (hr _)

theorem reads_parenthesizedCondition : Reads IsPart (parenthesizedCondition rules) :=
  (Reads.require _ _).bind fun _ => (reads_expression hr).bind fun _ => Reads.require _ _

theorem reads_jump {kind : Kind} (hk : kind.isPlain = true) (missing : String) :
    Reads IsPart (jump rules kind missing) := by
  refine reads_plain hk (Reads.bump.bind fun _ => (Reads.isAt _).bind fun _ => ?_)
  exact Reads.ite (Reads.require _ _) ((reads_expression hr).bind fun _ => Reads.require _ _)

theorem reads_ifStatement : Reads IsPart (ifStatement rules) := by
  refine reads_plain rfl (Reads.bump.bind fun _ => (reads_parenthesizedCondition hr).bind fun _ => ?_)
  refine (reads_embeddedStatement hr).bind fun _ => (Reads.isAt _).bind fun _ => ?_
  exact Reads.ite (reads_plain rfl (Reads.bump.bind fun _ => reads_embeddedStatement hr))
    (ReadsIf.pure _)

theorem reads_whileStatement : Reads IsPart (whileStatement rules) :=
  reads_plain rfl (Reads.bump.bind fun _ => (reads_parenthesizedCondition hr).bind fun _ =>
    reads_embeddedStatement hr)

theorem reads_expressionList (terminator : Kind) : Reads IsPart (expressionList rules terminator) :=
  Reads.loop ((reads_expression hr).bind fun _ => (Reads.isAt _).bind fun _ =>
    Reads.ite (ReadsIf.pure _) (Reads.eat _))

theorem reads_forStatement : Reads IsPart (forStatement rules) := by
  have hsteps : Reads IsPart (require .semicolon "expected `;`" >>= fun _ =>
      isAt .rParen >>= fun closed =>
        if closed then
          require .rParen "expected `)`" >>= fun _ => embeddedStatement rules
        else
          expressionList rules .rParen >>= fun _ => require .rParen "expected `)`" >>= fun _ =>
            embeddedStatement rules) := by
    have hend : Reads IsPart (require .rParen "expected `)`" >>= fun _ => embeddedStatement rules) :=
      (Reads.require _ _).bind fun _ => reads_embeddedStatement hr
    refine (Reads.require _ _).bind fun _ => (Reads.isAt _).bind fun _ => Reads.ite hend ?_
    exact (reads_expressionList hr _).bind fun _ => hend
  have hcondition : Reads IsPart (require .semicolon "expected `;`" >>= fun _ =>
      isAt .semicolon >>= fun empty => if empty then _ else expression rules >>= fun _ => _) :=
    (Reads.require _ _).bind fun _ => (Reads.isAt _).bind fun _ =>
      Reads.ite hsteps ((reads_expression hr).bind fun _ => hsteps)
  refine reads_plain rfl (Reads.bump.bind fun _ => (Reads.require _ _).bind fun _ => ?_)
  refine (Reads.isAt _).bind fun _ => Reads.ite hcondition ((Reads.ask _).bind fun _ => ?_)
  exact Reads.ite ((reads_variableDeclaration hr).bind fun _ => hcondition)
    ((reads_expressionList hr _).bind fun _ => hcondition)

theorem reads_forEachStatement : Reads IsPart (forEachStatement rules) :=
  reads_plain rfl (Reads.bump.bind fun _ => (Reads.require _ _).bind fun _ =>
    reads_type_part.bind fun _ => (Reads.require _ _).bind fun _ => (Reads.require _ _).bind fun _ =>
      (reads_expression hr).bind fun _ => (Reads.require _ _).bind fun _ =>
        reads_embeddedStatement hr)

theorem reads_constantDeclaration : Reads IsPart (constantDeclaration rules) :=
  reads_plain rfl ((reads_leaf_plain rfl).bind fun _ =>
    (reads_variableDeclaration hr).bind fun _ => Reads.require _ _)

theorem reads_plainStatement : Reads IsPart (plainStatement rules) := by
  refine (Reads.ask _).bind fun _ => Reads.ite ?_ (Reads.peek.bind fun _ => Reads.ite ?_ ?_)
  · exact reads_plain rfl ((reads_variableDeclaration hr).bind fun _ => Reads.require _ _)
  · exact reads_plain rfl ((reads_expression hr).bind fun _ => Reads.require _ _)
  · exact reads_plain rfl ((Reads.complain _).bind fun _ => Reads.skip)

theorem reads_statement : Reads IsPart (statement rules) := by
  have hword : ∀ {kind : Kind}, kind.isPlain = true →
      Reads IsPart (node kind (bump >>= fun _ => require .semicolon "expected `;`")) :=
    fun hk => reads_plain hk (Reads.bump.bind fun _ => Reads.require _ _)
  refine Reads.peek.bind fun k => ?_
  split
  · exact reads_block hr
  · exact reads_leaf_plain rfl
  · exact reads_jump hr rfl _
  · exact reads_jump hr rfl _
  · exact hword rfl
  · exact hword rfl
  · exact reads_ifStatement hr
  · exact reads_whileStatement hr
  · exact reads_forStatement hr
  · exact reads_forEachStatement hr
  · exact reads_constantDeclaration hr
  · exact reads_plainStatement hr

/-! ## Parts of declarations -/

omit hr in
theorem reads_modifiers : Reads IsPart modifiers :=
  (Reads.ask _).bind fun _ => Reads.ite (reads_plain rfl (Reads.whileAhead Reads.bump))
    (ReadsIf.pure _)

omit hr in
theorem reads_attributeLists_part : Reads IsPart attributeLists :=
  reads_attributeLists fun _ hcs => (isParameterPart_of_tokens rfl hcs).1

omit hr in
theorem reads_constraintTail {P : Tree → Prop} [OfTokens P] (fuel : Nat) :
    ∀ depth, Reads P (constraintTail fuel depth) := by
  induction fuel with
  | zero => exact fun _ => ReadsIf.pure _
  | succ fuel ih =>
      intro depth
      refine Reads.peek.bind fun _ => (Reads.ask _).bind fun _ => Reads.ite (ReadsIf.pure _) ?_
      exact Reads.bump.bind fun _ => Reads.ite (ih _) (Reads.ite (ih _) (ih _))

omit hr in
theorem reads_constraintClauses : Reads IsPart constraintClauses :=
  Reads.whileAhead (reads_plain rfl (Reads.bump.bind fun _ => (Reads.require _ _).bind fun _ =>
    (Reads.require _ _).bind fun _ => ReadsIf.get_bind fun _ => reads_constraintTail _ _))

omit hr in
theorem reads_typeParameterList : Reads IsPart typeParameterList := by
  have hparameter : Reads IsPart typeParameter :=
    reads_plain rfl (reads_attributeLists_part.bind fun _ => (Reads.isAtAny _).bind fun _ =>
      Reads.opt Reads.bump fun _ => Reads.require _ _)
  exact reads_plain rfl ((Reads.require _ _).bind fun _ => (Reads.separated hparameter).bind fun _ =>
    Reads.require _ _)

omit hr in
theorem reads_baseList : Reads IsPart baseList :=
  reads_plain rfl ((Reads.require _ _).bind fun _ => Reads.separated reads_type_part)

/-- In the parameter list of a declaration, each parameter with a name has a type. -/
theorem reads_parameterList : Reads IsPart (parameterList rules) := by
  have hparameter : Reads (fun t => IsPart t ∧ (t.kind = .parameter → NamedIsTyped t.children))
      (parameter rules false) :=
    ((reads_parameter hr false).and (reads_parameter_typed hr)).imp fun _ h t ht =>
      ⟨h.1 t ht, h.2 t ht⟩
  have : OfTokens fun t : Tree => IsPart t ∧ (t.kind = .parameter → NamedIsTyped t.children) :=
    { of_token := fun k s =>
        ⟨OfTokens.of_token k s, fun _ => .unnamed (by simp [Tree.children])⟩ }
  refine Reads.node ((Reads.expect _ _).bind fun _ => Reads.ite ((Reads.separatedUntil _ hparameter).bind
    fun _ => Reads.require _ _) (ReadsIf.pure _)) fun cs hcs => ⟨?_, ?_⟩
  · exact wellShaped_node.mpr ⟨trivial, fun c hc => (hcs c hc).1.1⟩
  · exact fun _ p hp => (hcs p hp).2

theorem reads_arrowExpressionClause : Reads IsPart (arrowExpressionClause rules) :=
  reads_plain rfl ((Reads.require _ _).bind fun _ => hr _)

theorem reads_bodyOrSemicolon : Reads IsPart (bodyOrSemicolon rules) := by
  refine Reads.peek.bind fun k => ?_
  split
  · exact reads_block hr
  · exact (reads_arrowExpressionClause hr).bind fun _ => Reads.require _ _
  · exact Reads.require _ _

theorem reads_accessorList : Reads IsPart (accessorList rules) := by
  have haccessor : Reads IsPart (accessor rules) := by
    refine reads_plain rfl (reads_attributeLists_part.bind fun _ => reads_modifiers.bind fun _ => ?_)
    refine (Reads.eat _).bind fun _ => Reads.ite (reads_bodyOrSemicolon hr) ?_
    exact (Reads.complain _).bind fun _ => Reads.skip
  exact reads_plain rfl ((Reads.require _ _).bind fun _ => (Reads.untilAny _ haccessor).bind fun _ =>
    Reads.require _ _)

omit hr in
theorem reads_optionalSemicolon : Reads IsPart optionalSemicolon :=
  (Reads.eat _).bind fun _ => ReadsIf.pure _

/-! ## Declarations -/

/-- A reader that opens the node of a declaration at a mark, before a token of its
own: the keyword or the name of the declaration. -/
structure Declares (p : Nat → Parser Unit) : Prop where
  reads : ReadsFrom (fun ts => Lookahead.kind ts ≠ .eof) (Each IsPart) (Each IsPart) p
  advances : AdvancesFrom (fun ts => Lookahead.kind ts ≠ .eof) p

omit hr in
theorem declares_of_shape {kind : Kind} {more : Parser Unit} (hk : kind ≠ .parameterList)
    (hshape : ∀ cs, HasToken cs → Each IsPart cs → NodeShape kind cs) (hmore : Reads IsPart more) :
    Declares fun start => nodeFrom start kind (bump >>= fun _ => more) := by
  refine ⟨ReadsFrom.nodeFrom (ReadsIf.token_bind Reads.bump_token fun _ => hmore) ?_,
    AdvancesFrom.nodeFrom (advances_bump.bind fun _ => hmore)⟩
  intro front rest hfront hrest
  have hall : Each IsPart (front ++ rest) := hfront.append hrest.1
  obtain ⟨t, ht, htoken⟩ := hrest.2
  refine Each.singleton (isPart_node hk (hshape _ ⟨t, ?_, htoken⟩ hall) (Each.wellShaped hall))
  exact List.mem_append_right _ ht

omit hr in
theorem declares_plain {kind : Kind} {more : Parser Unit} (hk : kind.isPlain = true)
    (hmore : Reads IsPart more) :
    Declares fun start => nodeFrom start kind (bump >>= fun _ => more) := by
  refine declares_of_shape ?_ (fun _ _ _ => nodeShape_of_isPlain hk) hmore
  rintro rfl
  simp [Kind.isPlain] at hk

omit hr in
/-- The token is all that is asked of some declarations. -/
theorem declares_of_token {kind : Kind} {more : Parser Unit}
    (hk : (kind.isTypeDeclaration || kind == .enumDeclaration || kind == .delegateDeclaration) = true)
    (hmore : Reads IsPart more) : Declares fun start => nodeFrom start kind (bump >>= fun _ => more) := by
  refine declares_of_shape ?_ ?_ hmore
  · rintro rfl
    simp [Kind.isTypeDeclaration] at hk
  · intro cs hcs _
    cases kind <;> simp [Kind.isTypeDeclaration] at hk <;> exact hcs

theorem declares_typeDeclaration (kind : Kind) (hk : kind.isTypeDeclaration = true) :
    Declares (typeDeclaration rules · kind) := by
  have hend : ∀ opened : Bool, Reads IsPart (if opened then
      untilAny [.rBrace, .eof] (rules .member) >>= fun _ =>
        require .rBrace "expected `\x7d` to close type body" >>= fun _ => optionalSemicolon
      else optionalSemicolon) := fun _ =>
    Reads.ite ((Reads.untilAny _ (hr _)).bind fun _ => (Reads.require _ _).bind fun _ =>
      reads_optionalSemicolon) reads_optionalSemicolon
  exact declares_of_token (by simp [hk]) ((Reads.require _ _).bind fun _ => (Reads.isAt _).bind fun _ =>
    Reads.opt reads_typeParameterList fun _ => (Reads.isAt _).bind fun _ =>
      Reads.opt reads_baseList fun _ => reads_constraintClauses.bind fun _ =>
        (Reads.expect _ _).bind hend)

theorem declares_enumDeclaration : Declares (enumDeclaration rules) := by
  have hmember : Reads IsPart (enumMember rules) :=
    reads_plain rfl (reads_attributeLists_part.bind fun _ => (Reads.require _ _).bind fun _ =>
      (Reads.isAt _).bind fun _ => Reads.ite (reads_equalsValueClause hr) (ReadsIf.pure _))
  have hmembers : Reads IsPart (loop (isAtAny [.identifier, .lBracket] >>= fun more =>
      if more then enumMember rules >>= fun _ => eat .comma else pure false)) :=
    Reads.loop ((Reads.isAtAny _).bind fun _ => Reads.ite (hmember.bind fun _ => Reads.eat _)
      (ReadsIf.pure _))
  refine declares_of_token rfl ((Reads.require _ _).bind fun _ => (Reads.isAt _).bind fun _ =>
    Reads.opt reads_baseList fun _ => (Reads.expect _ _).bind fun _ => ?_)
  exact Reads.ite (hmembers.bind fun _ => (Reads.require _ _).bind fun _ => reads_optionalSemicolon)
    reads_optionalSemicolon

theorem declares_delegateDeclaration : Declares (delegateDeclaration rules) :=
  declares_of_token rfl (reads_type_part.bind fun _ => (Reads.require _ _).bind fun _ =>
    (Reads.isAt _).bind fun _ => Reads.opt reads_typeParameterList fun _ =>
      (reads_parameterList hr).bind fun _ => reads_constraintClauses.bind fun _ => Reads.require _ _)

theorem declares_constructorDeclaration : Declares (constructorDeclaration rules) := by
  have hinitializer : Reads IsPart (constructorInitializer rules) := by
    refine Reads.bump.bind fun _ => (Reads.isAtAny _).bind fun _ => ?_
    have hend : Reads IsPart (isAt .lParen >>= fun opened =>
        if opened then argumentList rules else pure ()) :=
      (Reads.isAt _).bind fun _ => Reads.ite (reads_argumentList hr) (ReadsIf.pure _)
    exact Reads.ite (Reads.bump.bind fun _ => hend) ((Reads.complain _).bind fun _ => hend)
  refine declares_of_shape (by decide) (fun cs hcs hparts => ⟨hcs, fun c hc => (hparts c hc).2⟩) ?_
  exact (reads_parameterList hr).bind fun _ => (Reads.isAt _).bind fun _ =>
    Reads.opt hinitializer fun _ => reads_bodyOrSemicolon hr

theorem declares_methodDeclaration : Declares (methodDeclaration rules) := by
  refine declares_of_shape (by decide) (fun cs hcs hparts => ⟨hcs, fun c hc => (hparts c hc).2⟩) ?_
  exact (Reads.isAt _).bind fun _ => Reads.opt reads_typeParameterList fun _ =>
    (reads_parameterList hr).bind fun _ => reads_constraintClauses.bind fun _ =>
      reads_bodyOrSemicolon hr

theorem declares_propertyDeclaration : Declares (propertyDeclaration rules) := by
  refine declares_plain rfl ((Reads.isAt _).bind fun _ => Reads.ite ?_ ?_)
  · exact (reads_arrowExpressionClause hr).bind fun _ => Reads.require _ _
  · refine (reads_accessorList hr).bind fun _ => (Reads.isAt _).bind fun _ => ?_
    exact Reads.ite ((reads_equalsValueClause hr).bind fun _ => Reads.require _ _) (ReadsIf.pure _)

/-! ## Members -/

omit hr in
theorem reads_skipMember {P : Tree → Prop} [OfTokens P] : Reads P skipMember := by
  refine Reads.loop (ReadsIf.ask_bind fun k => ReadsIf.ite (fun _ => ReadsIf.pure _) fun _ => ?_)
  refine ReadsIf.ite (fun _ => ?_) fun _ => ReadsIf.ite (fun hk => ?_) fun _ => ?_
  · exact (Reads.bump.bind fun _ => ReadsIf.pure _).weaken fun _ _ => trivial
  · refine ReadsIf.bind ((readsIf_skipBracketed .lBrace .rBrace (by decide)).weaken ?_) fun _ =>
      Reads.isAt _
    rintro ts ⟨-, rfl⟩
    simpa using hk
  · exact (Reads.bump.bind fun _ => ReadsIf.pure _).weaken fun _ _ => trivial

/-- The variables of a field take over its type, which starts at a mark of its own. -/
theorem yields_fieldDeclaration {s₀ s₁ s : ParserState} {front between : Forest} (hs : Sound s₀)
    (h₁ : Extends s₀ s₁ front) (h : Extends s₁ s between) (hfront : Each IsPart front)
    (hbetween : Each IsPart between) :
    YieldsFrom s₀ (fieldDeclaration rules s₀.builder.mark s₁.builder.mark) s fun _ new rest =>
      Each IsPart new ∧ rest <:+ s.rest := by
  have hvariables : ReadsFrom (fun _ => True) (Each IsPart) (Each IsPart) fun start =>
      nodeFrom start .variableDeclaration (variableDeclarators rules) >>= fun _ =>
        require .semicolon "expected `;` after field declaration" :=
    ReadsFrom.bind (readsFrom_plain rfl (reads_variableDeclarators hr)) fun _ =>
      ReadsFrom.of_reads (Reads.require _ _)
  have hbody := hvariables (opening s₁ .fieldDeclaration s₀.builder.mark) _ between
    (sound_opening h₁ .fieldDeclaration) (h.opening .fieldDeclaration s₀.builder.mark) hbetween trivial
  refine (YieldsFrom.nodeFrom hs h₁ h hbody).mono ?_
  rintro - new rest ⟨more, rfl, hmore, hrest⟩
  exact ⟨Each.singleton (isPart_plain rfl (Each.wellShaped (hfront.append hmore))), hrest⟩

theorem readsFrom_typedMember :
    ReadsFrom (fun _ => True) (Each IsPart) (Each IsPart) (typedMember rules) := by
  have herror : ReadsFrom (fun _ => True) (Each IsPart) (Each IsPart) fun start =>
      nodeFrom start .error (complain "expected member name" >>= fun _ => skipMember) :=
    readsFrom_plain rfl ((Reads.complain _).bind fun _ => reads_skipMember)
  intro s₀ s front hs hext hfront _
  -- The type starts behind the trivia, and all since then is what it read.
  have hext₁ := hext.trans (extends_flushTrivia s)
  have hfront₁ : Each IsPart (front ++ triviaAhead s.rest) := hfront.append (OfTrivia.ahead _)
  obtain ⟨new, hext₂, hnew⟩ := reads_type_part _ (hext₁.sound hs) trivial
  have hext₃ := hext₁.trans hext₂
  have hall : Each IsPart (front ++ triviaAhead s.rest ++ new) := hfront₁.append hnew
  refine Yields.mark (YieldsFrom.run_bind (Yields.ask ?_))
  revert hext₂ hext₃
  generalize (type.run (flushTrivia.run s).2).2 = s₂
  intro hext₂ hext₃
  have hsuffix : s₂.rest <:+ s.rest := hext₂.suffix.trans (extends_flushTrivia s).suffix
  have behind : ∀ {p : Parser Unit}, (YieldsFrom s₀ p s₂ fun _ new rest =>
      Each IsPart new ∧ rest <:+ s₂.rest) →
      YieldsFrom s₀ p s₂ fun _ new rest => Each IsPart new ∧ rest <:+ s.rest :=
    fun h => h.mono fun _ _ _ hnew => ⟨hnew.1, hnew.2.trans hsuffix⟩
  split
  case h_1 | h_2 =>
    exact behind ((declares_methodDeclaration hr).reads s₀ s₂ _ hs hext₃ hall (ne_eof_of_follower ‹_›))
  case h_3 | h_4 =>
    exact behind ((declares_propertyDeclaration hr).reads s₀ s₂ _ hs hext₃ hall (ne_eof_of_follower ‹_›))
  case h_5 => exact behind (yields_fieldDeclaration hr hs hext₁ hext₂ hfront₁ hnew)
  case h_6 => exact behind (herror s₀ s₂ _ hs hext₃ hall trivial)

theorem readsFrom_memberAfter :
    ReadsFrom (fun _ => True) (Each IsPart) (Each IsPart) (memberAfter rules) := by
  have herror : ReadsFrom (fun _ => True) (Each IsPart) (Each IsPart) fun start =>
      nodeFrom start .error (complain "expected member declaration" >>= fun _ => skip >>= fun _ =>
        skipMember) :=
    readsFrom_plain rfl ((Reads.complain _).bind fun _ => Reads.skip.bind fun _ => reads_skipMember)
  intro s₀ s front hs hext hfront hc
  refine Yields.ask ?_
  have declared : ∀ {p : Nat → Parser Unit}, Declares p → Lookahead.kind s.rest ≠ .eof →
      YieldsFrom s₀ (p s₀.builder.mark) s fun _ new rest => Each IsPart new ∧ rest <:+ s.rest :=
    fun hp hne => hp.reads s₀ s front hs hext hfront hne
  split
  case h_1 hkind =>
    exact (declared (declares_typeDeclaration hr .classDeclaration rfl) (by simp [hkind]) :)
  case h_2 hkind =>
    exact (declared (declares_typeDeclaration hr .structDeclaration rfl) (by simp [hkind]) :)
  case h_3 hkind =>
    exact (declared (declares_typeDeclaration hr .interfaceDeclaration rfl) (by simp [hkind]) :)
  case h_4 hkind => exact (declared (declares_enumDeclaration hr) (by simp [hkind]) :)
  case h_5 hkind => exact (declared (declares_delegateDeclaration hr) (by simp [hkind]) :)
  case h_6 =>
    refine Yields.ask ?_
    split
    case isTrue h =>
      have hne : Lookahead.kind s.rest ≠ .eof := by
        intro heof
        simp [heof] at h
      exact (declared (declares_constructorDeclaration hr) hne :)
    case isFalse =>
      refine Yields.ask ?_
      split
      · exact readsFrom_typedMember hr s₀ s front hs hext hfront hc
      · exact herror s₀ s front hs hext hfront hc

omit hr in
theorem reads_declarationFront : Reads IsPart declarationFront :=
  reads_attributeLists_part.bind fun _ => reads_modifiers

omit hr in
/-- Attributes and modifiers, and a reader that opens its node before them. -/
theorem reads_afterFront {more : Nat → Parser Unit}
    (hmore : ReadsFrom (fun _ => True) (Each IsPart) (Each IsPart) more) :
    Reads IsPart (mark >>= fun start => declarationFront >>= fun _ => more start) := by
  refine Reads.mark_bind (ReadsFrom.bind (G := Each IsPart) ?_ fun _ => hmore)
  refine ReadsFrom.of_reads_append reads_declarationFront fun front new hfront hnew => ?_
  rw [hfront]
  exact hnew

theorem reads_member : Reads IsPart (member rules) := reads_afterFront (readsFrom_memberAfter hr)

omit hr in
/-- What a using directive names. -/
theorem reads_usingTarget : Reads IsPart (do
    if ← isAt .staticKw then bump
    if (← isAt .identifier) && (← isAtNth 1 .eq) then
      bump
      bump
    type
    require .semicolon "expected `;` after using directive") := by
  have hend : Reads IsPart (type >>= fun _ =>
      require .semicolon "expected `;` after using directive") :=
    reads_type_part.bind fun _ => Reads.require _ _
  refine (Reads.isAt _).bind fun _ => Reads.opt Reads.bump fun _ => (Reads.isAt _).bind fun _ =>
    (Reads.isAtNth _ _).bind fun _ => ?_
  exact Reads.ite (Reads.bump.bind fun _ => Reads.bump.bind fun _ => hend) hend

omit hr in
theorem reads_usingDirective : Reads IsPart usingDirective :=
  reads_plain rfl ((Reads.require _ _).bind fun _ => reads_usingTarget)

/-- The name of a namespace and what is in it. -/
theorem readsFrom_namespaceName : ReadsFrom (fun _ => True) (Each IsPart) (Each IsPart) fun start =>
    name type false >>= fun _ => isAt .semicolon >>= fun wholeFile =>
      if wholeFile then
        nodeFrom start .fileScopedNamespaceDeclaration (bump >>= fun _ => rules (.namespaceBody false))
      else
        nodeFrom start .namespaceDeclaration
          (require .lBrace "expected `\x7b` after namespace name" >>= fun _ =>
            rules (.namespaceBody true) >>= fun _ =>
              require .rBrace "expected `\x7d` to close namespace" >>= fun _ =>
                optionalSemicolon) := by
  have hname : Reads IsPart (name type false) :=
    (reads_name reads_type false).imp fun _ hnew t ht => IsTypeSyntax.isPart (hnew t ht)
  refine ReadsFrom.bind (ReadsFrom.of_reads hname) fun _ =>
    ReadsFrom.bind (ReadsFrom.of_reads (Reads.isAt _)) fun _ => ReadsFrom.ite (fun _ => ?_) fun _ => ?_
  · exact readsFrom_plain rfl (Reads.bump.bind fun _ => hr _)
  · exact readsFrom_plain rfl ((Reads.require _ _).bind fun _ => (hr _).bind fun _ =>
      (Reads.require _ _).bind fun _ => reads_optionalSemicolon)

theorem readsFrom_namespaceDeclaration :
    ReadsFrom (fun _ => True) (Each IsPart) (Each IsPart) (namespaceDeclaration rules) :=
  ReadsFrom.bind (ReadsFrom.of_reads (Reads.require _ _)) fun _ => readsFrom_namespaceName hr

/-- A declaration in a file or a namespace, behind its attributes and modifiers. -/
theorem readsFrom_namespaceMember : ReadsFrom (fun _ => True) (Each IsPart) (Each IsPart) fun start =>
    isAt .namespaceKw >>= fun atNamespace =>
      if atNamespace then namespaceDeclaration rules start else memberAfter rules start :=
  ReadsFrom.bind (ReadsFrom.of_reads (Reads.isAt _)) fun _ =>
    ReadsFrom.ite (fun _ => readsFrom_namespaceDeclaration hr) fun _ => readsFrom_memberAfter hr

theorem reads_namespaceMember : Reads IsPart (namespaceMember rules) :=
  reads_afterFront (readsFrom_namespaceMember hr)

omit hr in
theorem reads_strayTokens : Reads IsPart strayTokens :=
  reads_plain rfl ((Reads.complain _).bind fun _ => Reads.skip.bind fun _ => Reads.skipTo _)

theorem reads_namespaceItem (inBlock : Bool) : Reads IsPart (namespaceItem rules inBlock) := by
  refine Reads.peek.bind fun _ => Reads.ite (ReadsIf.pure _) (Reads.ite ?_ ?_)
  · exact reads_usingDirective.bind fun _ => ReadsIf.pure _
  · refine (Reads.ask _).bind fun _ => Reads.ite ?_ ?_
    · exact (reads_namespaceMember hr).bind fun _ => ReadsIf.pure _
    · exact reads_strayTokens.bind fun _ => ReadsIf.pure _

theorem reads_namespaceBody (inBlock : Bool) : Reads IsPart (namespaceBody rules inBlock) :=
  Reads.loop (reads_namespaceItem hr inBlock)

/-! ## The whole grammar -/

/-- What the rules of one level of nesting keep, the next level keeps. -/
theorem reads_construct (c : Construct) : Reads IsPart (construct rules c) := by
  cases c with
  | namespaceBody inBlock => exact reads_namespaceBody hr inBlock
  | member => exact reads_member hr
  | statement => exact reads_statement hr
  | expression power => exact reads_expressionAbove hr power
  | unary => exact reads_unary hr
  | initializer => exact reads_initializer hr

end

/-- However deep constructs nest, all that is read is well-shaped. -/
theorem reads_within (depth : Nat) (c : Construct) : Reads IsPart (within depth c) := by
  induction depth generalizing c with
  | zero => exact ReadsIf.pure _
  | succ depth ih => exact reads_construct ih c

end CSharpKit.Syntax.Grammar
