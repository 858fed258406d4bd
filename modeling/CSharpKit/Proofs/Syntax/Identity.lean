import CSharpKit.Proofs.Syntax.Levels
import CSharpKit.Proofs.Syntax.Pointers

/-!
# Pointers identify nodes

Levels go down along all nodes of a file that share their text, so no two of
them have the same kind: a pointer, which is a kind and a span, names one node,
and looking it up finds that node. Levels hold of statements and declarations
as of expressions, and so of the whole grammar.
-/

namespace CSharpKit.Syntax

open Tree CSharpKit.Syntax.Parser

namespace Grammar

variable {rules : Rules}

section

variable (hr : RulesNest rules)
include hr

/-! ## Statements -/

theorem nested_variableDeclarators : Reads (Nested 2) (variableDeclarators rules) := by
  refine Reads.separated (reads_lower (by decide) ((Reads.require _ _).bind fun _ => ?_))
  exact reads_optAt (nested_bracketedArgumentList hr).reads fun _ => nested_value hr

theorem nested_variableDeclaration : Reads (Nested 3) (variableDeclaration rules) :=
  reads_lower (by decide) (nested_type.bind fun _ => nested_variableDeclarators hr)

theorem nested_embeddedStatement : Reads (Nested 8) (embeddedStatement rules) :=
  (Reads.isAtAny _).bind fun _ => Reads.ite (Reads.complain _) hr.statement

theorem nested_expression : Reads (Nested 8) (expression rules) := (hr.expression 0).up (by decide)

theorem nested_parenthesizedCondition : Reads (Nested 8) (parenthesizedCondition rules) :=
  (Reads.require _ _).bind fun _ => (nested_expression hr).bind fun _ => Reads.require _ _

theorem nested_jump {k : Kind} (hk : k.level < 8) (missing : String) :
    ReadsIf (fun ts => Lookahead.kind ts ≠ .eof) (Each (Nested 8)) (jump rules k missing) := by
  refine readsIf_ahead (m := 8) hk ((Reads.isAt _).bind fun _ => ?_)
  exact Reads.ite (Reads.require _ _) ((nested_expression hr).bind fun _ => Reads.require _ _)

theorem nested_ifStatement :
    ReadsIf (fun ts => Lookahead.kind ts ≠ .eof) (Each (Nested 8)) (ifStatement rules) := by
  have helse : ReadsIf (fun ts => Lookahead.kind ts = .elseKw) (Each (Nested 8))
      (node .elseClause (bump >>= fun _ => embeddedStatement rules)) :=
    (readsIf_ahead (by decide) (nested_embeddedStatement hr)).weaken fun _ =>
      ne_eof_of_kind_eq (by decide)
  exact readsIf_ahead (by decide) ((nested_parenthesizedCondition hr).bind fun _ =>
    (nested_embeddedStatement hr).bind fun _ => reads_iteAt helse (ReadsIf.pure _))

theorem nested_whileStatement :
    ReadsIf (fun ts => Lookahead.kind ts ≠ .eof) (Each (Nested 8)) (whileStatement rules) :=
  readsIf_ahead (by decide) ((nested_parenthesizedCondition hr).bind fun _ =>
    nested_embeddedStatement hr)

theorem nested_expressionList (terminator : Kind) :
    Reads (Nested 8) (expressionList rules terminator) :=
  Reads.loop ((nested_expression hr).bind fun _ => (Reads.isAt _).bind fun _ =>
    Reads.ite (ReadsIf.pure _) (Reads.eat _))

theorem nested_forStatement :
    ReadsIf (fun ts => Lookahead.kind ts ≠ .eof) (Each (Nested 8)) (forStatement rules) := by
  have hend : Reads (Nested 8) (require .rParen "expected `)`" >>= fun _ =>
      embeddedStatement rules) :=
    (Reads.require _ _).bind fun _ => nested_embeddedStatement hr
  have hsteps : Reads (Nested 8) (require .semicolon "expected `;`" >>= fun _ =>
      isAt .rParen >>= fun closed => if closed then _ else
        expressionList rules .rParen >>= fun _ => _) :=
    (Reads.require _ _).bind fun _ => (Reads.isAt _).bind fun _ =>
      Reads.ite hend ((nested_expressionList hr _).bind fun _ => hend)
  have hcondition : Reads (Nested 8) (require .semicolon "expected `;`" >>= fun _ =>
      isAt .semicolon >>= fun empty => if empty then _ else expression rules >>= fun _ => _) :=
    (Reads.require _ _).bind fun _ => (Reads.isAt _).bind fun _ =>
      Reads.ite hsteps ((nested_expression hr).bind fun _ => hsteps)
  refine readsIf_ahead (m := 8) (by decide) ((Reads.require _ _).bind fun _ =>
    (Reads.isAt _).bind fun _ => ?_)
  refine Reads.ite hcondition ((Reads.ask _).bind fun _ => Reads.ite (ReadsIf.bind ?_ fun _ =>
    hcondition) ((nested_expressionList hr _).bind fun _ => hcondition))
  exact (nested_variableDeclaration hr).up (by decide)

theorem nested_forEachStatement :
    ReadsIf (fun ts => Lookahead.kind ts ≠ .eof) (Each (Nested 8)) (forEachStatement rules) :=
  readsIf_ahead (by decide) ((Reads.require _ _).bind fun _ => (nested_type.up (by decide)).bind
    fun _ => (Reads.require _ _).bind fun _ => (Reads.require _ _).bind fun _ =>
      (nested_expression hr).bind fun _ => (Reads.require _ _).bind fun _ =>
        nested_embeddedStatement hr)

theorem nested_constantDeclaration : Reads (Nested 8) (constantDeclaration rules) :=
  reads_lower (by decide) ((nested_leaf (by decide)).bind fun _ =>
    (nested_variableDeclaration hr).bind fun _ => Reads.require _ _)

theorem nested_plainStatement : Reads (Nested 8) (plainStatement rules) := by
  refine (Reads.ask _).bind fun _ => Reads.ite ?_ (Reads.peek.bind fun _ => Reads.ite ?_ ?_)
  · exact reads_lower (by decide) ((nested_variableDeclaration hr).bind fun _ => Reads.require _ _)
  · exact reads_lower (by decide) ((hr.expression 0).bind fun _ => Reads.require _ _)
  · exact reads_lower (by decide) ((Reads.complain _).bind fun _ => Reads.skip)

theorem nested_statement : Reads (Nested 8) (statement rules) := by
  have hword : ∀ {k : Kind}, k.level < 8 →
      Reads (Nested 8) (node k (bump >>= fun _ => require .semicolon "expected `;`")) :=
    fun hk => reads_lower hk (Reads.bump.bind fun _ => Reads.require _ _)
  have keyword : ∀ {k : Kind} {p : Parser Unit}, k ≠ .eof →
      ReadsIf (fun ts => Lookahead.kind ts ≠ .eof) (Each (Nested 8)) p →
      ReadsIf (fun ts => True ∧ Lookahead.kind ts = k) (Each (Nested 8)) p :=
    fun hk hp => hp.weaken fun _ h => ne_eof_of_kind_eq hk h.2
  refine ReadsIf.ask_bind fun k => ?_
  split
  · exact (nested_block hr).weaken fun _ h => h.2
  · exact (nested_leaf (by decide)).weaken fun _ _ => trivial
  · exact keyword (by decide) (nested_jump hr (by decide) _)
  · exact keyword (by decide) (nested_jump hr (by decide) _)
  · exact (hword (by decide)).weaken fun _ _ => trivial
  · exact (hword (by decide)).weaken fun _ _ => trivial
  · exact keyword (by decide) (nested_ifStatement hr)
  · exact keyword (by decide) (nested_whileStatement hr)
  · exact keyword (by decide) (nested_forStatement hr)
  · exact keyword (by decide) (nested_forEachStatement hr)
  · exact (nested_constantDeclaration hr).weaken fun _ _ => trivial
  · exact (nested_plainStatement hr).weaken fun _ _ => trivial

/-! ## Parts of declarations -/

omit hr in
theorem nested_modifiers {n : Nat} : Reads (Nested (n + 1)) modifiers :=
  (Reads.ask _).bind fun _ => Reads.ite
    (reads_lower (Nat.succ_pos n) (Reads.whileAhead Reads.bump)) (ReadsIf.pure _)

omit hr in
theorem nested_constraintClauses : Reads (Nested 8) constraintClauses :=
  Reads.whileAhead (reads_lower (by decide) (Reads.bump.bind fun _ => (Reads.require _ _).bind
    fun _ => (Reads.require _ _).bind fun _ => ReadsIf.get_bind fun _ => reads_constraintTail _ _))

omit hr in
theorem nested_typeParameterList : Reads (Nested 8) typeParameterList := by
  have hparameter : Reads (Nested 2) typeParameter :=
    reads_lower (by decide) (nested_attributeLists.bind fun _ => (Reads.isAtAny _).bind fun _ =>
      Reads.opt Reads.bump fun _ => Reads.require _ _)
  exact reads_lower (by decide) ((Reads.require _ _).bind fun _ => (Reads.separated hparameter).bind
    fun _ => Reads.require _ _)

omit hr in
theorem nested_baseList : Reads (Nested 8) baseList :=
  reads_lower (by decide) ((Reads.require _ _).bind fun _ => Reads.separated nested_type)

theorem nested_parameterList : Reads (Nested 8) (parameterList rules) :=
  reads_lower (by decide) ((Reads.expect _ _).bind fun _ =>
    Reads.ite ((Reads.separatedUntil _ (nested_parameter hr false)).bind fun _ => Reads.require _ _)
      (ReadsIf.pure _))

theorem nested_arrowExpressionClause : Reads (Nested 6) (arrowExpressionClause rules) :=
  reads_lower (by decide) ((Reads.require _ _).bind fun _ => hr.expression 0)

theorem nested_bodyOrSemicolon : Reads (Nested 6) (bodyOrSemicolon rules) := by
  refine ReadsIf.ask_bind fun k => ?_
  split
  · exact (nested_block hr).weaken fun _ h => h.2
  · exact ((nested_arrowExpressionClause hr).bind fun _ => Reads.require _ _).weaken fun _ _ => trivial
  · exact (Reads.require _ _).weaken fun _ _ => trivial

theorem nested_accessorList : Reads (Nested 8) (accessorList rules) := by
  have haccessor : Reads (Nested 7) (accessor rules) := by
    refine reads_lower (by decide) (nested_attributeLists.bind fun _ => nested_modifiers.bind fun _ => ?_)
    refine (Reads.eat _).bind fun _ => Reads.ite (nested_bodyOrSemicolon hr) ?_
    exact (Reads.complain _).bind fun _ => Reads.skip
  exact reads_lower (by decide) ((Reads.require _ _).bind fun _ =>
    (Reads.untilAny _ haccessor).bind fun _ => Reads.require _ _)

omit hr in
theorem nested_optionalSemicolon : Reads (Nested 8) optionalSemicolon :=
  (Reads.eat _).bind fun _ => ReadsIf.pure _

/-! ## Declarations -/

/-- A reader that opens a node of a low level at a mark, before a token. -/
abbrev NestsAhead (p : Nat → Parser Unit) : Prop :=
  ReadsFrom (fun ts => Lookahead.kind ts ≠ .eof) (Each (Nested 8)) (Each (Nested 8)) p

theorem nested_typeDeclaration (k : Kind) (hk : k.level < 8) :
    NestsAhead (typeDeclaration rules · k) := by
  have hend : ∀ opened : Bool, Reads (Nested 8) (if opened then
      untilAny [.rBrace, .eof] (rules .member) >>= fun _ =>
        require .rBrace "expected `\x7d` to close type body" >>= fun _ => optionalSemicolon
      else optionalSemicolon) := fun _ =>
    Reads.ite ((Reads.untilAny _ hr.member).bind fun _ => (Reads.require _ _).bind fun _ =>
      nested_optionalSemicolon) nested_optionalSemicolon
  exact readsFrom_ahead hk ((Reads.require _ _).bind fun _ => (Reads.isAt _).bind fun _ =>
    Reads.opt nested_typeParameterList fun _ => (Reads.isAt _).bind fun _ =>
      Reads.opt nested_baseList fun _ => nested_constraintClauses.bind fun _ =>
        (Reads.expect _ _).bind hend)

theorem nested_enumDeclaration : NestsAhead (enumDeclaration rules) := by
  have hmember : Reads (Nested 8) (enumMember rules) :=
    reads_lower (by decide) (nested_attributeLists.bind fun _ => (Reads.require _ _).bind fun _ =>
      nested_value hr)
  have hmembers : Reads (Nested 8) (loop (isAtAny [.identifier, .lBracket] >>= fun more =>
      if more then enumMember rules >>= fun _ => eat .comma else pure false)) :=
    Reads.loop ((Reads.isAtAny _).bind fun _ => Reads.ite (hmember.bind fun _ => Reads.eat _)
      (ReadsIf.pure _))
  refine readsFrom_ahead (by decide) ((Reads.require _ _).bind fun _ => (Reads.isAt _).bind fun _ =>
    Reads.opt nested_baseList fun _ => (Reads.expect _ _).bind fun _ => ?_)
  exact Reads.ite (hmembers.bind fun _ => (Reads.require _ _).bind fun _ => nested_optionalSemicolon)
    nested_optionalSemicolon

theorem nested_delegateDeclaration : NestsAhead (delegateDeclaration rules) :=
  readsFrom_ahead (by decide) ((nested_type.up (by decide)).bind fun _ => (Reads.require _ _).bind
    fun _ => (Reads.isAt _).bind fun _ => Reads.opt nested_typeParameterList fun _ =>
      (nested_parameterList hr).bind fun _ => nested_constraintClauses.bind fun _ =>
        Reads.require _ _)

theorem nested_constructorDeclaration : NestsAhead (constructorDeclaration rules) := by
  have harguments : Reads (Nested 8) (isAt .lParen >>= fun opened =>
      if opened then argumentList rules else pure ()) :=
    reads_iteAt ((nested_argumentList hr).reads.up (by decide)) (ReadsIf.pure _)
  have hinitializer : Reads (Nested 8) (constructorInitializer rules) := by
    refine Reads.bump.bind fun _ => (Reads.isAtAny _).bind fun _ => ?_
    exact Reads.ite (Reads.bump.bind fun _ => harguments)
      ((Reads.complain _).bind fun _ => harguments)
  exact readsFrom_ahead (by decide) ((nested_parameterList hr).bind fun _ => (Reads.isAt _).bind
    fun _ => Reads.opt hinitializer fun _ => (nested_bodyOrSemicolon hr).up (by decide))

theorem nested_methodDeclaration : NestsAhead (methodDeclaration rules) :=
  readsFrom_ahead (by decide) ((Reads.isAt _).bind fun _ => Reads.opt nested_typeParameterList
    fun _ => (nested_parameterList hr).bind fun _ => nested_constraintClauses.bind fun _ =>
      (nested_bodyOrSemicolon hr).up (by decide))

theorem nested_propertyDeclaration : NestsAhead (propertyDeclaration rules) := by
  have hvalue : ReadsIf (fun ts => Lookahead.kind ts = .eq) (Each (Nested 8))
      (equalsValueClause rules >>= fun _ => require .semicolon "expected `;` after initializer") :=
    (nested_equalsValueClause hr).bind fun _ => Reads.require _ _
  refine readsFrom_ahead (by decide) ((Reads.isAt _).bind fun _ => Reads.ite ?_ ?_)
  · exact ((nested_arrowExpressionClause hr).up (by decide)).bind fun _ => Reads.require _ _
  · exact (nested_accessorList hr).bind fun _ => reads_iteAt hvalue (ReadsIf.pure _)

/-! ## Members -/

/-- A field wraps its variables, and they wrap its type. -/
theorem nested_fieldDeclaration {s₀ s₁ s : ParserState} {front between : Forest} (hs : Sound s₀)
    (h₁ : Extends s₀ s₁ front) (h : Extends s₁ s between) (hfront : Each (Nested 2) front)
    (hbetween : Each (Nested 2) between) :
    YieldsFrom s₀ (fieldDeclaration rules s₀.builder.mark s₁.builder.mark) s fun _ new rest =>
      Each (Nested 8) new ∧ rest <:+ s.rest := by
  have hvariables : ReadsFrom (fun _ => True) (Each (Nested 2)) (Each (Nested 3)) fun start =>
      nodeFrom start .variableDeclaration (variableDeclarators rules) >>= fun _ =>
        require .semicolon "expected `;` after field declaration" :=
    ReadsFrom.bind (readsFrom_lower .variableDeclaration (by decide) (nested_variableDeclarators hr))
      fun _ => ReadsFrom.of_reads (Reads.require _ _)
  have hbody := hvariables (opening s₁ .fieldDeclaration s₀.builder.mark) _ between
    (sound_opening h₁ .fieldDeclaration) (h.opening .fieldDeclaration s₀.builder.mark) hbetween trivial
  refine (YieldsFrom.nodeFrom hs h₁ h hbody).mono ?_
  rintro - new rest ⟨more, rfl, hmore, hrest⟩
  refine ⟨Each.singleton (nested_of_lower (by decide) (Each.append ?_ hmore)), hrest⟩
  exact fun t ht => (hfront t ht).mono (by decide)

omit hr in
/-- What recovery skips goes into a node of its own, with what was read before it. -/
theorem nested_error {message : String} {more : Parser Unit} (hmore : Reads (Nested 3) more) :
    ReadsFrom (fun _ => True) (Each (Nested 3)) (Each (Nested 8)) fun start =>
      nodeFrom start .error (complain message >>= fun _ => more) :=
  readsFrom_lower .error (by decide) ((Reads.complain _).bind fun _ => hmore)

theorem nested_typedMember :
    ReadsFrom (fun _ => True) (Each (Nested 2)) (Each (Nested 8)) (typedMember rules) := by
  intro s₀ s front hs hext hfront _
  have hext₁ := hext.trans (extends_flushTrivia s)
  have hfront₁ : Each (Nested 2) (front ++ triviaAhead s.rest) := hfront.append (OfTrivia.ahead _)
  obtain ⟨new, hext₂, hnew⟩ := nested_type _ (hext₁.sound hs) trivial
  have hext₃ := hext₁.trans hext₂
  have hall : Each (Nested 2) (front ++ triviaAhead s.rest ++ new) := hfront₁.append hnew
  have hlow : Each (Nested 3) (front ++ triviaAhead s.rest ++ new) := fun t ht =>
    (hall t ht).mono (by decide)
  have hhigh : Each (Nested 8) (front ++ triviaAhead s.rest ++ new) := fun t ht =>
    (hall t ht).mono (by decide)
  refine Yields.mark (YieldsFrom.run_bind (Yields.ask ?_))
  revert hext₂ hext₃
  generalize (type.run (flushTrivia.run s).2).2 = s₂
  intro hext₂ hext₃
  have hsuffix : s₂.rest <:+ s.rest := hext₂.suffix.trans (extends_flushTrivia s).suffix
  have behind : ∀ {p : Parser Unit}, (YieldsFrom s₀ p s₂ fun _ new rest =>
      Each (Nested 8) new ∧ rest <:+ s₂.rest) →
      YieldsFrom s₀ p s₂ fun _ new rest => Each (Nested 8) new ∧ rest <:+ s.rest :=
    fun h => h.mono fun _ _ _ hnew => ⟨hnew.1, hnew.2.trans hsuffix⟩
  split
  case h_1 | h_2 =>
    exact behind (nested_methodDeclaration hr s₀ s₂ _ hs hext₃ hhigh (ne_eof_of_follower ‹_›))
  case h_3 | h_4 =>
    exact behind (nested_propertyDeclaration hr s₀ s₂ _ hs hext₃ hhigh (ne_eof_of_follower ‹_›))
  case h_5 => exact behind (nested_fieldDeclaration hr hs hext₁ hext₂ hfront₁ hnew)
  case h_6 => exact behind (nested_error reads_skipMember s₀ s₂ _ hs hext₃ hlow trivial)

theorem nested_memberAfter :
    ReadsFrom (fun _ => True) (Each (Nested 2)) (Each (Nested 8)) (memberAfter rules) := by
  intro s₀ s front hs hext hfront hc
  have hlow : Each (Nested 3) front := fun t ht => (hfront t ht).mono (by decide)
  have hhigh : Each (Nested 8) front := fun t ht => (hfront t ht).mono (by decide)
  have declared : ∀ {p : Nat → Parser Unit}, NestsAhead p → Lookahead.kind s.rest ≠ .eof →
      YieldsFrom s₀ (p s₀.builder.mark) s fun _ new rest => Each (Nested 8) new ∧ rest <:+ s.rest :=
    fun hp hne => hp s₀ s front hs hext hhigh hne
  refine Yields.ask ?_
  split
  case h_1 hkind =>
    exact (declared (nested_typeDeclaration hr .classDeclaration (by decide)) (by simp [hkind]) :)
  case h_2 hkind =>
    exact (declared (nested_typeDeclaration hr .structDeclaration (by decide)) (by simp [hkind]) :)
  case h_3 hkind =>
    exact (declared (nested_typeDeclaration hr .interfaceDeclaration (by decide)) (by simp [hkind]) :)
  case h_4 hkind => exact (declared (nested_enumDeclaration hr) (by simp [hkind]) :)
  case h_5 hkind => exact (declared (nested_delegateDeclaration hr) (by simp [hkind]) :)
  case h_6 =>
    refine Yields.ask ?_
    split
    case isTrue h =>
      have hne : Lookahead.kind s.rest ≠ .eof := by
        intro heof
        simp [heof] at h
      exact (declared (nested_constructorDeclaration hr) hne :)
    case isFalse =>
      refine Yields.ask ?_
      split
      · exact nested_typedMember hr s₀ s front hs hext hfront hc
      · exact nested_error (Reads.skip.bind fun _ => reads_skipMember) s₀ s front hs hext hlow trivial

omit hr in
/-- Attributes and modifiers, and a reader that opens its node before them. -/
theorem nested_afterFront {more : Nat → Parser Unit}
    (hmore : ReadsFrom (fun _ => True) (Each (Nested 2)) (Each (Nested 8)) more) :
    Reads (Nested 8) (mark >>= fun start => declarationFront >>= fun _ => more start) := by
  refine Reads.mark_bind (ReadsFrom.bind (G := Each (Nested 2)) ?_ fun _ => hmore)
  exact readsFrom_first (nested_attributeLists.bind fun _ => nested_modifiers)

theorem nested_member : Reads (Nested 8) (member rules) := nested_afterFront (nested_memberAfter hr)

omit hr in
theorem nested_usingDirective : Reads (Nested 8) usingDirective := by
  have hend : Reads (Nested 2) (type >>= fun _ =>
      require .semicolon "expected `;` after using directive") :=
    nested_type.bind fun _ => Reads.require _ _
  refine reads_lower (by decide) ((Reads.require _ _).bind fun _ => (Reads.isAt _).bind fun _ =>
    Reads.opt Reads.bump fun _ => (Reads.isAt _).bind fun _ => (Reads.isAtNth _ _).bind fun _ => ?_)
  exact Reads.ite (Reads.bump.bind fun _ => Reads.bump.bind fun _ => hend) hend

/-- A namespace takes its keyword, which stands before the name that it is told
apart by. -/
theorem nested_namespaceDeclaration : ReadsFrom (fun ts => Lookahead.kind ts = .namespaceKw)
    (Each (Nested 8)) (Each (Nested 8)) (namespaceDeclaration rules) := by
  have hnode : ∀ {k : Kind} {body : Parser Unit}, k.level < 8 → Reads (Nested 8) body →
      ReadsFrom (fun _ => True) (fun ts => Each (Nested 8) ts ∧ HasToken ts) (Each (Nested 8))
        fun start => nodeFrom start k body := by
    refine fun hk hbody => ReadsFrom.nodeFrom hbody fun front more hfront hmore => Each.singleton ?_
    obtain ⟨hfront, t, ht, htok⟩ := hfront
    exact nested_of_token hk (hfront.append hmore) ⟨t, List.mem_append_left _ ht, htok⟩
  have keep : ∀ {α : Type} {p : Parser α}, Reads (Nested 8) p →
      ReadsFrom (fun _ => True) (fun ts => Each (Nested 8) ts ∧ HasToken ts)
        (fun ts => Each (Nested 8) ts ∧ HasToken ts) fun _ => p := by
    refine fun hp => ReadsFrom.of_reads_append hp fun front new hfront hnew => ?_
    obtain ⟨hfront, t, ht, htok⟩ := hfront
    exact ⟨hfront.append hnew, t, List.mem_append_left _ ht, htok⟩
  have hkeyword : ReadsFrom (fun ts => Lookahead.kind ts = .namespaceKw) (Each (Nested 8))
      (fun ts => Each (Nested 8) ts ∧ HasToken ts) fun _ =>
        require .namespaceKw "expected `namespace`" :=
    ReadsFrom.of_reads_append (Reads.require_token (P := Nested 8) (by decide) _)
      fun front new hfront hnew => ⟨hfront.append hnew.1, hnew.2.append_right⟩
  refine ReadsFrom.bind hkeyword fun _ => ?_
  refine ReadsFrom.bind (keep ((nested_name nested_type false).up (by decide))) fun _ =>
    ReadsFrom.bind (keep (Reads.isAt _)) fun _ => ReadsFrom.ite (fun _ => ?_) fun _ => ?_
  · exact hnode (by decide) (Reads.bump.bind fun _ => hr.namespaceBody false)
  · exact hnode (by decide) ((Reads.require _ _).bind fun _ => (hr.namespaceBody true).bind fun _ =>
      (Reads.require _ _).bind fun _ => nested_optionalSemicolon)

theorem nested_namespaceMember : Reads (Nested 8) (namespaceMember rules) := by
  refine nested_afterFront (ReadsFrom.ask_bind fun a => ReadsFrom.ite (fun ha => ?_) fun _ => ?_)
  · rintro s₀ s front hs hext hfront ⟨-, hkind⟩
    have hhigh : Each (Nested 8) front := fun t ht => (hfront t ht).mono (by decide)
    exact nested_namespaceDeclaration hr s₀ s front hs hext hhigh (by simpa [ha] using hkind)
  · exact (nested_memberAfter hr).weaken fun _ _ => trivial

theorem nested_namespaceBody (inBlock : Bool) : Reads (Nested 8) (namespaceBody rules inBlock) := by
  have hstray : Reads (Nested 8) strayTokens :=
    reads_lower (by decide) ((Reads.complain _).bind fun _ => Reads.skip.bind fun _ => Reads.skipTo _)
  refine Reads.loop (Reads.peek.bind fun _ => Reads.ite (ReadsIf.pure _) (Reads.ite ?_ ?_))
  · exact nested_usingDirective.bind fun _ => ReadsIf.pure _
  · refine (Reads.ask _).bind fun _ => Reads.ite ?_ ?_
    · exact (nested_namespaceMember hr).bind fun _ => ReadsIf.pure _
    · exact hstray.bind fun _ => ReadsIf.pure _

/-! ## The whole grammar -/

/-- What the rules of one level of nesting keep, the next level keeps. -/
theorem rulesNest_construct : RulesNest (construct rules) where
  namespaceBody := nested_namespaceBody hr
  member := nested_member hr
  statement := nested_statement hr
  expression := nested_expressionAbove hr
  unary := nested_unary hr
  initializer := nested_initializer hr

end

/-- However deep constructs nest, levels go down where the text stays. -/
theorem rulesNest_within (depth : Nat) : RulesNest (within depth) := by
  induction depth with
  | zero => constructor <;> intros <;> exact ReadsIf.pure _
  | succ depth ih => exact rulesNest_construct ih

end Grammar

/-! ## Nodes of one span -/

namespace Cursor

theorem width_pos_of_firm {c : Cursor} (hsolid : Solid c.focus) (hfirm : Firm c.focus) :
    0 < c.focus.width := by
  rcases hfirm with htoken | htoken
  · exact hsolid.width_pos htoken
  · exact width_pos_of_hasToken hsolid htoken

/-- A child node that takes all of the text has a lower level. -/
theorem level_lt_of_mem_elements {c e : Cursor} (hsolid : Solid c.focus)
    (hlevel : Leveled c.kind c.focus.children) (he : e ∈ c.elements) (hnode : e.isNode = true)
    (hwidth : e.focus.width = c.focus.width) : e.kind.level < c.kind.level := by
  rcases hlevel with ⟨t, ht, hfirm, hlow⟩ | hlow
  · obtain ⟨f, hf, rfl⟩ := exists_mem_elements ht
    have hpos := width_pos_of_firm ((below_of_mem_elements hf).solid hsolid) hfirm
    have hget := getElem?_of_mem_elements he
    have hgetf := getElem?_of_mem_elements hf
    have hc := width_eq c.focus (isNode_of_mem_elements he)
    -- Beside the child that takes text no other can take all of it.
    rcases Nat.lt_trichotomy e.index f.index with hlt | heq | hlt
    · have := width_add_width_le hlt hget hgetf
      omega
    · obtain rfl := eq_of_index_eq he hf heq
      exact hlow hnode
    · have := width_add_width_le hlt hgetf hget
      omega
  · exact hlow e.focus (focus_mem_of_mem_elements he) hnode

/-- Along nodes that share their text, levels go down. -/
theorem Below.eq_or_level_lt {c d : Cursor} (h : Below c d) (hsolid : Solid c.focus)
    (hlevels : All Leveled (fun _ _ => True) c.focus) (hnode : d.isNode = true)
    (hwidth : d.focus.width = c.focus.width) : d = c ∨ d.kind.level < c.kind.level := by
  induction h using Relation.ReflTransGen.head_induction_on with
  | refl => exact .inl rfl
  | @head c e he hed ih =>
      have hce : Below c e := below_of_mem_elements he
      have hle : d.focus.width ≤ e.focus.width := Below.width_le hed
      have hewidth : e.focus.width = c.focus.width := by
        have := hce.width_le
        omega
      have henode : e.isNode = true := isNode_of_below hed hnode
      have hc : Leveled c.kind c.focus.children := by
        have hcnode := isNode_of_mem_elements he
        cases hfocus : c.focus with
        | token k s => simp [isNode, hfocus, Tree.isNode] at hcnode
        | node k cs =>
            rw [hfocus] at hlevels
            rw [kind, hfocus]
            exact (all_node.mp hlevels).1
      have hlt := level_lt_of_mem_elements hsolid hc he henode hewidth
      rcases ih (hce.solid hsolid) (hce.all hlevels) (by omega) with rfl | hlower
      · exact .inr hlt
      · exact .inr (Nat.lt_trans hlower hlt)

theorem outstanding_of_leveled {c : Cursor} (hsolid : Solid c.focus)
    (hlevels : All Leveled (fun _ _ => True) c.focus) : Outstanding c := by
  intro d hd hnode hkind hwidth
  rcases hd.eq_or_level_lt hsolid hlevels hnode hwidth with heq | hlt
  · exact heq
  · rw [hkind] at hlt
    exact absurd hlt (Nat.lt_irrefl _)

end Cursor

/-! ## Files -/

/-- In the tree of a file levels go down where the text stays. -/
theorem leveled_parse (text : String) : All Leveled (fun _ _ => True) (parse text).tree := by
  have hread := (Grammar.rulesNest_within (nestingBound (Token.lex text))).namespaceBody false
  obtain ⟨new, hext, hnew⟩ := hread _ (sound_openFile text) trivial
  obtain ⟨hbuilder, -⟩ := wholeFile_run rfl hext rfl
  obtain ⟨cs, hcomplete, htree⟩ := parse_complete text
  have hsame := hcomplete.builder.symm.trans hbuilder
  simp only [Builder.mk.injEq, List.cons.injEq, Tree.node.injEq, true_and, and_true] at hsame
  rw [htree, hsame]
  exact (nested_of_lower (Nat.lt_succ_self _) (hnew.append (OfTrivia.ahead _))).1

section

variable {text : String} {c : Cursor}

theorem outstanding_parse (hc : Cursor.Below (.root (parse text).tree) c) : c.Outstanding :=
  Cursor.outstanding_of_leveled (hc.solid (isFile_parse text).solid) (hc.all (leveled_parse text))

/-- The pointer to a node that takes some text leads back to it. -/
theorem resolve_parse (hc : Cursor.Below (.root (parse text).tree) c) (hnode : c.isNode = true)
    (hpos : 0 < c.focus.width) :
    (Pointer.of c).resolve (.root (parse text).tree) = .ok (some c) :=
  Cursor.resolve_pointer hc hnode hpos (outstanding_parse hc)

end

/-- **Identity.** In the tree of a text no two nodes that take some of the text
have the same kind and the same span, and the pointer to such a node leads back
to it. -/
theorem parse_pointers_identify (text : String) :
    (∀ c ∈ (Cursor.root (parse text).tree).nodes, ∀ d ∈ (Cursor.root (parse text).tree).nodes,
      0 < c.focus.width → c.kind = d.kind → c.span = d.span → c = d) ∧
    ∀ c ∈ (Cursor.root (parse text).tree).nodes, 0 < c.focus.width →
      (Pointer.of c).resolve (.root (parse text).tree) = .ok (some c) := by
  have below : ∀ c ∈ (Cursor.root (parse text).tree).nodes,
      Cursor.Below (.root (parse text).tree) c ∧ c.isNode = true := fun c hc =>
    ⟨Cursor.below_of_mem_nodes hc, (List.mem_filter.mp hc).2⟩
  constructor
  · intro c hc d hd hpos hkind hspan
    exact Cursor.eq_of_pointer_eq (below c hc).1 (below d hd).1 (below c hc).2 (below d hd).2 hpos
      (outstanding_parse (below c hc).1) (outstanding_parse (below d hd).1)
      (congrArg₂ Pointer.mk hkind hspan)
  · intro c hc hpos
    exact resolve_parse (below c hc).1 (below c hc).2 hpos

end CSharpKit.Syntax
