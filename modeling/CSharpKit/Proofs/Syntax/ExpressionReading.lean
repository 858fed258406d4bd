import CSharpKit.Proofs.Syntax.TypeReading
import CSharpKit.Syntax.Grammar.Expressions

/-!
# What the readers of expressions read

Every reader of the grammar hands only well-shaped trees to the builder, if the
rules for the recursive constructs do. Most nodes take whatever their bodies
read; a parameter, an argument list and an invocation have a shape of their own.
-/

namespace CSharpKit.Syntax

open Tree CSharpKit.Syntax.Parser

/-- A parameter list outside lambdas: where a parameter has a name, it has a type. -/
def TypedList (list : Tree) : Prop :=
  list.kind = .parameterList → ∀ p ∈ list.children, p.kind = .parameter → NamedIsTyped p.children

/-- A well-shaped tree that may stand in a declaration. -/
def IsPart (t : Tree) : Prop := WellShaped t ∧ TypedList t

instance : OfTokens IsPart where
  of_token k s := ⟨by simp, by simp [TypedList, Tree.children]⟩

instance : OfTokens WellShaped where
  of_token := wellShaped_token

/-- Kinds of nodes that take any children. -/
def Kind.isPlain (k : Kind) : Bool :=
  !([.compilationUnit, .predefinedType, .identifierName, .genericName, .qualifiedName,
    .aliasQualifiedName, .arrayType, .nullableType, .parameter, .classDeclaration,
    .structDeclaration, .interfaceDeclaration, .enumDeclaration, .delegateDeclaration,
    .methodDeclaration, .constructorDeclaration, .invocationExpression,
    .parameterList].contains k)

theorem nodeShape_of_isPlain {k : Kind} {cs : Forest} (hk : k.isPlain = true) : NodeShape k cs := by
  unfold NodeShape
  split <;> trivial

theorem isPart_node {k : Kind} {cs : Forest} (hk : k ≠ .parameterList) (hshape : NodeShape k cs)
    (hcs : Each WellShaped cs) : IsPart (.node k cs) :=
  ⟨wellShaped_node.mpr ⟨hshape, hcs⟩, fun h => absurd h hk⟩

theorem Parser.Each.wellShaped {cs : Forest} (h : Each IsPart cs) : Each WellShaped cs :=
  fun c hc => (h c hc).1

theorem Tree.IsTypeSyntax.isPart {t : Tree} (h : IsTypeSyntax t) : IsPart t := by
  refine ⟨h.wellShaped, fun hk => ?_⟩
  cases t with
  | token k s => simp [Tree.children]
  | node k cs =>
      obtain rfl : k = .parameterList := hk
      simp [IsTypeSyntax, isTypePart, Kind.isType] at h

theorem isPart_plain {k : Kind} {cs : Forest} (hk : k.isPlain = true) (hcs : Each WellShaped cs) :
    IsPart (.node k cs) := by
  refine isPart_node ?_ (nodeShape_of_isPlain hk) hcs
  rintro rfl
  simp [Kind.isPlain] at hk

namespace Grammar

variable {rules : Rules} {C : List Token → Prop}

theorem reads_plain {k : Kind} {body : Parser Unit} (hk : k.isPlain = true)
    (hbody : Reads IsPart body) : Reads IsPart (node k body) :=
  Reads.node hbody fun _ hcs => isPart_plain hk (Each.wellShaped hcs)

theorem readsFrom_plain {k : Kind} {body : Parser Unit} (hk : k.isPlain = true)
    (hbody : Reads IsPart body) :
    ReadsFrom (fun _ => True) (Each IsPart) (Each IsPart) fun start => nodeFrom start k body :=
  ReadsFrom.nodeFrom hbody fun _ _ hfront hmore =>
    Each.singleton (isPart_plain hk (Each.wellShaped (hfront.append hmore)))

theorem reads_type_part : Reads IsPart type :=
  reads_type.imp fun _ hnew t ht => IsTypeSyntax.isPart (hnew t ht)

/-! ## Brackets -/

/-- Inside brackets of one sort at least one is open, so the count of open ones
never goes below zero. -/
theorem reads_bracketed {P : Tree → Prop} [OfTokens P] (opening closing : Kind) (fuel : Nat) :
    ∀ depth, 0 < depth → Reads P (bracketed opening closing fuel depth) := by
  induction fuel with
  | zero => exact fun _ _ => ReadsIf.pure _
  | succ fuel ih =>
      intro depth hdepth
      obtain ⟨n, rfl⟩ : ∃ n, depth = n + 1 := ⟨depth - 1, by omega⟩
      refine Reads.peek.bind fun k => Reads.ite (ReadsIf.pure _) ?_
      refine Reads.ite (Reads.bump.bind fun _ => ih _ (by omega)) ?_
      refine Reads.ite ?_ (Reads.bump.bind fun _ => ih _ hdepth)
      -- The count goes down to `n`, and reading goes on only while it is not zero.
      show Reads P (Parser.bump >>= fun _ => if (n == 0) = true then pure () else _)
      refine Reads.bump.bind fun _ => ReadsIf.ite (fun _ => ReadsIf.pure _) fun hn => ih n ?_
      simpa [Nat.pos_iff_ne_zero] using hn

theorem readsIf_skipBracketed {P : Tree → Prop} [OfTokens P] (opening closing : Kind)
    (hopening : opening ≠ .eof) : ReadsIf (fun ts => Lookahead.kind ts = opening) (Each P)
      (skipBracketed opening closing) := by
  intro s hs hkind
  refine Yields.get ?_
  cases hlength : s.rest.length with
  | zero => exact YieldsFrom.pure (Extends.refl s) Each.nil
  | succ n =>
      refine Yields.ask ?_
      rw [if_neg (by simpa [hkind] using hopening), if_pos (by simpa using hkind)]
      exact (Reads.bump.bind fun _ => reads_bracketed opening closing n 1 (by omega)) s hs trivial

theorem readsIf_attributeList {P : Tree → Prop} [OfTrivia P]
    (hP : ∀ cs, (∀ c ∈ cs, c.isToken = true) → P (.node .attributeList cs)) :
    ReadsIf (fun ts => (Lookahead.kind ts == .lBracket) = true) (Each P)
      (node .attributeList (skipBracketed .lBracket .rBracket)) := by
  have : OfTokens (fun t : Tree => t.isToken = true) := { of_token := fun _ _ => rfl }
  refine (ReadsIf.node (readsIf_skipBracketed .lBracket .rBracket (by decide)) (by simp) hP).weaken ?_
  exact fun _ h => by simpa using h

theorem reads_attributeLists {P : Tree → Prop} [OfTrivia P]
    (hP : ∀ cs, (∀ c ∈ cs, c.isToken = true) → P (.node .attributeList cs)) :
    Reads P attributeLists := Reads.whileAhead_of (readsIf_attributeList hP)

/-! ## Parameters -/

/-- A child of a parameter: parameters inside it stand behind a token. -/
def IsParameterPart (t : Tree) : Prop :=
  IsPart t ∧ (NoParameters t ∨ t.kind ≠ .parameter ∧ HasToken t.children)

instance : OfTokens IsParameterPart where
  of_token k s := ⟨OfTokens.of_token k s, .inl (all_token.mpr trivial)⟩

theorem isPart_parameter {cs : Forest} (hcs : Each IsParameterPart cs) :
    IsPart (.node .parameter cs) :=
  isPart_node (by decide) (fun c hc => (hcs c hc).2) fun c hc => (hcs c hc).1.1

/-- A node with tokens only may stand in a parameter. -/
theorem isParameterPart_of_tokens {k : Kind} {cs : Forest} (hk : k.isPlain = true)
    (hcs : ∀ c ∈ cs, c.isToken = true) : IsParameterPart (.node k cs) := by
  have htoken : ∀ {P : Tree → Prop} [OfTokens P], Each P cs := by
    intro P _ c hc
    cases c with
    | token k s => exact OfTokens.of_token k s
    | node k cs => exact absurd (hcs _ hc) (by simp [isToken, isNode])
  refine ⟨isPart_plain hk htoken, .inl (all_node.mpr ⟨?_, ?_⟩)⟩
  · rintro rfl
    simp [Kind.isPlain] at hk
  · have : OfTokens NoParameters := { of_token := fun _ _ => all_token.mpr trivial }
    exact htoken (P := NoParameters)

theorem reads_tokens_node {P : Tree → Prop} [OfTrivia P] {k : Kind} {body : Parser Unit}
    (hbody : ∀ {P : Tree → Prop} [OfTokens P], Reads P body)
    (hP : ∀ cs, (∀ c ∈ cs, c.isToken = true) → P (.node k cs)) : Reads P (node k body) := by
  have : OfTokens (fun t : Tree => t.isToken = true) := { of_token := fun _ _ => rfl }
  exact Reads.node hbody hP

section

variable (hr : ∀ c, Reads IsPart (rules c))
include hr

theorem reads_expression : Reads IsPart (expression rules) := hr _

theorem readsIf_equalsValueClause : ReadsIf (fun ts => Lookahead.kind ts = .eq)
    (Each IsParameterPart) (equalsValueClause rules) := by
  refine ReadsIf.node (ReadsIf.token_bind (Reads.require_token (by decide) _) fun _ => hr _) (by simp) ?_
  intro cs hcs
  exact ⟨isPart_plain rfl (Each.wellShaped hcs.1), .inr ⟨by simp [Tree.kind], hcs.2⟩⟩

theorem reads_equalsValueClause : Reads IsPart (equalsValueClause rules) :=
  reads_plain rfl ((Reads.require _ _).bind fun _ => hr _)

/-- The name of a parameter and its value. -/
theorem reads_parameterName (message : String) : Reads IsParameterPart
    (require .identifier message >>= fun _ => isAt .eq >>= fun atEq =>
      if atEq then equalsValueClause rules else pure ()) := by
  refine (Reads.require _ _).bind fun _ => ReadsIf.ask_bind fun a => ReadsIf.ite (fun ha => ?_) fun _ => ReadsIf.pure _
  exact (readsIf_equalsValueClause hr).weaken fun ts h => by simpa [ha] using h.2

theorem reads_parameter (implicitType : Bool) : Reads IsPart (parameter rules implicitType) := by
  refine Reads.node (P := IsParameterPart) ?_ fun cs hcs => isPart_parameter hcs
  refine (reads_attributeLists fun cs hcs => isParameterPart_of_tokens rfl hcs).bind fun _ => ?_
  refine (Reads.isAtAny _).bind fun _ => Reads.opt ?_ fun _ => ?_
  · exact reads_tokens_node (Reads.whileAhead Reads.bump) fun cs hcs =>
      isParameterPart_of_tokens rfl hcs
  · refine (Reads.isAt _).bind fun _ => (Reads.isAtNth _ _).bind fun _ =>
      (Reads.isAtNth _ _).bind fun _ => ?_
    refine Reads.ite (reads_parameterName hr _) (ReadsIf.bind ?_ fun _ => reads_parameterName hr _)
    refine reads_type.imp fun new hnew t ht => ⟨IsTypeSyntax.isPart (hnew t ht), .inl ?_⟩
    exact IsTypeSyntax.noParameters (hnew t ht)

omit hr in
/-- Trees that are neither names nor types do not matter for the name of a parameter. -/
theorem namedIsTyped_append {new more : Forest} (hnew : Each NoNameNoType new)
    (hmore : NamedIsTyped more) : NamedIsTyped (new ++ more) := by
  cases hmore with
  | unnamed hcs => exact .unnamed (Each.append (fun c hc => (hnew c hc).1) hcs)
  | named hcs hfront htype hgeneric hgap hname hrest =>
      refine .named ?_ (Each.append hnew hfront) htype hgeneric hgap hname hrest
      rw [hcs, List.append_assoc]

omit hr in
theorem ne_identifier_of_isTrivia {k : Kind} (h : k.isTrivia = true) : k ≠ .identifier := by
  rintro rfl
  cases h

instance : OfTrivia fun t : Tree => t.isToken = true → t.kind ≠ .identifier where
  of_trivia _ _ hk _ := ne_identifier_of_isTrivia hk

instance : OfTrivia NoNameNoType where
  of_trivia _ _ hk := ⟨fun _ => ne_identifier_of_isTrivia hk, by simp [isNode]⟩

/-- What follows the name of a parameter is a node. -/
theorem reads_parameterValue : Reads (fun t => t.isToken = true → t.kind ≠ .identifier)
    (isAt .eq >>= fun atEq => if atEq then equalsValueClause rules else pure ()) := by
  refine (Reads.isAt _).bind fun _ => Reads.ite ?_ (ReadsIf.pure _)
  exact Reads.node (P := IsPart) ((Reads.require _ _).bind fun _ => hr _) fun cs _ hnode =>
    absurd hnode (by simp [isToken, isNode])

/-- A name is read behind a type only. -/
theorem readsIf_typedName (message : String) : ReadsIf (fun _ => True) NamedIsTyped
    (type >>= fun _ => require .identifier message >>= fun _ => isAt .eq >>= fun atEq =>
      if atEq then equalsValueClause rules else pure ()) := by
  intro s hs _
  have hahead (ts : List Token) : Each (fun t => t.isToken = true → t.kind ≠ .identifier)
      (triviaAhead ts) := OfTrivia.ahead ts
  cases h : Lookahead.atType s.rest with
  | true =>
      refine (yields_type hs h).seq fun _ new s' hext hnew => ?_
      obtain ⟨_, rfl, k, cs, rfl, hk, htoken, -⟩ := hnew
      by_cases hkind : Lookahead.kind s'.rest = .identifier
      · refine (yields_require message hkind (by decide)).seq fun _ named s'' hext' hnamed => ?_
        obtain ⟨t, -, ht, rfl⟩ := hnamed
        refine (reads_parameterValue hr s'' (hext'.sound (hext.sound hs)) trivial).mono
          fun _ more _ hmore => ?_
        refine @NamedIsTyped.named _ (triviaAhead s.rest) (triviaAhead s'.rest) more (.node k cs)
          t.tree ?_ (OfTrivia.ahead s.rest) ⟨rfl, hk⟩ htoken ?_ ⟨rfl, ht⟩ hmore
        · simp only [List.append_assoc, List.cons_append, List.nil_append]
        · exact triviaAhead_all (fun _ _ htrivia => ⟨rfl, htrivia⟩) _
      · refine (yields_require_of_not message hkind).seq fun _ none s'' hext' hnone => ?_
        obtain ⟨rfl, -⟩ := hnone
        refine (reads_parameterValue hr s'' (hext'.sound (hext.sound hs)) trivial).mono
          fun _ more _ hmore => ?_
        refine .unnamed (Each.append (Each.append (hahead s.rest) (Each.singleton ?_)) hmore)
        exact fun hnode => absurd hnode (by simp [isToken, isNode])
  | false =>
      refine (yields_type_of_not h).seq fun _ new s' hext hnew => ?_
      obtain ⟨rfl, hrest⟩ := hnew
      have hnot : Lookahead.kind s'.rest ≠ .identifier := by
        intro hkind
        rw [hrest, kind_significant] at hkind
        simp [Lookahead.atType, hkind] at h
      refine (yields_require_of_not message hnot).seq fun _ none s'' hext' hnone => ?_
      obtain ⟨rfl, -⟩ := hnone
      refine (reads_parameterValue hr s'' (hext'.sound (hext.sound hs)) trivial).mono
        fun _ more _ hmore => ?_
      exact .unnamed (Each.append (hahead s.rest) hmore)

/-- Where the type of a parameter may not be left out, a name has one. -/
theorem reads_parameter_typed : Reads (fun t => t.kind = .parameter → NamedIsTyped t.children)
    (parameter rules false) := by
  have : OfTrivia fun t : Tree => t.kind = .parameter → NamedIsTyped t.children :=
    { of_trivia := fun k s _ _ => .unnamed (by simp [Tree.children]) }
  have hnode : ∀ k cs, k.isType = false → NoNameNoType (.node k cs) :=
    fun k cs hk => ⟨by simp [isToken, isNode], fun _ => hk⟩
  refine ReadsIf.node (G := NamedIsTyped) ?_ (fun _ _ => trivial) fun cs hcs _ => hcs
  refine ReadsIf.seq (reads_attributeLists fun cs _ => hnode _ cs rfl) (fun _ => ?_)
    fun _ _ => namedIsTyped_append
  refine ReadsIf.ask_bind fun _ => ReadsIf.weaken (Reads.opt_seq ?_ (fun _ => ?_)
    fun _ _ => namedIsTyped_append) fun _ _ => trivial
  · exact Reads.node (P := IsPart) (Reads.whileAhead Reads.bump) fun cs _ => hnode _ cs rfl
  · exact ReadsIf.ask_bind fun _ => ReadsIf.ask_bind fun _ => ReadsIf.ask_bind fun _ =>
      (readsIf_typedName hr _).weaken fun _ _ => trivial

/-! ## Arguments -/

omit hr in
theorem readsIf_leaf_identifierName :
    ReadsIf (fun ts => Lookahead.kind ts = .identifier) (Each IsTypeSyntax) (leaf .identifierName) :=
  ReadsIf.node (ReadsIf.bump fun ts s hts => isTypeSyntax_token (by rw [hts]; rfl) s) (by simp)
    fun cs hcs => isTypeSyntax_node rfl hcs

omit hr in
theorem readsIf_leaf_predefinedType :
    ReadsIf (fun ts => (Lookahead.kind ts).isPredefinedType = true) (Each IsTypeSyntax)
      (leaf .predefinedType) :=
  ReadsIf.node (ReadsIf.bump fun ts s hts => isTypeSyntax_token (by simp [isTypeToken, hts]) s)
    (by simp) fun cs hcs => isTypeSyntax_node rfl hcs

omit hr in
theorem readsIf_nameColon : ReadsIf (fun ts => Lookahead.kind ts = .identifier) (Each IsPart)
    (node .nameColon (leaf .identifierName >>= fun _ => bump)) := by
  refine ReadsIf.node (ReadsIf.bind ?_ fun _ => Reads.bump) (by simp) fun cs hcs =>
    isPart_plain rfl (Each.wellShaped hcs)
  exact readsIf_leaf_identifierName.imp fun _ hnew t ht => IsTypeSyntax.isPart (hnew t ht)

theorem reads_argument : Reads IsPart (argument rules) := by
  have hvalue : Reads IsPart (isAtAny [.refKw, .outKw, .inKw] >>= fun passed =>
      if passed then
        isAt .outKw >>= fun out => bump >>= fun _ => ask Lookahead.atOutDeclaration >>= fun declares =>
          if out && declares then type >>= fun _ => bump else expression rules
      else expression rules) := by
    refine (Reads.isAtAny _).bind fun _ => Reads.ite ?_ (hr _)
    refine (Reads.isAt _).bind fun _ => Reads.bump.bind fun _ => (Reads.ask _).bind fun _ => ?_
    exact Reads.ite (reads_type_part.bind fun _ => Reads.bump) (hr _)
  refine reads_plain rfl (ReadsIf.ask_bind fun a => ReadsIf.ask_bind fun b => ReadsIf.ite (fun h => ?_) fun _ => ?_)
  · refine ReadsIf.bind (readsIf_nameColon.weaken ?_) fun _ => hvalue
    rintro ts ⟨⟨-, rfl⟩, rfl⟩
    simp only [Bool.and_eq_true, beq_iff_eq] at h
    exact h.1
  · exact hvalue.weaken fun _ _ => trivial

theorem reads_argumentListBody (closing : Kind) (message : String) : Reads IsPart
    (separatedUntil [closing, .eof] (argument rules) >>= fun _ => require closing message) :=
  (Reads.separatedUntil _ (reads_argument hr)).bind fun _ => Reads.require _ _

theorem reads_argumentList : Reads IsPart (argumentList rules) :=
  reads_plain rfl ((Reads.require _ _).bind fun _ => reads_argumentListBody hr _ _)

/-- An argument list starts with its parenthesis. -/
theorem readsIf_argumentList : ReadsIf (fun ts => Lookahead.kind ts = .lParen)
    (fun new => Each IsPart new ∧ ∃ c ∈ new, c.kind = .argumentList ∧ HasToken c.children)
    (argumentList rules) := by
  have hbody : ReadsIf (fun ts => Lookahead.kind ts = .lParen)
      (fun new => Each IsPart new ∧ HasToken new) _ :=
    ReadsIf.token_bind (Reads.require_token (by decide) "expected `(`") fun _ =>
      reads_argumentListBody hr .rParen "expected `)`"
  intro s hs hc
  refine (ReadsIf.yields_node hbody (by simpa using hc)).mono ?_
  rintro - new rest ⟨cs, rfl, hcs, htoken⟩
  refine ⟨(OfTrivia.ahead _).append (Each.singleton ?_), .node .argumentList cs, by simp, rfl, htoken⟩
  exact isPart_plain rfl (Each.wellShaped hcs)

theorem reads_bracketedArgumentList : Reads IsPart (bracketedArgumentList rules) :=
  reads_plain rfl ((Reads.require _ _).bind fun _ => reads_argumentListBody hr _ _)

theorem reads_block : Reads IsPart (block rules) :=
  reads_plain rfl <| (Reads.require _ _).bind fun _ =>
    (Reads.untilAny _ (hr _)).bind fun _ => Reads.require _ _

/-! ## Operands -/

omit hr in
theorem reads_expressionName : Reads IsTypeSyntax expressionName :=
  (Reads.ask _).bind fun _ => reads_simpleName reads_type _

omit hr in
theorem reads_expressionName_part : Reads IsPart expressionName :=
  reads_expressionName.imp fun _ hnew t ht => IsTypeSyntax.isPart (hnew t ht)

omit hr in
theorem readsIf_aliasQualifiedExpression :
    ReadsIf (fun ts => Lookahead.kind ts = .identifier ∧ Lookahead.kindAt? 1 ts = some .colonColon)
      (Each IsPart) aliasQualifiedExpression := by
  have hbody : Reads IsTypeSyntax (isAt .identifier >>= fun atName =>
      if atName then expressionName else complain "expected name after `::`") :=
    (Reads.isAt _).bind fun _ => Reads.ite reads_expressionName (Reads.complain _)
  refine ReadsIf.node (readsIf_alias hbody) (by simp) fun cs hcs => ?_
  exact IsTypeSyntax.isPart (isTypeSyntax_node rfl hcs)

theorem reads_lambdaBody : Reads IsPart (lambdaBody rules) :=
  (Reads.require _ _).bind fun _ => (Reads.isAt _).bind fun _ => Reads.ite (reads_block hr) (hr _)

theorem reads_simpleLambda (isAsync : Bool) : Reads IsPart (simpleLambda rules isAsync) := by
  refine reads_plain rfl (Reads.opt Reads.bump fun _ => ReadsIf.bind ?_ fun _ => reads_lambdaBody hr)
  exact reads_tokens_node Reads.bump fun cs hcs => isPart_parameter fun c hc => by
    cases c with
    | token k s => exact OfTokens.of_token k s
    | node k cs => exact absurd (hcs _ hc) (by simp [isToken, isNode])

/-- The parameters of a lambda need no types, so their list is well-shaped but
may not stand in a declaration. -/
theorem reads_parenthesizedLambda (isAsync : Bool) :
    Reads IsPart (parenthesizedLambda rules isAsync) := by
  have hlist : Reads WellShaped (node .parameterList (bump >>= fun _ =>
      separatedUntil [.rParen, .eof] (parameter rules true) >>= fun _ =>
        require .rParen "expected `)`")) := by
    refine Reads.node (P := IsPart) ?_ fun cs hcs => wellShaped_node.mpr ⟨trivial, Each.wellShaped hcs⟩
    exact Reads.bump.bind fun _ => (Reads.separatedUntil _ (reads_parameter hr true)).bind fun _ =>
      Reads.require _ _
  have hbody : Reads WellShaped (lambdaBody rules) :=
    (reads_lambdaBody hr).imp fun _ => Each.wellShaped
  refine Reads.node (P := WellShaped) ?_ fun cs hcs => isPart_plain rfl hcs
  exact Reads.opt Reads.bump fun _ => hlist.bind fun _ => hbody

omit hr in
/-- A type behind `new` is one node. -/
theorem reads_createdType : Reads IsPart createdType := by
  have hend : ReadsFrom (fun _ => True) IsTypeNode IsTypeNode fun start =>
      isAt .question >>= fun nullable =>
        if nullable then nodeFrom start .nullableType bump else pure () := by
    refine ReadsFrom.ask_bind fun a => ReadsFrom.ite (fun ha => ?_) fun _ => ReadsFrom.pure _
    refine ReadsFrom.nodeFrom (ReadsIf.bump (P := IsTypeSyntax) fun ts s hts => ?_) ?_
    · have hkind : Lookahead.kind ts = .question := by simpa [ha] using hts.2
      exact isTypeSyntax_token (by rw [hkind]; rfl) s
    · exact fun front more hfront hmore => IsTypeNode.of_children rfl hfront.each hmore
  intro s hs _
  refine (yields_mark_bind (C := Ready) (G := IsTypeNode) ?_ hs (triviaAhead_significant _)).mono ?_
  · refine ReadsFrom.ask_bind fun k => ReadsFrom.ite (fun hk => ?_) fun _ => ?_
    · refine ReadsFrom.bind (ReadsFrom.of_ready (fun _ hts => hts.1) ?_) fun _ => hend
      rintro s - ⟨-, rfl⟩
      exact yields_leaf_predefinedType (.inl hk)
    · exact ReadsFrom.bind (ReadsFrom.of_ready (fun _ hts => hts.1) fun s hs _ =>
        yields_name reads_type true hs) fun _ => hend
  · rintro - new rest ⟨more, rfl, hmore⟩
    exact (OfTrivia.ahead _).append fun t ht => IsTypeSyntax.isPart (hmore.each t ht)

theorem reads_creationRank : Reads IsPart (creationRank rules) := by
  refine reads_plain rfl (Reads.bump.bind fun _ => ReadsIf.bind ?_ fun _ => Reads.require _ _)
  refine Reads.separatedUntil _ ((Reads.isAt _).bind fun _ => ?_)
  exact Reads.ite (ReadsIf.pure _) (hr _)

theorem reads_objectCreation : Reads IsPart (objectCreation rules) := by
  refine reads_plain rfl (Reads.bump.bind fun _ => (Reads.ask _).bind fun _ => ?_)
  refine Reads.opt reads_createdType fun _ => ?_
  refine (Reads.whileAhead (reads_creationRank hr)).bind fun _ => (Reads.isAt _).bind fun _ => ?_
  refine Reads.opt (reads_argumentList hr) fun _ => (Reads.isAt _).bind fun _ => ?_
  exact Reads.ite (hr _) (ReadsIf.pure _)

theorem reads_initializer : Reads IsPart (initializer rules) := by
  refine reads_plain rfl ((Reads.require _ _).bind fun _ => ReadsIf.bind ?_ fun _ => Reads.require _ _)
  exact Reads.separatedUntil _ ((Reads.isAt _).bind fun _ => Reads.ite (hr _) (hr _))

theorem reads_afterParen : Reads IsPart (afterParen rules) := by
  refine (Reads.ask _).bind fun _ => Reads.ite (reads_parenthesizedLambda hr _) ?_
  refine (Reads.ask _).bind fun _ => Reads.ite ?_ ?_
  · exact reads_plain rfl (Reads.bump.bind fun _ => reads_type_part.bind fun _ =>
      (Reads.require _ _).bind fun _ => hr _)
  · exact reads_plain rfl (Reads.bump.bind fun _ => (reads_expression hr).bind fun _ =>
      Reads.require _ _)

theorem readsIf_afterIdentifier : ReadsIf (fun ts => Lookahead.kind ts = .identifier) (Each IsPart)
    (afterIdentifier rules) := by
  refine ReadsIf.ask_bind fun _ => ReadsIf.ask_bind fun _ => ReadsIf.ask_bind fun _ => ?_
  refine ReadsIf.ite (fun _ => (reads_parenthesizedLambda hr _).weaken fun _ _ => trivial) fun _ => ?_
  refine ReadsIf.ask_bind fun _ => ReadsIf.ask_bind fun _ => ?_
  refine ReadsIf.ite (fun _ => (reads_simpleLambda hr _).weaken fun _ _ => trivial) fun _ => ?_
  refine ReadsIf.ask_bind fun _ => ?_
  refine ReadsIf.ite (fun _ => (reads_simpleLambda hr _).weaken fun _ _ => trivial) fun _ => ?_
  refine ReadsIf.ask_bind fun _ => ReadsIf.ite (fun h => ?_) fun _ => ?_
  · refine readsIf_aliasQualifiedExpression.weaken fun ts hts => ?_
    exact ⟨by tauto, by simpa [h] using hts.2⟩
  · exact reads_expressionName_part.weaken fun _ _ => trivial

omit hr in
theorem reads_leaf_plain {kind : Kind} (hk : kind.isPlain = true) : Reads IsPart (leaf kind) :=
  reads_plain hk Reads.bump

theorem reads_primary : Reads IsPart (primary rules) := by
  have htypeof : Reads IsPart (node .typeOfExpression (bump >>= fun _ =>
      require .lParen "expected `(`" >>= fun _ => type >>= fun _ =>
        require .rParen "expected `)`")) :=
    reads_plain rfl (Reads.bump.bind fun _ => (Reads.require _ _).bind fun _ =>
      reads_type_part.bind fun _ => Reads.require _ _)
  have hdefault : Reads IsPart (node .defaultExpression (bump >>= fun _ =>
      eat .lParen >>= fun opened => if opened then
        type >>= fun _ => require .rParen "expected `)`" else pure ())) :=
    reads_plain rfl (Reads.bump.bind fun _ => (Reads.eat _).bind fun _ =>
      Reads.ite (reads_type_part.bind fun _ => Reads.require _ _) (ReadsIf.pure _))
  refine ReadsIf.ask_bind fun k => ?_
  split
  case h_10 => exact htypeof.weaken fun _ _ => trivial
  case h_11 => exact hdefault.weaken fun _ _ => trivial
  case h_12 => exact (reads_objectCreation hr).weaken fun _ _ => trivial
  case h_13 => exact (reads_afterParen hr).weaken fun _ _ => trivial
  case h_14 => exact (readsIf_afterIdentifier hr).weaken fun _ h => h.2
  case h_15 =>
    refine ReadsIf.ite (fun hk => ?_) fun _ => (Reads.complain _).weaken fun _ _ => trivial
    refine (readsIf_leaf_predefinedType.imp fun _ hnew t ht => ?_).weaken ?_
    · exact IsTypeSyntax.isPart (hnew t ht)
    · rintro ts ⟨-, rfl⟩
      exact hk
  -- Literals, `this` and `base` are single tokens.
  all_goals exact (reads_leaf_plain rfl).weaken fun _ _ => trivial

/-- What follows an operand keeps all trees since its mark well-shaped. -/
theorem readsFrom_postfixPart :
    ReadsFrom (fun _ => True) (Each IsPart) (Each IsPart) (postfixPart rules) := by
  have hmember : ReadsFrom (fun _ => True) (Each IsPart) (Each IsPart) fun start =>
      nodeFrom start .memberAccessExpression (bump >>= fun _ => isAt .identifier >>= fun named =>
        if named then expressionName else complain "expected member name") :=
    readsFrom_plain rfl (Reads.bump.bind fun _ => (Reads.isAt _).bind fun _ =>
      Reads.ite reads_expressionName_part (Reads.complain _))
  have hcall : ReadsFrom (fun ts => Lookahead.kind ts = .lParen) (Each IsPart) (Each IsPart)
      fun start => nodeFrom start .invocationExpression (argumentList rules) := by
    refine ReadsFrom.nodeFrom (readsIf_argumentList hr) fun front more hfront hmore => ?_
    obtain ⟨hparts, c, hc, hkind, htoken⟩ := hmore
    refine Each.singleton (isPart_node (by decide) ?_ (Each.wellShaped (hfront.append hparts)))
    exact ⟨c, List.mem_append_right _ hc, hkind, htoken⟩
  have hindex : ReadsFrom (fun _ => True) (Each IsPart) (Each IsPart) fun start =>
      nodeFrom start .elementAccessExpression (bracketedArgumentList rules) :=
    readsFrom_plain rfl (reads_bracketedArgumentList hr)
  have hstep : ReadsFrom (fun _ => True) (Each IsPart) (Each IsPart) fun start =>
      nodeFrom start .postfixUnaryExpression bump := readsFrom_plain rfl Reads.bump
  intro s₀ s front hs hext hfront _
  refine Yields.ask ?_
  split
  case h_1 | h_2 => exact hmember.andContinue s₀ s front hs hext hfront trivial
  case h_3 hkind => exact hcall.andContinue s₀ s front hs hext hfront hkind
  case h_4 => exact hindex.andContinue s₀ s front hs hext hfront trivial
  case h_5 | h_6 => exact hstep.andContinue s₀ s front hs hext hfront trivial
  case h_7 =>
    refine Yields.ask (Yields.ask ?_)
    split
    · exact YieldsFrom.pure hext ⟨hfront, List.suffix_refl _⟩
    · exact hstep.andContinue s₀ s front hs hext hfront trivial
  case h_8 => exact YieldsFrom.pure hext ⟨hfront, List.suffix_refl _⟩

omit hr in
/-- A first reader, and a loop that goes on if it read something. -/
theorem reads_climb {P : Tree → Prop} [OfTrivia P] {first : Parser Unit} {step : Nat → Parser Bool}
    (hfirst : Reads P first) (hstep : ReadsFrom (fun _ => True) (Each P) (Each P) step) :
    Reads P (mark >>= fun start => first >>= fun _ => grownSince start >>= fun grown =>
      if grown then loop (step start) else pure ()) := by
  refine Reads.mark_bind (ReadsFrom.bind (G := Each P) ?_ fun _ => ?_)
  · refine ReadsFrom.of_reads_append hfirst fun front new hfront hnew => ?_
    rw [hfront]
    exact hnew
  · refine ReadsFrom.bind ReadsFrom.grownSince fun _ => ?_
    exact ReadsFrom.ite (fun _ => ReadsFrom.loop hstep) fun _ => ReadsFrom.pure _

theorem reads_operand : Reads IsPart (operand rules) :=
  reads_climb (reads_primary hr) (readsFrom_postfixPart hr)

theorem reads_unary : Reads IsPart (unary rules) := by
  have hprefixed : Reads IsPart (node .prefixUnaryExpression (bump >>= fun _ => rules .unary)) :=
    reads_plain rfl (Reads.bump.bind fun _ => hr _)
  refine Reads.peek.bind fun k => ?_
  split
  case h_10 => exact (Reads.ask _).bind fun _ => Reads.ite hprefixed (reads_operand hr)
  case h_11 => exact reads_operand hr
  all_goals exact hprefixed

/-! ## Operators -/

omit hr in
/-- Operators are of two kinds. -/
theorem node_of_binding? {ts : List Token} {binding : Lookahead.Binding}
    (h : Lookahead.binding? ts = some binding) :
    binding.node = .binaryExpression ∨ binding.node = .assignmentExpression := by
  have hkind : ∀ k, Lookahead.Binding.ofKind? k = some binding →
      binding.node = .binaryExpression ∨ binding.node = .assignmentExpression := by
    intro k hk
    unfold Lookahead.Binding.ofKind? at hk
    split at hk
    all_goals
      cases hk
      try first | exact .inl rfl | exact .inr rfl
  unfold Lookahead.binding? at h
  split at h
  · obtain rfl := Option.some.inj h
    exact .inr rfl
  · obtain rfl := Option.some.inj h
    exact .inl rfl
  · exact hkind _ h

omit hr in
theorem isPlain_of_binding? {ts : List Token} {binding : Lookahead.Binding}
    (h : Lookahead.binding? ts = some binding) : binding.node.isPlain = true := by
  rcases node_of_binding? h with hnode | hnode
  · rw [hnode]
    rfl
  · rw [hnode]
    rfl

omit hr in
/-- A shift operator is two tokens side by side, and both are there. -/
theorem exists_of_shiftTail? {ts : List Token} (h : (Lookahead.shiftTail? ts).isSome = true) :
    ∃ a b rest, Lookahead.significant ts = a :: b :: rest ∧ a.kind = .greater ∧
      (b.kind = .greater ∨ b.kind = .greaterEq) := by
  unfold Lookahead.shiftTail? at h
  split at h
  case h_1 a b rest hrest =>
    refine ⟨a, b, rest, hrest, ?_⟩
    split at h
    case isTrue hkinds => simpa using hkinds
    case isFalse => cases h
  case h_2 => cases h

omit hr in
theorem readsIf_shift {P : Tree → Prop} [OfTokens P] {more : Parser Unit} (hmore : Reads P more) :
    ReadsIf (fun ts => (Lookahead.shiftTail? ts).isSome = true)
      (fun new => Each P new ∧ HasToken new) (bump >>= fun _ => take >>= fun _ => more) := by
  intro s hs hc
  obtain ⟨a, b, rest, hrest, ha, hb⟩ := exists_of_shiftTail? hc
  have hb : b.kind ≠ .eof := by
    rcases hb with hb | hb
    · simp [hb]
    · simp [hb]
  have hne : Lookahead.kind s.rest ≠ .eof := by
    simp [Lookahead.kind, Lookahead.headKind?, hrest, ha]
  refine (yields_bump hne).seq fun _ new s₁ hext₁ hnew => ?_
  obtain ⟨t, ht, hkind, rfl⟩ := hnew
  obtain ⟨rfl, hrest₁⟩ : a = t ∧ b :: rest = s₁.rest := by simpa [hrest] using ht
  obtain ⟨hext₂, -⟩ := extends_take hrest₁.symm hb
  have hsound : Sound (take.run s₁).2 := hext₂.sound (hext₁.sound hs)
  obtain ⟨new, hext₃, hnew⟩ := hmore _ hsound trivial
  refine ⟨[b.tree] ++ new, hext₂.trans hext₃, ?_⟩
  have htoken : ∀ t : Token, P t.tree := fun t => OfTokens.of_token _ _
  refine ⟨?_, a.tree, by simp, rfl⟩
  exact ((OfTrivia.ahead _).append (Each.singleton (htoken a))).append
    ((Each.singleton (htoken b)).append hnew)

theorem readsFrom_conditionalPart (power : Nat) :
    ReadsFrom (fun _ => True) (Each IsPart) (Each IsPart) (conditionalPart rules power) := by
  refine ReadsFrom.ite (fun _ => ReadsFrom.pure _) fun _ => ReadsFrom.andContinue ?_
  exact readsFrom_plain rfl (Reads.bump.bind fun _ => (reads_expression hr).bind fun _ =>
    (Reads.require _ _).bind fun _ => hr _)

theorem readsFrom_isPart (power : Nat) :
    ReadsFrom (fun _ => True) (Each IsPart) (Each IsPart) (isPart rules power) := by
  refine ReadsFrom.ite (fun _ => ReadsFrom.pure _) fun _ => ReadsFrom.andContinue ?_
  refine readsFrom_plain rfl (Reads.bump.bind fun _ => (Reads.ask _).bind fun _ => ?_)
  exact Reads.ite (reads_type_part.bind fun _ => (Reads.eat _).bind fun _ => ReadsIf.pure _) (hr _)

omit hr in
theorem readsFrom_asPart (power : Nat) :
    ReadsFrom (fun _ => True) (Each IsPart) (Each IsPart) (asPart power) := by
  refine ReadsFrom.ite (fun _ => ReadsFrom.pure _) fun _ => ReadsFrom.andContinue ?_
  exact readsFrom_plain rfl (Reads.bump.bind fun _ => reads_type_part)

theorem readsFrom_binaryPart (power : Nat) :
    ReadsFrom (fun _ => True) (Each IsPart) (Each IsPart) (binaryPart rules power) := by
  have hoperator : ∀ binding : Lookahead.Binding, binding.node.isPlain = true → ∀ isShift : Bool,
      ReadsFrom (fun ts => (Lookahead.shiftTail? ts).isSome = isShift) (Each IsPart) (Each IsPart)
        fun start => nodeFrom start binding.node (bump >>= fun _ =>
          if isShift then take >>= fun _ => rules (.expression binding.right)
          else rules (.expression binding.right)) := by
    intro binding hplain isShift
    refine ReadsFrom.nodeFrom (G := Each IsPart) ?_ fun front more hfront hmore =>
      Each.singleton (isPart_plain hplain (Each.wellShaped (hfront.append hmore)))
    cases isShift with
    | true => exact (readsIf_shift (hr _)).imp fun _ => And.left
    | false => exact (Reads.bump.bind fun _ => hr _).weaken fun _ _ => trivial
  intro s₀ s front hs hext hfront _
  refine Yields.ask ?_
  split
  case h_1 => exact YieldsFrom.pure hext ⟨hfront, List.suffix_refl _⟩
  case h_2 binding hbinding =>
    split
    · exact YieldsFrom.pure hext ⟨hfront, List.suffix_refl _⟩
    · refine Yields.ask ?_
      exact (hoperator binding (isPlain_of_binding? hbinding) _).andContinue
        s₀ s front hs hext hfront rfl

theorem readsFrom_infixPart (power : Nat) :
    ReadsFrom (fun _ => True) (Each IsPart) (Each IsPart) (infixPart rules power) := by
  intro s₀ s front hs hext hfront hc
  refine Yields.ask ?_
  split
  · exact readsFrom_conditionalPart hr power s₀ s front hs hext hfront hc
  · exact readsFrom_isPart hr power s₀ s front hs hext hfront hc
  · exact readsFrom_asPart power s₀ s front hs hext hfront hc
  · exact readsFrom_binaryPart hr power s₀ s front hs hext hfront hc

theorem reads_expressionAbove (power : Nat) : Reads IsPart (expressionAbove rules power) :=
  reads_climb (hr _) (readsFrom_infixPart hr power)

end

end Grammar

end CSharpKit.Syntax
