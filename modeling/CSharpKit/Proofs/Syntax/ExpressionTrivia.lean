import CSharpKit.Proofs.Syntax.Trivia
import CSharpKit.Proofs.Syntax.Termination

/-!
# Trivia in types, expressions and statements

The readers follow the rules for trivia, if the rules of the grammar do for the
constructs inside. How deep types nest does not matter: what is deeper than the tokens
allow is never read, so a complaint may stand for it.
-/

namespace CSharpKit.Syntax

open Syntax.Tree CSharpKit.Syntax.Parser

namespace Grammar

variable {C : List Token → Prop} {n : Prop}

/-! ## Types -/

theorem neat_leaf {kind : Kind} (hkind : kind ≠ .error)
    (hC : ∀ ts, C ts → Lookahead.kind ts ≠ .eof) : NeatIf false True C (leaf kind) :=
  (NeatIf.node hkind (by simp [Steady]) (.bump fun _ => id)).weaken hC

/-- Behind the next token stands the one that was at place one. -/
theorem leaves_bump {k : Kind} : Leaves
    (fun ts => Lookahead.kind ts ≠ .eof ∧ Lookahead.kindAt? 1 ts = some k)
    (fun ts => Lookahead.kind ts = k) bump := by
  rintro s ⟨hne, hnext⟩
  refine ⟨shrinks_bump s, ?_⟩
  have hkind : Lookahead.headKind? (Lookahead.significant (Lookahead.significant s.rest).tail) =
      some k := by
    simpa [Lookahead.kindAt?, Lookahead.dropSignificant, Lookahead.next] using hnext
  show Lookahead.kind (bump.run s).2.rest = k
  rw [rest_bump, if_neg hne, Lookahead.kind, hkind, Option.getD_some]

theorem leaves_leaf {kind k : Kind} : Leaves
    (fun ts => Lookahead.kind ts ≠ .eof ∧ Lookahead.kindAt? 1 ts = some k)
    (fun ts => Lookahead.kind ts = k) (leaf kind) := by
  rintro s ⟨hne, hnext⟩
  have hahead : Lookahead.kind (flushTrivia.run s).2.rest ≠ .eof ∧
      Lookahead.kindAt? 1 (flushTrivia.run s).2.rest = some k := by
    rw [rest_flushTrivia]
    exact ⟨by simpa using hne, by simpa using hnext⟩
  obtain ⟨hsuffix, hkind⟩ :=
    leaves_bump (opening (flushTrivia.run s).2 kind (flushTrivia.run s).2.builder.mark) hahead
  have hrest : ((leaf kind).run s).2.rest =
      (bump.run (opening (flushTrivia.run s).2 kind (flushTrivia.run s).2.builder.mark)).2.rest :=
    rest_build _ _ _
  rw [hrest]
  exact ⟨hsuffix.trans (shrinks_flushTrivia s), hkind⟩

section

variable {inner : Parser Unit} (h : Neat false True inner)
include h

theorem neat_typeArgumentList : Neat false True (typeArgumentList inner) := by
  refine .node (by decide) (by simp [Steady]) ((NeatIf.require (by decide) _).bind fun _ =>
    (NeatIf.loop (n := False) ?_).bind fun _ => .require (by decide) _)
  refine .ask_bind fun _ => .ite (fun _ => .pure _) fun _ => ?_
  exact .eat_bind (by decide) (.pure _) (h.under.next fun _ => .eat (by decide))

theorem neat_simpleName (generic : Bool) : NeatIf false True C (simpleName inner generic) := by
  refine .ask_bind fun a => .ask_bind fun b => .ite (fun hgeneric => ?_) fun _ => ?_
  · refine (NeatIf.node (C := fun ts => Lookahead.kind ts ≠ .eof) (by decide) (by simp [Steady])
      ((NeatIf.bump fun _ => id).bind fun _ => neat_typeArgumentList h)).weaken ?_
    rintro ts ⟨⟨-, rfl⟩, rfl⟩
    simp only [Bool.and_eq_true, beq_iff_eq] at hgeneric
    simp [hgeneric.1.2]
  · exact .under (.node (by decide) (by simp [Steady]) (.require (by decide) _))

theorem neat_nameHead (generic : Bool) :
    NeatFrom false n True C fun start => nameHead inner start generic := by
  refine .ask_bind fun a => .ask_bind fun b => .ite (fun halias => ?_) fun _ => ?_
  · refine (NeatFrom.nodeFrom (C := fun ts => Lookahead.kind ts ≠ .eof ∧
      Lookahead.kindAt? 1 ts = some .colonColon) (by decide) ?_).weaken ?_
    · refine NeatIf.seq (m := True) (neat_leaf (by decide) fun _ => And.left) leaves_leaf fun _ => ?_
      exact (NeatIf.bump fun ts hts => by simp [hts]).bind fun _ => neat_simpleName h generic
    · rintro ts ⟨⟨-, rfl⟩, rfl⟩
      simp only [Bool.and_eq_true, beq_iff_eq] at halias
      exact ⟨by simp [halias.1], halias.2⟩
  · exact .of_neatIf (neat_simpleName h generic) .inr

omit h in
theorem ne_eof_of_atSegment {ts : List Token} (h : atSegment ts = true) : Lookahead.kind ts ≠ .eof := by
  rw [atSegment, Bool.and_eq_true, beq_iff_eq] at h
  simp [h.1]

theorem neat_name (generic : Bool) : NeatIf false True C (name inner generic) := by
  refine .under (.mark_bind (fun _ => id) ((neat_nameHead h generic).bind fun _ => .whileAhead ?_))
  exact .nodeFrom (by decide) ((NeatIf.bump fun _ => ne_eof_of_atSegment).bind fun _ =>
    neat_simpleName h generic)

omit h in
theorem neat_rankSpecifier : NeatIf false True (fun ts => Lookahead.kind ts = .lBracket) rankSpecifier :=
  .node (by decide) (by simp [Steady]) ((NeatIf.bump fun ts hts => by simp [hts]).bind fun _ =>
    (NeatIf.loop (.eat (by decide))).bind fun _ => .require (by decide) _)

omit h in
theorem neat_rankSpecifiers :
    NeatIf false True (fun ts => Lookahead.kind ts = .lBracket) rankSpecifiers :=
  (NeatIf.whileAhead_first (neat_rankSpecifier.weaken fun _ => eq_of_beq)).weaken fun _ hts => by
    simpa using hts

omit h in
theorem neat_typeSuffix : NeatFrom false True True C typeSuffix := by
  refine .ask_bind fun k => ?_
  split
  · exact (NeatFrom.nodeFrom (by decide) (.bump fun ts hts => by simp [hts.2])).andContinue
  · refine .ask_bind fun _ => .ask_bind fun _ => .ite (fun _ => ?_) fun _ => .pure _
    exact ((NeatFrom.nodeFrom (by decide) neat_rankSpecifiers).andContinue).weaken
      fun _ hts => hts.1.1.2
  · exact .pure _

theorem neat_typeWith : NeatIf false True C (typeWith inner) := by
  refine .under (.mark_bind (fun _ => id) (.ask_bind fun k => .ite (fun hk => ?_) fun hk =>
    .ite (fun hname => ?_) fun hname => ?_))
  · refine (NeatFrom.of_neatIf (neat_leaf (by decide) ?_) .inr).bind fun _ => .loop neat_typeSuffix
    rintro ts ⟨-, rfl⟩ heof
    simp [heof, Kind.isPredefinedType] at hk
  · exact (NeatFrom.of_neatIf (neat_name h true) .inr).bind fun _ => .loop neat_typeSuffix
  · exact .of_neatIf (.complain _) .inr

end

theorem neat_typeWithinOr (depth : Nat) :
    Neat false True (typeWithinOr (complain "expected type") depth) := by
  induction depth with
  | zero => exact .complain _
  | succ depth ih => exact neat_typeWith ih

theorem neat_type : NeatIf false True C type := by
  intro s hs hend _
  have hagree := agree_type_typeWithinOr (complain "expected type") (Nat.le_refl (pending s.rest + 1))
  refine Passes.congr (congrArg Prod.snd (hagree s trivial (Nat.lt_succ_self _)).1) ?_
  exact neat_typeWithinOr _ s hs hend trivial

/-! ## Brackets -/

theorem neat_bracketed (opening closing : Kind) (fuel : Nat) :
    ∀ depth, 0 < depth → Neat false False (bracketed opening closing fuel depth) := by
  induction fuel with
  | zero => exact fun _ _ => .pure _
  | succ fuel ih =>
      intro depth hdepth
      obtain ⟨left, rfl⟩ : ∃ left, depth = left + 1 := ⟨depth - 1, by omega⟩
      have hbump : ∀ {k : Kind} {more : Parser Unit}, ¬(k == .eof) = true → Neat false False more →
          NeatIf false False (fun ts => True ∧ Lookahead.kind ts = k) (bump >>= fun _ => more) := by
        intro k more hk hmore
        refine ((NeatIf.bump ?_).bind fun _ => hmore).neat
        rintro ts ⟨-, rfl⟩
        simpa using hk
      refine .ask_bind fun k => .ite (fun _ => .pure _) fun hk => .ite (fun _ => ?_) fun _ =>
        .ite (fun _ => ?_) fun _ => ?_
      · exact hbump hk (ih _ (by omega))
      · -- The count goes down to `left`, and reading goes on only while it is not zero.
        refine hbump hk (.ite (fun _ => .pure _) fun hleft => ih left ?_)
        simpa [Nat.pos_iff_ne_zero] using hleft
      · exact hbump hk (ih _ hdepth)

theorem neat_skipBracketed {opening closing : Kind} (hopening : opening ≠ .eof) :
    NeatIf false True (fun ts => Lookahead.kind ts = opening) (skipBracketed opening closing) := by
  intro s hs hend hc
  obtain ⟨count, hcount⟩ : ∃ count, s.rest.length = count + 1 := by
    obtain ⟨front, last, hrest, -⟩ := hend
    exact ⟨front.length, by simp [hrest]⟩
  have hunfold : ((skipBracketed opening closing).run s).2 =
      ((bump >>= fun _ => bracketed opening closing count 1).run s).2 := by
    rw [skipBracketed, run_get_bind, hcount]
    show ((ite ((Lookahead.kind s.rest == .eof) = true) _ (ite _ _ _) : Parser Unit).run s).2 = _
    rw [if_neg (by simpa [hc] using hopening), if_pos (by simpa using hc)]
  refine Passes.congr hunfold ?_
  exact ((NeatIf.bump fun ts (hts : Lookahead.kind ts = opening) => hts ▸ hopening).bind fun _ => neat_bracketed _ _ _ 1
    Nat.one_pos) s hs hend hc

theorem neat_attributeLists : NeatIf false False C attributeLists :=
  .whileAhead ((NeatIf.node (by decide) (by simp [Steady])
    (neat_skipBracketed (by decide))).weaken fun _ => eq_of_beq)

/-! ## Expressions -/

/-- The constructs that take a token if there is nothing to complain about. -/
def Construct.Fills : Construct → Prop
  | .namespaceBody _ => False
  | _ => True

section

variable {r : Rules} (hr : ∀ c : Construct, Neat false c.Fills (r c))
include hr

theorem neat_expression : NeatIf false True C (expression r) := .under (hr (.expression 0))

theorem neat_equalsValueClause : NeatIf false True C (equalsValueClause r) :=
  .under (.node (by decide) (fun _ => id) ((NeatIf.require (by decide) _).bind fun _ =>
    neat_expression hr))

theorem neat_block : NeatIf false True C (block r) :=
  .under (.node (by decide) (fun _ => id) ((NeatIf.require (by decide) _).bind fun _ =>
    (NeatIf.untilAny (hr .statement).under).bind fun _ => .require (by decide) _))

theorem neat_parameter (implicitType : Bool) : NeatIf false True C (parameter r implicitType) := by
  have hname : ∀ {C}, NeatIf false True C (require .identifier "expected parameter name" >>= fun _ =>
      isAt .eq >>= fun atEq => if atEq then equalsValueClause r else pure ()) := fun {C} =>
    (NeatIf.require (by decide) _).bind fun _ => NeatIf.ask_bind (n := False) fun _ =>
      .ite (fun _ => (neat_equalsValueClause hr).neat) fun _ => .pure _
  have hmodifiers : NeatIf false True (fun ts =>
      parameterModifiers.contains (Lookahead.kind ts) = true)
      (node .modifiers (whileAhead (fun ts => parameterModifiers.contains (Lookahead.kind ts)) bump)) := by
    refine .node (by decide) (by simp [Steady]) (.whileAhead_first (.bump fun ts hts heof => ?_))
    rw [heof] at hts
    exact absurd hts (by decide)
  refine .under (.node (by decide) (fun _ => id) (neat_attributeLists.next fun _ =>
    .ask_bind fun a => .opt (n := True) (fun ha => ?_) fun _ => ?_))
  · exact hmodifiers.weaken fun ts hts => hts.2.trans ha
  · refine .ask_bind fun _ => .ask_bind fun _ => .ask_bind fun _ => .ite (fun _ => hname) fun _ => ?_
    exact neat_type.bind fun _ => hname

omit hr in
/-- A name and the mark behind it, which tells that it is one. -/
theorem neat_nameColon : NeatIf true True
    (fun ts => Lookahead.kind ts ≠ .eof ∧ Lookahead.kindAt? 1 ts = some .colon)
    (node .nameColon (leaf .identifierName >>= fun _ => bump)) := by
  have hname : NeatIf true True (fun ts => Lookahead.kind ts ≠ .eof ∧
      Lookahead.kindAt? 1 ts = some .colon) (leaf .identifierName) :=
    (neat_leaf (by decide) fun _ => And.left).within
  exact .node (by decide) (by simp [Steady]) (hname.seq leaves_leaf fun _ =>
    .bump fun ts hts => by simp [hts])

/-- An argument may end with a token that is only looked for: inside the brackets of a
list there is one. -/
theorem neat_argument : NeatIf true True C (argument r) := by
  have hexpression : ∀ {C}, NeatIf true True C (expression r) := (neat_expression hr).within
  refine .under (.node (by decide) (fun _ => id) (.ask_bind fun a => .ask_bind fun b =>
    .opt (n := True) (fun hnamed => neat_nameColon.weaken ?_) fun _ => ?_))
  · rintro ts ⟨⟨-, rfl⟩, rfl⟩
    simp only [Bool.and_eq_true, beq_iff_eq] at hnamed
    exact ⟨by simp [hnamed.1], hnamed.2⟩
  · refine .ask_bind fun _ => .ite (fun _ => ?_) fun _ => hexpression
    refine .ask_bind fun _ => NeatIf.bump_inside.bind fun _ => NeatIf.ask_bind (n := True) fun _ => ?_
    exact .ite (fun _ => neat_type.within.bind fun _ => .bump_inside) fun _ => hexpression

/-- The arguments up to the bracket that closes them. -/
theorem neat_arguments {closing : Kind} (hclosing : closing ≠ .eof) (message : String) :
    Neat false True (separatedUntil [closing, .eof] (argument r) >>= fun _ =>
      require closing message) :=
  .closed_by (.separatedUntil (neat_argument hr)) hclosing message

theorem neat_argumentList : NeatIf false True C (argumentList r) :=
  .under (.node (by decide) (fun _ => id) ((NeatIf.require (by decide) _).bind fun _ =>
    neat_arguments hr (by decide) _))

theorem neat_bracketedArgumentList : NeatIf false True C (bracketedArgumentList r) :=
  .under (.node (by decide) (fun _ => id) ((NeatIf.require (by decide) _).bind fun _ =>
    neat_arguments hr (by decide) _))

omit hr in
theorem neat_expressionName : NeatIf false True C expressionName :=
  .ask_bind fun _ => neat_simpleName neat_type _

omit hr in
theorem neat_aliasQualifiedExpression : NeatIf false True
    (fun ts => Lookahead.kind ts ≠ .eof ∧ Lookahead.kindAt? 1 ts = some .colonColon)
    aliasQualifiedExpression := by
  have hname : NeatIf false True (fun ts => Lookahead.kind ts ≠ .eof ∧
      Lookahead.kindAt? 1 ts = some .colonColon) (leaf .identifierName) :=
    neat_leaf (by decide) fun _ => And.left
  refine .node (by decide) (by simp [Steady]) (hname.seq (m := True) leaves_leaf fun _ => ?_)
  exact (NeatIf.bump fun ts hts => by simp [hts]).bind fun _ => NeatIf.ask_bind (n := True) fun _ =>
    .ite (fun _ => neat_expressionName) fun _ => .complain _

theorem neat_lambdaBody : NeatIf false True C (lambdaBody r) :=
  (NeatIf.require (by decide) _).bind fun _ => NeatIf.ask_bind (n := True) fun _ =>
    .ite (fun _ => neat_block hr) fun _ => neat_expression hr

/-- What a lambda with one parameter without a type begins with. -/
def OpensSimpleLambda (isAsync : Bool) (ts : List Token) : Prop :=
  Lookahead.kind ts ≠ .eof ∧ (isAsync = true → Lookahead.kindAt? 1 ts = some .identifier)

theorem neat_simpleLambda (isAsync : Bool) :
    NeatIf false True (OpensSimpleLambda isAsync) (simpleLambda r isAsync) := by
  refine .node (by decide) (by simp [Steady, OpensSimpleLambda]) (.ite (fun hasync => ?_) fun _ => ?_)
  · have hbump : NeatIf false True (fun ts => Lookahead.kind ts ≠ .eof ∧
        Lookahead.kindAt? 1 ts = some .identifier) bump := .bump fun _ => And.left
    refine (hbump.seq (m := True) leaves_bump fun _ => ?_).weaken fun ts hts => ⟨hts.1, hts.2 hasync⟩
    exact (neat_leaf (by decide) fun ts hts => by simp [hts]).bind fun _ => neat_lambdaBody hr
  · exact (neat_leaf (by decide) fun _ => And.left).bind fun _ => neat_lambdaBody hr

/-- What a lambda with parameters in parentheses begins with. -/
def OpensParenthesizedLambda (isAsync : Bool) (ts : List Token) : Prop :=
  Lookahead.kind ts ≠ .eof ∧ (isAsync = true → Lookahead.kindAt? 1 ts = some .lParen)

theorem neat_parenthesizedLambda (isAsync : Bool) : NeatIf false True
    (OpensParenthesizedLambda isAsync) (parenthesizedLambda r isAsync) := by
  have hparameters : NeatIf false True (fun ts => Lookahead.kind ts ≠ .eof)
      (node .parameterList (bump >>= fun _ =>
        separatedUntil [.rParen, .eof] (parameter r true) >>= fun _ => require .rParen "expected `)`")) :=
    .node (by decide) (by simp [Steady]) ((NeatIf.bump fun _ => id).bind fun _ =>
      (NeatIf.separatedUntil (neat_parameter hr true)).bind fun _ => .require (by decide) _)
  refine .node (by decide) (by simp [Steady, OpensParenthesizedLambda]) (.ite (fun hasync => ?_)
    fun _ => ?_)
  · have hbump : NeatIf false True (fun ts => Lookahead.kind ts ≠ .eof ∧
        Lookahead.kindAt? 1 ts = some .lParen) bump := .bump fun _ => And.left
    refine (hbump.seq (m := True) leaves_bump fun _ => ?_).weaken fun ts hts => ⟨hts.1, hts.2 hasync⟩
    exact (hparameters.weaken fun ts hts => by simp [hts]).bind fun _ => neat_lambdaBody hr
  · exact (hparameters.weaken fun _ => And.left).bind fun _ => neat_lambdaBody hr

omit hr in
theorem neat_createdType : NeatIf false True C createdType := by
  have hend : ∀ {C}, NeatFrom false True True C fun start => isAt .question >>= fun nullable =>
      if nullable then nodeFrom start .nullableType bump else pure () := by
    intro C
    refine .ask_bind fun a => .ite (fun ha => ?_) fun _ => .pure _
    refine .nodeFrom (by decide) (.bump ?_)
    rintro ts ⟨-, rfl⟩
    simp [eq_of_beq ha]
  refine .under (.mark_bind (fun _ => id) (.ask_bind fun k => .ite (fun hk => ?_) fun _ => ?_))
  · refine (NeatFrom.of_neatIf (neat_leaf (by decide) ?_) .inr).bind fun _ => hend
    rintro ts ⟨-, rfl⟩ heof
    simp [heof, Kind.isPredefinedType] at hk
  · exact (NeatFrom.of_neatIf (neat_name neat_type true) .inr).bind fun _ => hend

theorem neat_creationRank :
    NeatIf false True (fun ts => Lookahead.kind ts = .lBracket) (creationRank r) := by
  refine .node (by decide) (by simp [Steady]) ((NeatIf.bump fun ts hts => by simp [hts]).bind fun _ =>
    (NeatIf.separatedUntil (n := False) ?_).bind fun _ => .require (by decide) _)
  exact .ask_bind fun _ => .ite (fun _ => .pure _) fun _ => (neat_expression hr).neat

theorem neat_objectCreation :
    NeatIf false True (fun ts => Lookahead.kind ts ≠ .eof) (objectCreation r) := by
  refine .node (by decide) (by simp [Steady]) ((NeatIf.bump fun _ => id).bind fun _ =>
    NeatIf.ask_bind (n := False) fun _ => .opt (fun _ => neat_createdType) fun _ => ?_)
  refine (NeatIf.whileAhead ((neat_creationRank hr).weaken fun _ => eq_of_beq)).next fun _ =>
    .ask_bind fun _ => .opt (fun _ => neat_argumentList hr) fun _ => .ask_bind fun _ => ?_
  exact .ite (fun _ => (hr .initializer).under.neat) fun _ => .pure _

theorem neat_initializer : NeatIf false True C (initializer r) := by
  refine .under (.node (by decide) (fun _ => id) ((NeatIf.require (by decide) _).bind fun _ =>
    (NeatIf.separatedUntil (n := True) ?_).bind fun _ => .require (by decide) _))
  exact .ask_bind fun _ => .ite (fun _ => (hr .initializer).under) fun _ => neat_expression hr

theorem neat_afterParen : NeatIf false True (fun ts => Lookahead.kind ts ≠ .eof) (afterParen r) := by
  have hnode : ∀ {kind : Kind} {body : Parser Unit}, kind ≠ .error → Neat false False body →
      NeatIf false True (fun ts => Lookahead.kind ts ≠ .eof) (node kind (bump >>= fun _ => body)) :=
    fun hkind hbody => .node hkind (by simp [Steady]) ((NeatIf.bump fun _ => id).bind fun _ => hbody)
  refine .ask_bind fun _ => .ite (fun _ => ?_) fun _ => .ask_bind fun _ => .ite (fun _ => ?_) fun _ => ?_
  · exact (neat_parenthesizedLambda hr _).weaken fun _ hts => ⟨hts.1, nofun⟩
  · refine (hnode (by decide) ?_).weaken fun _ hts => hts.1.1
    exact (neat_type.bind fun _ => (NeatIf.require (by decide) _).bind fun _ => hr .unary).neat
  · refine (hnode (by decide) ?_).weaken fun _ hts => hts.1.1
    exact ((neat_expression hr).bind fun _ => .require (by decide) _).neat

theorem neat_afterIdentifier :
    NeatIf false True (fun ts => Lookahead.kind ts = .identifier) (afterIdentifier r) := by
  have hne : ∀ ts, Lookahead.kind ts = .identifier → Lookahead.kind ts ≠ .eof := fun ts hts => by
    simp [hts]
  refine .ask_bind fun _ => .ask_bind fun b => .ask_bind fun _ => .ite (fun hparen => ?_) fun _ => ?_
  · refine (neat_parenthesizedLambda hr _).weaken fun ts hts => ⟨hne ts hts.1.1.1, fun _ => ?_⟩
    simp only [Bool.and_eq_true] at hparen
    exact eq_of_beq (hts.1.2.trans hparen.1.2)
  refine .ask_bind fun b => .ask_bind fun _ => .ite (fun hname => ?_) fun _ => ?_
  · refine (neat_simpleLambda hr _).weaken fun ts hts => ⟨hne ts hts.1.1.1.1.1, fun _ => ?_⟩
    simp only [Bool.and_eq_true] at hname
    exact eq_of_beq (hts.1.2.trans hname.1.2)
  refine .ask_bind fun _ => .ite (fun _ => ?_) fun _ => ?_
  · exact (neat_simpleLambda hr _).weaken fun ts hts => ⟨hne ts hts.1.1.1.1.1.1, nofun⟩
  refine .ask_bind fun _ => .ite (fun hcolons => ?_) fun _ => neat_expressionName
  exact neat_aliasQualifiedExpression.weaken fun ts hts =>
    ⟨hne ts hts.1.1.1.1.1.1.1, eq_of_beq (hts.2.trans hcolons)⟩

theorem neat_primary : NeatIf false True C (primary r) := by
  refine .ask_bind fun k => ?_
  split
  case h_10 =>
    refine (NeatIf.node (by decide) (by simp [Steady]) ((NeatIf.bump fun _ => id).bind (m := True)
      fun _ => ?_)).weaken (ne_eof_of_and_eq (by decide))
    exact (NeatIf.require (by decide) _).bind fun _ => neat_type.bind fun _ => .require (by decide) _
  case h_11 =>
    refine (NeatIf.node (by decide) (by simp [Steady]) ((NeatIf.bump fun _ => id).bind (m := False)
      fun _ => ?_)).weaken (ne_eof_of_and_eq (by decide))
    exact (NeatIf.eat (by decide)).next (m := False) fun _ =>
      .ite (fun _ => (neat_type.bind fun _ => .require (by decide) _).neat) fun _ => .pure _
  case h_12 => exact (neat_objectCreation hr).weaken (ne_eof_of_and_eq (by decide))
  case h_13 => exact (neat_afterParen hr).weaken (ne_eof_of_and_eq (by decide))
  case h_14 => exact (neat_afterIdentifier hr).weaken fun _ => And.right
  case h_15 =>
    refine .ite (fun hk => neat_leaf (by decide) (ne_eof_of_and_eq ?_)) fun hk => .complain _
    rintro rfl
    cases hk
  all_goals exact neat_leaf (by decide) (ne_eof_of_and_eq (by decide))

theorem neat_postfixPart : NeatFrom false True True C (postfixPart r) := by
  have hmember : NeatFrom false True True (fun ts => Lookahead.kind ts ≠ .eof) fun start =>
      nodeFrom start .memberAccessExpression (bump >>= fun _ => isAt .identifier >>= fun atName =>
        if atName then expressionName else complain "expected member name") :=
    .nodeFrom (by decide) ((NeatIf.bump fun _ => id).bind fun _ => NeatIf.ask_bind (n := True) fun _ =>
      .ite (fun _ => neat_expressionName) fun _ => .complain _)
  have hstep : NeatFrom false True True (fun ts => Lookahead.kind ts ≠ .eof) fun start =>
      nodeFrom start .postfixUnaryExpression bump := .nodeFrom (by decide) (.bump fun _ => id)
  refine .ask_bind fun k => ?_
  split
  case h_1 | h_2 => exact (hmember.weaken (ne_eof_of_and_eq (by decide))).andContinue
  case h_3 => exact (NeatFrom.nodeFrom (by decide) (neat_argumentList hr)).andContinue
  case h_4 => exact (NeatFrom.nodeFrom (by decide) (neat_bracketedArgumentList hr)).andContinue
  case h_5 | h_6 => exact (hstep.weaken (ne_eof_of_and_eq (by decide))).andContinue
  case h_7 =>
    refine .ask_bind fun _ => .ask_bind fun _ => .ite (fun _ => .pure _) fun _ => ?_
    exact (hstep.weaken fun _ hts => ne_eof_of_kind_eq (by decide) hts.1.1.2).andContinue
  case h_8 => exact .pure _

omit hr in
/-- A first reader that takes a token, and a loop behind it. -/
theorem neat_climb {first : Parser Unit} {step : Nat → Parser Bool} (hfirst : Neat false True first)
    (hstep : NeatFrom false True True (fun _ => True) step) :
    NeatIf false True C (mark >>= fun start => first >>= fun _ => grownSince start >>= fun grown =>
      if grown then loop (step start) else pure ()) :=
  .under (.mark_bind (fun _ => id) ((NeatFrom.of_neatIf hfirst .inr).bind fun _ =>
    NeatFrom.grownSince.bind fun _ => .ite (fun _ => .loop hstep) fun _ => .pure _))

theorem neat_operand : NeatIf false True C (operand r) :=
  neat_climb (neat_primary hr) (neat_postfixPart hr)

theorem neat_unary : NeatIf false True C (unary r) := by
  have hprefix : NeatIf false True (fun ts => Lookahead.kind ts ≠ .eof)
      (node .prefixUnaryExpression (bump >>= fun _ => r .unary)) :=
    .node (by decide) (by simp [Steady]) ((NeatIf.bump fun _ => id).bind fun _ => hr .unary)
  refine .ask_bind fun k => ?_
  split
  case h_10 =>
    refine .ask_bind fun _ => .ite (fun _ => hprefix.weaken ?_) fun _ => neat_operand hr
    rintro ts ⟨⟨-, hkind⟩, -⟩
    simp [hkind]
  case h_11 => exact neat_operand hr
  all_goals
    refine hprefix.weaken ?_
    rintro ts ⟨-, hkind⟩
    simp [hkind]

/-! ## Operators -/

theorem neat_conditionalPart (power : Nat) :
    NeatFrom false True True (fun ts => Lookahead.kind ts ≠ .eof) (conditionalPart r power) := by
  refine .ite (fun _ => .pure _) fun _ => (NeatFrom.nodeFrom (by decide) ?_).andContinue
  exact (NeatIf.bump fun _ => id).bind fun _ => (neat_expression hr).bind fun _ =>
    (NeatIf.require (by decide) _).bind fun _ => hr (.expression _)

theorem neat_isPart (power : Nat) :
    NeatFrom false True True (fun ts => Lookahead.kind ts ≠ .eof) (isPart r power) := by
  refine .ite (fun _ => .pure _) fun _ => (NeatFrom.nodeFrom (by decide) ?_).andContinue
  refine (NeatIf.bump fun _ => id).bind fun _ => NeatIf.ask_bind (n := True) fun _ =>
    .ite (fun _ => ?_) fun _ => .under (hr (.expression _))
  exact neat_type.bind fun _ => (NeatIf.eat (by decide)).bind fun _ => .pure _

omit hr in
theorem neat_asPart (power : Nat) :
    NeatFrom false True True (fun ts => Lookahead.kind ts ≠ .eof) (asPart power) := by
  refine .ite (fun _ => .pure _) fun _ => (NeatFrom.nodeFrom (by decide) ?_).andContinue
  exact (NeatIf.bump fun _ => id).bind fun _ => neat_type

omit hr in
theorem neat_take : NeatIf false True (fun ts => ∃ t rest, ts = t :: rest ∧ t.isTrivia = false ∧
    t.kind ≠ .eof) take := by
  rintro s - - ⟨t, rest, hrest, hplain, hne⟩
  obtain ⟨hext, -⟩ := extends_take hrest hne
  refine ⟨_, hext, ?_, Each.singleton (Tree.attached_token _ _), fun _ =>
    ⟨Each.singleton (Tree.flawless_token _ _), ?_, fun _ => List.cons_ne_nil _ _⟩⟩
  · simp [take_run, hrest]
  · intro l hl
    obtain rfl : t.leaf = l := by
      simpa [Tree.forestLeaves, Tree.leaves, Token.tree, Token.leaf] using hl
    exact hplain

omit hr in
theorem ne_eof_of_shiftTail? {ts : List Token} (h : (Lookahead.shiftTail? ts).isSome = true) :
    Lookahead.kind ts ≠ .eof := by
  obtain ⟨a, b, rest, hrest, ha, -⟩ := exists_of_shiftTail? h
  simp [Lookahead.kind, Lookahead.headKind?, hrest, ha]

omit hr in
/-- Behind the first token of a shift operator stands the second one. -/
theorem leaves_shift : Leaves (fun ts => (Lookahead.shiftTail? ts).isSome = true)
    (fun ts => ∃ t rest, ts = t :: rest ∧ t.isTrivia = false ∧ t.kind ≠ .eof) bump := by
  intro s hc
  obtain ⟨a, b, rest, hrest, -, hb⟩ := exists_of_shiftTail? hc
  refine ⟨shrinks_bump s, b, rest, ?_, ?_, ?_⟩
  · rw [rest_bump, if_neg (ne_eof_of_shiftTail? hc), hrest, List.tail_cons]
  · rcases hb with hb | hb <;> simp [Token.isTrivia, hb, Kind.isTrivia]
  · rcases hb with hb | hb <;> simp [hb]

omit hr in
/-- Both tokens of a shift operator are there, side by side. -/
theorem neat_shift {more : Parser Unit} (hmore : Neat false n more) :
    NeatIf false True (fun ts => (Lookahead.shiftTail? ts).isSome = true)
      (bump >>= fun _ => take >>= fun _ => more) :=
  (NeatIf.bump fun _ => ne_eof_of_shiftTail?).seq (m := True) leaves_shift fun _ =>
    neat_take.bind fun _ => hmore

theorem neat_binaryPart (power : Nat) : NeatFrom false True True C (binaryPart r power) := by
  refine .ask_bind fun found => ?_
  split
  case h_1 => exact .pure _
  case h_2 binding =>
    refine .ite (fun _ => .pure _) fun _ => .ask_bind fun isShift => ?_
    have hoperator : NeatIf false True (fun ts => Lookahead.binding? ts = some binding ∧
        (Lookahead.shiftTail? ts).isSome = isShift) (bump >>= fun _ =>
          if isShift then take >>= fun _ => r (.expression binding.right)
          else r (.expression binding.right)) := by
      cases isShift with
      | true =>
          exact (neat_shift (hr (.expression _))).weaken fun _ => And.right
      | false =>
          exact (NeatIf.bump fun ts hts => ne_eof_of_binding? hts.1).bind fun _ => hr (.expression _)
    intro s₀ s front hs hend hready hfront hc
    have hkind : binding.node ≠ .error := by
      rcases node_of_binding? hc.1.2 with hkind | hkind <;> simp [hkind]
    have hnode : NeatFrom false True True _ fun start => nodeFrom start binding.node _ :=
      .nodeFrom hkind hoperator
    exact hnode.andContinue s₀ s front hs hend hready hfront ⟨hc.1.2, hc.2⟩

theorem neat_infixPart (power : Nat) : NeatFrom false True True C (infixPart r power) := by
  refine .ask_bind fun k => ?_
  split
  case h_1 => exact (neat_conditionalPart hr power).weaken fun ts hts => by simp [hts.2]
  case h_2 => exact (neat_isPart hr power).weaken fun ts hts => by simp [hts.2]
  case h_3 => exact (neat_asPart power).weaken fun ts hts => by simp [hts.2]
  case h_4 => exact neat_binaryPart hr power

theorem neat_expressionAbove (power : Nat) : NeatIf false True C (expressionAbove r power) :=
  neat_climb (hr .unary) (neat_infixPart hr power)

/-! ## Statements -/

theorem neat_variableDeclarator : NeatIf false True C (variableDeclarator r) := by
  refine .under (.node (by decide) (fun _ => id) ((NeatIf.require (by decide) _).bind fun _ =>
    NeatIf.ask_bind (n := False) fun _ => .opt (fun _ => neat_bracketedArgumentList hr) fun _ =>
      .ask_bind fun _ => .ite (fun _ => (neat_equalsValueClause hr).neat) fun _ => .pure _))

theorem neat_variableDeclarators : NeatIf false True C (variableDeclarators r) :=
  .separated (neat_variableDeclarator hr)

theorem neat_variableDeclaration : NeatIf false True C (variableDeclaration r) :=
  .under (.node (by decide) (fun _ => id) (neat_type.bind fun _ => neat_variableDeclarators hr))

theorem neat_embeddedStatement : NeatIf false True C (embeddedStatement r) :=
  .ask_bind fun _ => .ite (fun _ => .complain _) fun _ => .under (hr .statement)

theorem neat_parenthesizedCondition : NeatIf false True C (parenthesizedCondition r) :=
  (NeatIf.require (by decide) _).bind fun _ => (neat_expression hr).bind fun _ =>
    .require (by decide) _

omit hr in
/-- A node that opens with the next token. -/
theorem neat_keyword {kind : Kind} {body : Parser Unit} (hkind : kind ≠ .error)
    (hbody : Neat false n body) (hC : ∀ ts, C ts → Lookahead.kind ts ≠ .eof) :
    NeatIf false True C (node kind (bump >>= fun _ => body)) :=
  (NeatIf.node hkind (by simp [Steady]) ((NeatIf.bump fun _ => id).bind fun _ => hbody)).weaken hC

theorem neat_jump {kind : Kind} (hkind : kind ≠ .error) (missing : String)
    (hC : ∀ ts, C ts → Lookahead.kind ts ≠ .eof) : NeatIf false True C (jump r kind missing) :=
  neat_keyword (n := True) hkind (.ask_bind fun _ => .ite (fun _ => .require (by decide) _) fun _ =>
    (neat_expression hr).bind fun _ => .require (by decide) _) hC

theorem neat_ifStatement (hC : ∀ ts, C ts → Lookahead.kind ts ≠ .eof) :
    NeatIf false True C (ifStatement r) := by
  refine neat_keyword (n := True) (by decide) ((neat_parenthesizedCondition hr).bind fun _ =>
    (neat_embeddedStatement hr).bind (m := False) fun _ => .ask_bind fun a => .ite (fun ha => ?_) fun _ => .pure _) hC
  refine (neat_keyword (by decide) (neat_embeddedStatement hr) ?_).neat
  rintro ts ⟨-, rfl⟩
  simp [eq_of_beq ha]

theorem neat_whileStatement (hC : ∀ ts, C ts → Lookahead.kind ts ≠ .eof) :
    NeatIf false True C (whileStatement r) :=
  neat_keyword (by decide) ((neat_parenthesizedCondition hr).bind fun _ =>
    neat_embeddedStatement hr) hC

theorem neat_expressionList (terminator : Kind) : Neat false True (expressionList r terminator) := by
  have hstep : Neat false True (expression r >>= fun _ => isAt terminator >>= fun done =>
      if done then pure false else eat .comma) :=
    (neat_expression hr).bind fun _ => NeatIf.ask_bind (n := False) fun _ =>
      .ite (fun _ => .pure _) fun _ => .eat (by decide)
  exact .loop_first hstep hstep

theorem neat_forStatement (hC : ∀ ts, C ts → Lookahead.kind ts ≠ .eof) :
    NeatIf false True C (forStatement r) := by
  have hend : ∀ {C}, NeatIf false True C (require .rParen "expected `)`" >>= fun _ =>
      embeddedStatement r) :=
    (NeatIf.require (by decide) _).bind fun _ => neat_embeddedStatement hr
  have hsteps : ∀ {C}, NeatIf false True C (require .semicolon "expected `;`" >>= fun _ =>
      isAt .rParen >>= fun closed =>
        if closed then require .rParen "expected `)`" >>= fun _ => embeddedStatement r
        else expressionList r .rParen >>= fun _ => require .rParen "expected `)`" >>= fun _ =>
          embeddedStatement r) :=
    (NeatIf.require (by decide) _).bind fun _ => NeatIf.ask_bind (n := True) fun _ =>
      .ite (fun _ => hend) fun _ => (neat_expressionList hr _).under.bind fun _ => hend
  have hcondition : ∀ {C}, NeatIf false True C (require .semicolon "expected `;`" >>= fun _ =>
      isAt .semicolon >>= fun empty => if empty then _ else expression r >>= fun _ => _) :=
    (NeatIf.require (by decide) _).bind fun _ => NeatIf.ask_bind (n := True) fun _ =>
      .ite (fun _ => hsteps) fun _ => (neat_expression hr).bind fun _ => hsteps
  refine neat_keyword (n := True) (by decide) ((NeatIf.require (by decide) _).bind fun _ =>
    NeatIf.ask_bind (n := True) fun _ => .ite (fun _ => hcondition) fun _ => .ask_bind fun _ => ?_) hC
  exact .ite (fun _ => (neat_variableDeclaration hr).bind fun _ => hcondition) fun _ =>
    (neat_expressionList hr _).under.bind fun _ => hcondition

theorem neat_forEachStatement (hC : ∀ ts, C ts → Lookahead.kind ts ≠ .eof) :
    NeatIf false True C (forEachStatement r) :=
  neat_keyword (by decide) ((NeatIf.require (by decide) _).bind fun _ => neat_type.bind fun _ =>
    (NeatIf.require (by decide) _).bind fun _ => (NeatIf.require (by decide) _).bind fun _ =>
      (neat_expression hr).bind fun _ => (NeatIf.require (by decide) _).bind fun _ =>
        neat_embeddedStatement hr) hC

theorem neat_constantDeclaration (hC : ∀ ts, C ts → Lookahead.kind ts ≠ .eof) :
    NeatIf false True C (constantDeclaration r) := by
  have hleaf : NeatIf false True (fun ts => Lookahead.kind ts ≠ .eof) (leaf .modifiers) :=
    neat_leaf (by decide) fun _ => id
  exact (NeatIf.node (by decide) (by simp [Steady]) (hleaf.bind fun _ =>
    (neat_variableDeclaration hr).bind fun _ => .require (by decide) _)).weaken hC

theorem neat_plainStatement : NeatIf false True C (plainStatement r) := by
  refine .ask_bind fun _ => .ite (fun _ => ?_) fun _ => .ask_bind fun _ => .ite (fun _ => ?_) fun _ => ?_
  · exact .under (.node (by decide) (fun _ => id) ((neat_variableDeclaration hr).bind fun _ =>
      .require (by decide) _))
  · exact .under (.node (by decide) (fun _ => id) ((neat_expression hr).bind fun _ =>
      .require (by decide) _))
  · have hskip : NeatIf false False (fun _ => True) skip := NeatIf.skip
    exact .node_error hskip

theorem neat_statement : NeatIf false True C (statement r) := by
  have hjump : ∀ {C}, NeatIf false True C (require .semicolon "expected `;`") :=
    .require (by decide) _
  refine .ask_bind fun k => ?_
  split
  case h_1 => exact neat_block hr
  case h_2 => exact neat_leaf (by decide) (ne_eof_of_and_eq (by decide))
  case h_3 | h_4 => exact neat_jump hr (by decide) _ (ne_eof_of_and_eq (by decide))
  case h_5 | h_6 => exact neat_keyword (by decide) hjump (ne_eof_of_and_eq (by decide))
  case h_7 => exact neat_ifStatement hr (ne_eof_of_and_eq (by decide))
  case h_8 => exact neat_whileStatement hr (ne_eof_of_and_eq (by decide))
  case h_9 => exact neat_forStatement hr (ne_eof_of_and_eq (by decide))
  case h_10 => exact neat_forEachStatement hr (ne_eof_of_and_eq (by decide))
  case h_11 => exact neat_constantDeclaration hr (ne_eof_of_and_eq (by decide))
  case h_12 => exact neat_plainStatement hr

end

end Grammar

end CSharpKit.Syntax
