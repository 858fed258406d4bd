import CSharpKit.Proofs.Syntax.ExpressionTrivia
import CSharpKit.Proofs.Syntax.Replays

/-!
# Grammar that reads again

The readers of types, expressions and statements make of the same tokens before a semicolon
what they make of them before the end of a text. A statement counts on a token behind it: those
of a lambda stand in braces. So does a reader of something between brackets.
-/

namespace CSharpKit.Syntax

open CSharpKit.Syntax.Parser
open Lookahead (Alike Closes)

namespace Grammar

variable {a b : List Token} {C : List Token → Prop} {inside : Bool}

/-- Rules of the grammar by which the same tokens are read again. -/
structure Rereads (a b : List Token) (r : Rules) : Prop where
  expression : ∀ power, Replays a b false (fun _ => True) fun _ => r (.expression power)
  unary : Replays a b false (fun _ => True) fun _ => r .unary
  initializer : Replays a b false (fun _ => True) fun _ => r .initializer
  statement : Replays a b true (fun _ => True) fun _ => r .statement
  shrinks : ∀ c, Shrinks (r c)
  takes : ∀ c, Takes c.Opens (r c)

section

variable (hc : Closes a b)
include hc

theorem replays_leaf {kind : Kind} (hne : inside = true ∨ ∀ ts, C ts → Lookahead.kind ts ≠ .eof) :
    Replays a b inside C fun _ => leaf kind := by
  rcases hne with rfl | hne
  · exact (Replays.node hc (fun _ => id) (.bump hc (.inl rfl))).under
  · exact (Replays.node hc (by simp [Steady]) (.bump hc (.inr fun _ => id))).weaken hne

/-! ## Types -/

section

variable {inner : Parser Unit} (hinner : Replays a b false (fun _ => True) fun _ => inner)
include hinner

theorem replays_typeArgumentList :
    Replays a b false C fun _ => typeArgumentList inner := by
  have hslot : Replays a b true (fun _ => True) fun _ => slot inner :=
    .isAtAny_bind hc (.inl rfl) fun _ => .ite (fun _ => .pure _) fun _ =>
      (Replays.eat hc (by decide) (.inl rfl)).bind fun _ => .ite (fun _ => .pure _) fun _ =>
        hinner.within.bind fun _ => .eat hc (by decide) (.inl rfl)
  have hprogress : Progresses (slot inner) := Steps.progresses fun n => .ask_bind fun _ =>
    .ite (fun _ => .stop) fun _ => .eat_bind (by decide) (.pure _)
      (steps_separated (.of_shrinks (hinner.onward 0).shrinks))
  exact (Replays.node hc (fun _ => id) ((Replays.require hc (by decide) (.inr (by decide)) _).bind
    fun _ => .closed_by hc (hslot.loop fun _ => hprogress) (by decide) _)).under

theorem replays_simpleName (generic : Bool) :
    Replays a b false C fun _ => simpleName inner generic := by
  refine .isAt_bind hc (.inr fun _ => rfl) fun _ => .isAtNth_bind hc (by decide) (.inr ?_) fun _ =>
    .ite (fun hgeneric => ?_) fun _ => ?_
  · rintro ts ⟨-, rfl⟩ heof start x y
    simp [heof]
  · refine (Replays.node hc (C := fun ts => Lookahead.kind ts ≠ .eof) (by simp [Steady])
      ((Replays.bump hc (.inr fun _ => id)).bind fun _ => replays_typeArgumentList hc hinner)).weaken ?_
    rintro ts ⟨⟨-, rfl⟩, rfl⟩
    simp only [Bool.and_eq_true, beq_iff_eq] at hgeneric
    simp [hgeneric.1.2]
  · exact (Replays.node hc (fun _ => id) (.require hc (by decide) (.inr (by decide)) _)).under

theorem replays_nameHead (generic : Bool) :
    Replays a b false C fun start => nameHead inner start generic := by
  refine .isAt_bind hc (.inr fun _ => rfl) fun _ => .isAtNth_bind hc (by decide) (.inr ?_) fun _ =>
    .ite (fun halias => ?_) fun _ => replays_simpleName hc hinner generic
  · rintro ts ⟨-, rfl⟩ heof start x y
    simp [heof]
  · refine (Replays.nodeFrom ((replays_leaf hc (.inr fun _ => And.left)).seq
      (fun _ => leaves_leaf (k := .colonColon)) fun _ =>
        (Replays.bump_the hc (fun _ => id) (by decide)).bind fun _ =>
          replays_simpleName hc hinner generic)).weaken ?_
    rintro ts ⟨⟨-, rfl⟩, rfl⟩
    simp only [Bool.and_eq_true, beq_iff_eq] at halias
    simp [halias.1, halias.2]

omit hinner in
theorem atSegment_eq {ts us : List Token} (h : Alike a b ts us) : atSegment ts = atSegment us := by
  by_cases heof : Lookahead.kind ts = .eof
  · have hts : (Lookahead.kind ts == .dot) = false := by rw [heof]; rfl
    have hus : (Lookahead.kind us == .dot) = false :=
      (hc.congr_kind (g := (· == .dot)) rfl h).symm.trans hts
    rw [atSegment, atSegment, hts, hus]
    rfl
  · rw [atSegment, atSegment, hc.kind_eq h heof,
      hc.congr_kindAt?_one (g := (· == some .identifier)) rfl h heof]

theorem replays_name (generic : Bool) : Replays a b false C fun _ => name inner generic := by
  have hne : ∀ ts, atSegment ts = true → Lookahead.kind ts ≠ .eof := by
    intro ts hts heof
    simp [atSegment, heof] at hts
  refine .mark_bind hc ((replays_nameHead hc hinner generic).bind fun _ => .whileAhead
    (fun _ _ => atSegment_eq hc) (.nodeFrom ((Replays.bump hc (.inr hne)).bind fun _ =>
      replays_simpleName hc hinner generic)) fun _ => ?_)
  exact .nodeFrom ((takes_bump.weaken hne).bind fun _ =>
    ((replays_simpleName (C := fun _ => True) hc hinner generic).onward 0).shrinks)

omit hinner in
theorem replays_rankSpecifiers : Replays a b false C fun _ => rankSpecifiers := by
  have hrank : Replays a b false (fun ts => Lookahead.kind ts = .lBracket) fun _ => rankSpecifier := by
    refine .node hc (by simp [Steady]) ((Replays.bump_the hc (fun _ => id) (by decide)).bind
      fun _ => (Replays.loop (.eat hc (by decide) (.inr (by decide))) fun _ => ?_).bind fun _ =>
        .require hc (by decide) (.inr (by decide)) _)
    exact Steps.progresses fun n => .eat (by decide)
  refine .whileAhead (fun _ _ => hc.congr_kind (g := (· == .lBracket)) rfl)
    (hrank.weaken fun _ => eq_of_beq) fun _ => ?_
  exact (Enters.takes fun n => enters_rankSpecifier).weaken fun _ hts => ⟨eq_of_beq hts, trivial⟩

omit hinner in
theorem replays_typeSuffix : Replays a b false C typeSuffix := by
  refine .peek_bind hc (.inr fun _ => rfl) fun k => ?_
  split
  · exact (Replays.nodeFrom (.bump_the hc (fun _ => And.right) (by decide))).bind fun _ => .pure _
  · have hne : ∀ ts, Lookahead.kind ts = .lBracket → Lookahead.kind ts ≠ .eof := by
      rintro ts hts heof
      cases heof.symm.trans hts
    refine .isAtNth_bind hc (by decide) (.inr fun ts hts heof => absurd heof (hne ts hts.2)) fun _ =>
      .isAtNth_bind hc (by decide) (.inr fun ts hts heof => absurd heof (hne ts hts.1.2)) fun _ =>
        .ite (fun _ => ?_) fun _ => .pure _
    exact (Replays.nodeFrom (replays_rankSpecifiers hc)).bind fun _ => .pure _
  · exact .pure _

theorem replays_typeWith : Replays a b false C fun _ => typeWith inner := by
  have hsuffixes : Replays a b false (fun _ => True) fun start => loop (typeSuffix start) :=
    (replays_typeSuffix hc).loop fun start => Steps.progresses fun n => steps_typeSuffix start
  refine .mark_bind hc (.peek_bind hc (.inr fun _ => rfl) fun k => .ite (fun hk => ?_) fun _ =>
    .ite (fun _ => ?_) fun _ => .complain _)
  · refine (replays_leaf hc (.inr ?_)).bind fun _ => hsuffixes
    rintro ts ⟨-, rfl⟩ heof
    rw [heof] at hk
    cases hk
  · exact (replays_name hc hinner true).bind fun _ => hsuffixes

end

theorem replays_typeWithinOr (depth : Nat) :
    Replays a b false C fun _ => typeWithinOr (complain "expected type") depth := by
  induction depth generalizing C with
  | zero => exact .complain _
  | succ depth ih => exact replays_typeWith hc ih

theorem replays_type : Replays a b inside C fun _ => type := by
  have hrun : ∀ (s : ParserState) n, pending s.rest < n →
      type.run s = (typeWithinOr (complain "expected type") n).run s :=
    fun s n hn => (agree_type_typeWithinOr _ (Nat.le_refl n) s trivial hn).1
  have honward : Onward type := by
    refine ⟨AgreeIf.shrinks fun n => agree_type, fun s => ?_⟩
    rw [hrun s _ (Nat.lt_succ_self _)]
    exact ((replays_typeWithinOr (C := fun _ => True) hc _).onward 0).grows s
  refine Replays.within (.of_here honward fun s s' hstart hC hcalm => ?_)
  have hcount : pending s.rest < pending s.rest + pending s'.rest + 1 ∧
      pending s'.rest < pending s.rest + pending s'.rest + 1 := by omega
  rw [hrun s _ hcount.1] at hcalm ⊢
  rw [hrun s' _ hcount.2]
  exact (replays_typeWithinOr hc _).again hstart hC hcalm

/-! ## Expressions -/

omit hc in
theorem onward_bracketed {opening closing : Kind} (fuel depth : Nat) :
    Onward (bracketed opening closing fuel depth) := by
  induction fuel generalizing depth with
  | zero => exact .pure _
  | succ fuel ih =>
      have hcount : Onward (countDown depth) := by
        cases depth <;> exact ⟨fun s => List.suffix_refl s.rest, .of_eq fun _ => rfl⟩
      refine (Onward.ask _).bind fun _ => .ite (.pure _) (.ite (Onward.bump.bind fun _ => ih _) (.ite ?_
        (Onward.bump.bind fun _ => ih _)))
      exact hcount.bind fun _ => Onward.bump.bind fun _ => .ite (.pure _) (ih _)

/-- Brackets that are open are closed before the end of the text. -/
theorem replays_bracketed {opening closing : Kind} (fuel depth : Nat) :
    Replays a b true C fun _ => bracketed opening closing fuel (depth + 1) := by
  induction fuel generalizing depth C with
  | zero => exact .pure _
  | succ fuel ih =>
      have hbump : ∀ {C}, Replays a b true C fun _ => bump := .bump hc (.inl rfl)
      refine .peek_bind hc (.inl rfl) fun k => .ite (fun _ => .pure _) fun _ => .ite (fun _ => ?_)
        fun _ => .ite (fun _ => ?_) fun _ => hbump.bind fun _ => ih depth
      · exact hbump.bind fun _ => ih (depth + 1)
      · show Replays a b true _ fun _ => bump >>= fun _ =>
          if depth == 0 then pure () else bracketed opening closing fuel depth
        cases depth with
        | zero => exact hbump.bind fun _ => .pure _
        | succ depth => exact hbump.bind fun _ => ih depth

theorem replays_skipBracketed {opening closing : Kind} (hopening : opening ≠ .eof) :
    Replays a b true (fun ts => Lookahead.kind ts = opening) fun _ =>
      skipBracketed opening closing := by
  -- Both runs have the same fuel, since more fuel than tokens does not matter.
  have hrun : ∀ (s : ParserState) n, s.rest.length ≤ n → Lookahead.kind s.rest = opening →
      (skipBracketed opening closing).run s =
        (bump >>= fun _ => bracketed opening closing n 1).run s := by
    intro s n hn hkind
    have hpending := pending_le_length s.rest
    have hagree : Agree (pending s.rest + 1) (bracketed opening closing s.rest.length 0)
        (bracketed opening closing (n + 1) 0) := agree_bracketed hpending (by omega) 0
    refine (hagree s trivial (Nat.lt_succ_self _)).1.trans ?_
    show (ite ((Lookahead.kind s.rest == .eof) = true) _ (ite _ _ _) : Parser Unit).run s = _
    rw [if_neg (by simpa [hkind] using hopening), if_pos (by simpa using hkind)]
  have honward : Onward (skipBracketed opening closing) :=
    ⟨fun s => (onward_bracketed s.rest.length 0).shrinks s,
      fun s => (onward_bracketed s.rest.length 0).grows s⟩
  refine .of_here honward fun s s' hstart hkind hcalm => ?_
  have hkind' : Lookahead.kind s'.rest = opening := by
    rw [hc.kind_eq hstart.alike (hkind ▸ hopening), hkind]
  have hcount : s.rest.length ≤ s.rest.length + s'.rest.length ∧
      s'.rest.length ≤ s.rest.length + s'.rest.length := by omega
  rw [hrun s _ hcount.1 hkind] at hcalm ⊢
  rw [hrun s' _ hcount.2 hkind']
  exact ((Replays.bump (C := fun _ => True) hc (.inl rfl)).bind fun _ =>
    replays_bracketed hc _ 0).again hstart trivial hcalm

theorem replays_attributeLists : Replays a b true C fun _ => attributeLists := by
  have hlist : Replays a b true (fun ts => Lookahead.kind ts = .lBracket) fun _ =>
      node .attributeList (skipBracketed .lBracket .rBracket) :=
    .node hc (by simp [Steady]) (replays_skipBracketed hc (by decide))
  refine .whileAhead (fun _ _ => hc.congr_kind (g := (· == .lBracket)) rfl)
    (hlist.weaken fun _ => eq_of_beq) fun _ => ?_
  exact (Enters.takes fun n => enters_attributeList).weaken fun _ hts => ⟨eq_of_beq hts, trivial⟩

omit hc in
theorem agree_of_rereads {r : Rules} (hr : Rereads a b r) (n : Nat) (c : Construct) :
    Agree n (r c) (r c) := .of_shrinks (hr.shrinks c)

section

variable {r : Rules} (hr : Rereads a b r)
include hr

omit hc in
theorem replays_expression : Replays a b inside C fun _ => expression r :=
  (hr.expression 0).within.under

theorem replays_equalsValueClause : Replays a b inside C fun _ => equalsValueClause r :=
  .under (.node hc (fun _ => id) ((Replays.require hc (by decide) (.inr (by decide)) _).bind
    fun _ => replays_expression hr))

theorem replays_block : Replays a b inside C fun _ => block r := by
  have hstatements : Replays a b true (fun _ => True) fun _ =>
      untilAny [.rBrace, .eof] (r .statement) := by
    refine .untilAny hc hr.statement ((hr.takes .statement).weaken fun ts hts => ?_)
    rintro heof
    rw [heof] at hts
    cases hts
  exact Replays.within (.under (.node hc (fun _ => id) ((Replays.require hc (by decide)
    (.inr (by decide)) _).bind fun _ => hstatements.closed_by hc (by decide) _)))

/-- Parameters stand in parentheses. -/
theorem replays_parameter (implicitType : Bool) :
    Replays a b true C fun _ => parameter r implicitType := by
  have hname : ∀ {C}, Replays a b true C fun _ =>
      require .identifier "expected parameter name" >>= fun _ =>
        isAt .eq >>= fun atEq => if atEq then equalsValueClause r else pure () := fun {C} =>
    (Replays.require hc (by decide) (.inl rfl) _).bind fun _ => .isAt_bind hc (.inl rfl) fun _ =>
      .ite (fun _ => replays_equalsValueClause hc hr) fun _ => .pure _
  have hmodifiers : ∀ {C}, Replays a b true C fun _ => node .modifiers
      (whileAhead (fun ts => parameterModifiers.contains (Lookahead.kind ts)) bump) := by
    refine .under (.node hc (fun _ => id) (.whileAhead
      (fun _ _ => hc.congr_kind (g := (parameterModifiers.contains ·)) rfl) (.bump hc (.inl rfl))
      fun _ => takes_bump.weaken fun ts hts heof => ?_))
    rw [heof] at hts
    exact absurd hts (by decide)
  refine .under (.node hc (fun _ => id) ((replays_attributeLists hc).bind fun _ =>
    .isAtAny_bind hc (.inl rfl) fun _ => .opt (fun _ => hmodifiers) fun _ => ?_))
  refine .isAt_bind hc (.inl rfl) fun _ => .isAtNth_bind hc (by decide) (.inl rfl) fun _ =>
    .isAtNth_bind hc (by decide) (.inl rfl) fun _ => .ite (fun _ => hname) fun _ => ?_
  exact (replays_type hc).bind fun _ => hname

/-- Arguments stand in brackets. -/
theorem replays_argument : Replays a b true C fun _ => argument r := by
  have hbump : ∀ {C}, Replays a b true C fun _ => bump := .bump hc (.inl rfl)
  have hcolon : ∀ {C}, Replays a b true C fun _ =>
      node .nameColon (leaf .identifierName >>= fun _ => bump) :=
    .under (.node hc (fun _ => id) ((replays_leaf hc (.inl rfl)).bind fun _ => hbump))
  refine .under (.node hc (fun _ => id) (.isAt_bind hc (.inl rfl) fun _ =>
    .isAtNth_bind hc (by decide) (.inl rfl) fun _ => .opt (fun _ => hcolon) fun _ =>
      .isAtAny_bind hc (.inl rfl) fun _ => .ite (fun _ => ?_) fun _ => replays_expression hr))
  refine .isAt_bind hc (.inl rfl) fun _ => hbump.bind fun _ => .ask_bind
    (fun _ _ h _ _ _ => by rw [hc.atOutDeclaration_eq h]) fun _ => ?_
  exact .ite (fun _ => (replays_type hc).bind fun _ => hbump) fun _ => replays_expression hr

/-- The arguments up to the bracket that closes them. -/
theorem replays_arguments {closing : Kind} (hclosing : closing ≠ .eof ∧ closing ≠ .semicolon)
    (message : String) : Replays a b inside C fun _ =>
      separatedUntil [closing, .eof] (argument r) >>= fun _ => require closing message :=
  .within ((Replays.separatedUntil hc (replays_argument hc hr)).closed_by hc hclosing message)

theorem replays_argumentList : Replays a b inside C fun _ => argumentList r :=
  .under (.node hc (fun _ => id) ((Replays.require hc (by decide) (.inr (by decide)) _).bind
    fun _ => replays_arguments hc hr (by decide) _))

theorem replays_bracketedArgumentList : Replays a b inside C fun _ => bracketedArgumentList r :=
  .under (.node hc (fun _ => id) ((Replays.require hc (by decide) (.inr (by decide)) _).bind
    fun _ => replays_arguments hc hr (by decide) _))

omit hr in
theorem replays_expressionName :
    Replays a b inside (fun ts => Lookahead.kind ts = .identifier) fun _ => expressionName := by
  refine .ask_bind (fun ts us h hts _ _ => ?_) fun _ =>
    (replays_simpleName hc (replays_type hc) _).within
  rw [Lookahead.alike_atGenericName hc.bounded_left hc.bounded_right h hts]
  rw [hc.headKind?_left, hc.semicolon]
  rfl

omit hr in
theorem replays_aliasQualifiedExpression : Replays a b inside
    (fun ts => Lookahead.kind ts ≠ .eof ∧ Lookahead.kindAt? 1 ts = some .colonColon)
    fun _ => aliasQualifiedExpression := by
  refine .node hc (by simp [Steady]) ((replays_leaf hc (.inr fun _ => And.left)).seq
    (fun _ => leaves_leaf) fun _ => (Replays.bump_the hc (fun _ => id) (by decide)).bind fun _ => ?_)
  refine .isAt_bind hc (.inr fun _ => rfl) fun _ => .ite (fun hname => ?_) fun _ => .complain _
  exact (replays_expressionName hc).weaken fun ts hts => eq_of_beq (hts.2.trans hname)

theorem replays_lambdaBody : Replays a b inside C fun _ => lambdaBody r :=
  (Replays.require hc (by decide) (.inr (by decide)) _).bind fun _ =>
    .isAt_bind hc (.inr fun _ => rfl) fun _ =>
      .ite (fun _ => replays_block hc hr) fun _ => replays_expression hr

theorem replays_simpleLambda (isAsync : Bool) :
    Replays a b inside (OpensSimpleLambda isAsync) fun _ => simpleLambda r isAsync := by
  refine .node hc (by simp [Steady, OpensSimpleLambda]) (.ite (fun hasync => ?_) fun _ => ?_)
  · have hbump : Replays a b inside (fun ts => Lookahead.kind ts ≠ .eof ∧
        Lookahead.kindAt? 1 ts = some .identifier) fun _ => bump := .bump hc (.inr fun _ => And.left)
    refine (hbump.seq (fun _ => leaves_bump) fun _ => ?_).weaken fun ts hts => ⟨hts.1, hts.2 hasync⟩
    exact (replays_leaf hc (.inr fun ts hts => by simp [hts])).bind fun _ => replays_lambdaBody hc hr
  · exact (replays_leaf hc (.inr fun _ => And.left)).bind fun _ => replays_lambdaBody hc hr

theorem replays_parenthesizedLambda (isAsync : Bool) :
    Replays a b inside (OpensParenthesizedLambda isAsync) fun _ => parenthesizedLambda r isAsync := by
  have hparameters : Replays a b inside (fun ts => Lookahead.kind ts ≠ .eof) fun _ =>
      node .parameterList (bump >>= fun _ => separatedUntil [.rParen, .eof] (parameter r true) >>=
        fun _ => require .rParen "expected `)`") :=
    .within (.node hc (by simp [Steady]) ((Replays.bump hc (.inr fun _ => id)).bind fun _ =>
      (Replays.separatedUntil hc (replays_parameter hc hr true)).closed_by hc (by decide) _))
  refine .node hc (by simp [Steady, OpensParenthesizedLambda]) (.ite (fun hasync => ?_) fun _ => ?_)
  · have hbump : Replays a b inside (fun ts => Lookahead.kind ts ≠ .eof ∧
        Lookahead.kindAt? 1 ts = some .lParen) fun _ => bump := .bump hc (.inr fun _ => And.left)
    refine (hbump.seq (fun _ => leaves_bump) fun _ => ?_).weaken fun ts hts => ⟨hts.1, hts.2 hasync⟩
    exact (hparameters.weaken fun ts hts => by simp [hts]).bind fun _ => replays_lambdaBody hc hr
  · exact (hparameters.weaken fun _ => And.left).bind fun _ => replays_lambdaBody hc hr

omit hr in
theorem replays_createdType : Replays a b inside C fun _ => createdType := by
  have hend : ∀ {C}, Replays a b inside C fun start => isAt .question >>= fun nullable =>
      if nullable then nodeFrom start .nullableType bump else pure () := by
    intro C
    refine .isAt_bind hc (.inr fun _ => rfl) fun _ => .ite (fun hquestion => ?_) fun _ => .pure _
    exact .nodeFrom (.bump_the hc (fun ts hts => eq_of_beq (hts.2.trans hquestion)) (by decide))
  refine .mark_bind hc (.peek_bind hc (.inr fun _ => rfl) fun k => .ite (fun hk => ?_) fun _ => ?_)
  · refine (replays_leaf hc (.inr ?_)).bind fun _ => hend
    rintro ts ⟨-, rfl⟩ heof
    rw [heof] at hk
    cases hk
  · exact (replays_name hc (replays_type hc) true).within.bind fun _ => hend

theorem replays_creationRank : Replays a b inside (fun ts => Lookahead.kind ts = .lBracket)
    fun _ => creationRank r := by
  have hlength : Replays a b true (fun _ => True) fun _ => isAt .comma >>= fun more =>
      if more then pure () else expression r :=
    .isAt_bind hc (.inl rfl) fun _ => .ite (fun _ => .pure _) fun _ => replays_expression hr
  exact .within (.node hc (by simp [Steady]) ((Replays.bump_the hc (fun _ => id) (by decide)).bind
    fun _ => (Replays.separatedUntil hc hlength).closed_by hc (by decide) _))

theorem replays_objectCreation : Replays a b inside (fun ts => Lookahead.kind ts ≠ .eof)
    fun _ => objectCreation r := by
  have hranks : ∀ {C}, Replays a b inside C fun _ =>
      whileAhead (fun ts => Lookahead.kind ts == .lBracket) (creationRank r) := by
    refine .whileAhead (fun _ _ => hc.congr_kind (g := (· == .lBracket)) rfl)
      ((replays_creationRank hc hr).weaken fun _ => eq_of_beq) fun _ => ?_
    exact (Enters.takes fun n => enters_creationRank (agree_of_rereads hr n)).weaken
      fun _ hts => ⟨eq_of_beq hts, trivial⟩
  refine .node hc (by simp [Steady]) ((Replays.bump hc (.inr fun _ => id)).bind fun _ =>
    .ask_bind (fun _ _ h _ _ _ => by rw [hc.atType_eq h]) fun _ =>
      .opt (fun _ => replays_createdType hc) fun _ => hranks.bind fun _ => ?_)
  refine .isAt_bind hc (.inr fun _ => rfl) fun _ => .opt (fun _ => replays_argumentList hc hr)
    fun _ => .isAt_bind hc (.inr fun _ => rfl) fun _ => ?_
  exact .ite (fun _ => hr.initializer.within.under) fun _ => .pure _

theorem replays_initializer : Replays a b inside C fun _ => initializer r := by
  have hvalue : Replays a b true (fun _ => True) fun _ => isAt .lBrace >>= fun nested =>
      if nested then r .initializer else expression r :=
    .isAt_bind hc (.inl rfl) fun _ => .ite (fun _ => hr.initializer.within.under) fun _ =>
      replays_expression hr
  exact .within (.under (.node hc (fun _ => id) ((Replays.require hc (by decide) (.inr (by decide))
    _).bind fun _ => (Replays.separatedUntil hc hvalue).closed_by hc (by decide) _)))

theorem replays_afterParen : Replays a b inside (fun ts => Lookahead.kind ts = .lParen)
    fun _ => afterParen r := by
  have hne : ∀ ts, Lookahead.kind ts = .lParen → Lookahead.kind ts ≠ .eof := fun ts hts => by
    simp [hts]
  have hnode : ∀ {kind : Kind} {body : Parser Unit},
      Replays a b inside (fun _ => True) (fun _ => body) →
        Replays a b inside (fun ts => Lookahead.kind ts = .lParen)
          fun _ => node kind (bump >>= fun _ => body) := fun hbody =>
    .node hc (by simp [Steady]) ((Replays.bump_the hc (fun _ => id) (by decide)).bind fun _ => hbody)
  refine .ask_bind (fun ts us h hts _ _ => ?_) fun _ => .ite (fun _ => ?_) fun _ =>
    .ask_bind (fun ts us h hts _ _ => ?_) fun _ => .ite (fun _ => ?_) fun _ => ?_
  · rw [hc.atLambdaParen_eq (n := 0) (hc.ahead h) (headKind?_of_kind hts (by decide))]
  · exact (replays_parenthesizedLambda hc hr _).weaken fun ts hts =>
      ⟨hne ts hts.1, fun hasync => absurd hasync Bool.false_ne_true⟩
  · rw [hc.atCast_eq h (hne ts hts.1)]
  · refine (hnode ?_).weaken fun _ hts => hts.1.1
    exact (replays_type hc).bind fun _ => (Replays.require hc (by decide) (.inr (by decide)) _).bind
      fun _ => hr.unary.within
  · refine (hnode ?_).weaken fun _ hts => hts.1.1
    exact (replays_expression hr).bind fun _ => .require hc (by decide) (.inr (by decide)) _

theorem replays_afterIdentifier : Replays a b inside (fun ts => Lookahead.kind ts = .identifier)
    fun _ => afterIdentifier r := by
  have hne : ∀ ts, Lookahead.kind ts = .identifier → Lookahead.kind ts ≠ .eof := fun ts hts => by
    simp [hts]
  have hends : ∀ {α : Type} {P : List Token → Prop} {f : Nat → Bool → Parser α},
      (∀ ts, P ts → Lookahead.kind ts = .identifier) → inside = true ∨
        ∀ ts, P ts → Lookahead.kind ts = .eof → ∀ start x y, f start x = f start y :=
    fun hP => .inr fun ts hts heof => absurd heof (hne ts (hP ts hts))
  refine .ask_bind (fun _ _ h _ _ _ => by rw [hc.atWord_eq _ h]) fun isAsync =>
    .isAtNth_bind hc (by decide) (hends fun _ => And.left) fun atParen =>
      .ask_bind (fun ts us h hts _ _ => ?_) fun _ => .ite (fun hparen => ?_) fun _ => ?_
  · cases atParen with
    | false => simp
    | true =>
        have hat : Lookahead.kindAt? 1 ts = some .lParen := eq_of_beq hts.2
        rw [hc.atLambdaParen_eq (n := 1) (hc.behind h (hne ts hts.1.1)) hat]
  · refine (replays_parenthesizedLambda hc hr _).weaken fun ts hts => ⟨hne ts hts.1.1.1, fun _ => ?_⟩
    simp only [Bool.and_eq_true] at hparen
    exact eq_of_beq (hts.1.2.trans hparen.1.2)
  refine .isAtNth_bind hc (by decide) (hends fun _ hts => hts.1.1.1) fun atName =>
    .ask_bind (fun ts us h hts _ _ => ?_) fun _ => .ite (fun hname => ?_) fun _ => ?_
  · cases atName with
    | false => simp
    | true =>
        have hat : Lookahead.kindAt? 1 ts = some .identifier := eq_of_beq hts.2
        rw [hc.congr_kindAt?_two (g := (· == some .arrow)) rfl h (hne ts hts.1.1.1.1) (by simp [hat])]
  · refine (replays_simpleLambda hc hr _).weaken fun ts hts => ⟨hne ts hts.1.1.1.1.1, fun _ => ?_⟩
    simp only [Bool.and_eq_true] at hname
    exact eq_of_beq (hts.1.2.trans hname.1.2)
  refine .isAtNth_bind hc (by decide) (hends fun _ hts => hts.1.1.1.1.1) fun _ =>
    .ite (fun _ => ?_) fun _ => ?_
  · exact (replays_simpleLambda hc hr _).weaken fun ts hts => ⟨hne ts hts.1.1.1.1.1.1, nofun⟩
  refine .isAtNth_bind hc (by decide) (hends fun _ hts => hts.1.1.1.1.1.1) fun _ =>
    .ite (fun hcolons => ?_) fun _ => (replays_expressionName hc).weaken fun _ hts => hts.1.1.1.1.1.1.1
  exact (replays_aliasQualifiedExpression hc).weaken fun ts hts =>
    ⟨hne ts hts.1.1.1.1.1.1.1, eq_of_beq (hts.2.trans hcolons)⟩

theorem replays_primary : Replays a b inside C fun _ => primary r := by
  have hbump : ∀ {C}, (∀ ts, C ts → Lookahead.kind ts ≠ .eof) →
      Replays a b inside C fun _ => bump := fun hne => .bump hc (.inr hne)
  have htype : ∀ {C}, Replays a b inside C fun _ => type >>= fun _ =>
      require .rParen "expected `)`" := fun {C} =>
    (replays_type hc).bind fun _ => .require hc (by decide) (.inr (by decide)) _
  refine .peek_bind hc (.inr fun _ => rfl) fun k => ?_
  split
  case h_10 =>
    refine (Replays.node hc (by simp [Steady]) ((hbump fun _ => id).bind fun _ => ?_)).weaken
      (ne_eof_of_and_eq (by decide))
    exact (Replays.require hc (by decide) (.inr (by decide)) _).bind fun _ => htype
  case h_11 =>
    refine (Replays.node hc (by simp [Steady]) ((hbump fun _ => id).bind fun _ => ?_)).weaken
      (ne_eof_of_and_eq (by decide))
    exact (Replays.eat hc (by decide) (.inr (by decide))).bind fun _ =>
      .ite (fun _ => htype) fun _ => .pure _
  case h_12 => exact (replays_objectCreation hc hr).weaken (ne_eof_of_and_eq (by decide))
  case h_13 => exact (replays_afterParen hc hr).weaken fun _ => And.right
  case h_14 => exact (replays_afterIdentifier hc hr).weaken fun _ => And.right
  case h_15 =>
    refine .ite (fun hk => replays_leaf hc (.inr (ne_eof_of_and_eq ?_))) fun hk => .complain _
    rintro rfl
    cases hk
  all_goals exact replays_leaf hc (.inr (ne_eof_of_and_eq (by decide)))

theorem replays_postfixPart : Replays a b inside C (postfixPart r) := by
  have hmember : Replays a b inside (fun ts => Lookahead.kind ts ≠ .eof) fun start =>
      nodeFrom start .memberAccessExpression (bump >>= fun _ => isAt .identifier >>= fun atName =>
        if atName then expressionName else complain "expected member name") := by
    refine .nodeFrom ((Replays.bump hc (.inr fun _ => id)).bind fun _ =>
      .isAt_bind hc (.inr fun _ => rfl) fun _ => .ite (fun hname => ?_) fun _ => .complain _)
    exact (replays_expressionName hc).weaken fun ts hts => eq_of_beq (hts.2.trans hname)
  have hstep : Replays a b inside (fun ts => Lookahead.kind ts ≠ .eof) fun start =>
      nodeFrom start .postfixUnaryExpression bump := .nodeFrom (.bump hc (.inr fun _ => id))
  refine .peek_bind hc (.inr fun _ => rfl) fun k => ?_
  split
  case h_1 | h_2 => exact (hmember.weaken (ne_eof_of_and_eq (by decide))).bind fun _ => .pure _
  case h_3 => exact (Replays.nodeFrom (replays_argumentList hc hr)).bind fun _ => .pure _
  case h_4 => exact (Replays.nodeFrom (replays_bracketedArgumentList hc hr)).bind fun _ => .pure _
  case h_5 | h_6 => exact (hstep.weaken (ne_eof_of_and_eq (by decide))).bind fun _ => .pure _
  case h_7 =>
    have hbang : ∀ {α : Type} {P : List Token → Prop} {f : Nat → Bool → Parser α},
        (∀ ts, P ts → Lookahead.kind ts = .bang) → inside = true ∨
          ∀ ts, P ts → Lookahead.kind ts = .eof → ∀ start x y, f start x = f start y :=
      fun hP => .inr fun ts hts heof => by cases (hP ts hts).symm.trans heof
    refine .isAtNth_bind hc (by decide) (hbang fun _ => And.right) fun _ =>
      .isAtNth_bind hc (by decide) (hbang fun _ hts => hts.1.2) fun _ =>
        .ite (fun _ => .pure _) fun _ => ?_
    exact (hstep.weaken fun _ hts => ne_eof_of_kind_eq (by decide) hts.1.1.2).bind fun _ => .pure _
  case h_8 => exact .pure _

omit hr in
/-- A first reader, and a loop behind it. -/
theorem replays_climb {first : Parser Unit} {step : Nat → Parser Bool}
    (hfirst : Replays a b inside (fun _ => True) fun _ => first)
    (hstep : Replays a b inside (fun _ => True) step) (hprogress : ∀ start, Progresses (step start)) :
    Replays a b inside C fun _ => mark >>= fun start => first >>= fun _ =>
      grownSince start >>= fun grown => if grown then loop (step start) else pure () :=
  .mark_bind hc (hfirst.bind fun _ => Replays.grownSince.bind fun _ =>
    .ite (fun _ => .loop hstep hprogress) fun _ => .pure _)

theorem replays_operand : Replays a b inside C fun _ => operand r :=
  replays_climb hc (replays_primary hc hr) (replays_postfixPart hc hr) fun start =>
    Steps.progresses fun n => steps_postfixPart (agree_of_rereads hr n) start

theorem replays_unary : Replays a b inside C fun _ => unary r := by
  have hprefixed : Replays a b inside (fun ts => Lookahead.kind ts ≠ .eof) fun _ =>
      node .prefixUnaryExpression (bump >>= fun _ => r .unary) :=
    .node hc (by simp [Steady]) ((Replays.bump hc (.inr fun _ => id)).bind fun _ => hr.unary.within)
  refine .peek_bind hc (.inr fun _ => rfl) fun k => ?_
  split
  case h_10 =>
    refine .ask_bind (fun ts us h hts _ _ => ?_) fun _ => .ite (fun _ => hprefixed.weaken ?_)
      fun _ => replays_operand hc hr
    · have hne : Lookahead.kind ts ≠ .eof := by simp [hts.2]
      rw [hc.atWord_eq _ h,
        hc.congr_kindAt?_one (g := (Option.any Lookahead.opensOperandOnly ·)) rfl h hne]
    · rintro ts ⟨⟨-, hkind⟩, -⟩
      simp [hkind]
  case h_11 => exact replays_operand hc hr
  all_goals
    refine hprefixed.weaken ?_
    rintro ts ⟨-, hkind⟩
    simp [hkind]

/-! ## Operators -/

theorem replays_conditionalPart (power : Nat) :
    Replays a b inside (fun ts => Lookahead.kind ts ≠ .eof) (conditionalPart r power) := by
  refine .ite (fun _ => .pure _) fun _ => (Replays.nodeFrom ?_).bind fun _ => .pure _
  exact (Replays.bump hc (.inr fun _ => id)).bind fun _ => (replays_expression hr).bind fun _ =>
    (Replays.require hc (by decide) (.inr (by decide)) _).bind fun _ => (hr.expression _).within

theorem replays_isPart (power : Nat) :
    Replays a b inside (fun ts => Lookahead.kind ts ≠ .eof) (isPart r power) := by
  refine .ite (fun _ => .pure _) fun _ => (Replays.nodeFrom ?_).bind fun _ => .pure _
  refine (Replays.bump hc (.inr fun _ => id)).bind fun _ =>
    .ask_bind (fun _ _ h _ _ _ => by rw [hc.atType_eq h]) fun _ => .ite (fun _ => ?_) fun _ =>
      (hr.expression _).within.under
  exact (replays_type hc).bind fun _ =>
    (Replays.eat hc (by decide) (.inr (by decide))).bind fun _ => .pure _

omit hr in
theorem replays_asPart (power : Nat) :
    Replays a b inside (fun ts => Lookahead.kind ts ≠ .eof) (asPart power) := by
  refine .ite (fun _ => .pure _) fun _ => (Replays.nodeFrom ?_).bind fun _ => .pure _
  exact (Replays.bump hc (.inr fun _ => id)).bind fun _ => replays_type hc

theorem replays_binaryPart (power : Nat) : Replays a b inside C (binaryPart r power) := by
  refine .ask_bind (fun _ _ h _ _ _ => by rw [hc.binding?_eq h]) fun found => ?_
  split
  case h_1 => exact .pure _
  case h_2 binding =>
    refine .ite (fun _ => .pure _) fun _ =>
      .ask_bind (fun _ _ h _ _ _ => by rw [hc.shiftTail?_eq h]) fun isShift => ?_
    refine (Replays.nodeFrom ?_).bind fun _ => .pure _
    cases isShift with
    | true =>
        have hfirst : Replays a b inside (fun ts => (Lookahead.shiftTail? ts).isSome = true)
            fun _ => bump := .bump hc (.inr fun _ => ne_eof_of_shiftTail?)
        exact (hfirst.seq (fun _ => leaves_shift) fun _ => (Replays.take hc).bind fun _ =>
          (hr.expression _).within).weaken fun _ => And.right
    | false =>
        exact (Replays.bump hc (.inr fun ts hts => ne_eof_of_binding? hts.1.2)).bind fun _ =>
          (hr.expression _).within

theorem replays_infixPart (power : Nat) : Replays a b inside C (infixPart r power) := by
  refine .peek_bind hc (.inr fun _ => rfl) fun k => ?_
  split
  case h_1 => exact (replays_conditionalPart hc hr power).weaken fun ts hts => by simp [hts.2]
  case h_2 => exact (replays_isPart hc hr power).weaken fun ts hts => by simp [hts.2]
  case h_3 => exact (replays_asPart hc power).weaken fun ts hts => by simp [hts.2]
  case h_4 => exact replays_binaryPart hc hr power

theorem replays_expressionAbove (power : Nat) :
    Replays a b inside C fun _ => expressionAbove r power :=
  replays_climb hc hr.unary.within (replays_infixPart hc hr power) fun start =>
    Steps.progresses fun n => steps_infixPart (agree_of_rereads hr n) power start

/-! ## Statements -/

theorem replays_variableDeclarator : Replays a b true C fun _ => variableDeclarator r := by
  refine .under (.node hc (fun _ => id) ((Replays.require hc (by decide) (.inl rfl) _).bind fun _ =>
    .isAt_bind hc (.inl rfl) fun _ => .opt (fun _ => replays_bracketedArgumentList hc hr) fun _ => ?_))
  exact .isAt_bind hc (.inl rfl) fun _ => .ite (fun _ => replays_equalsValueClause hc hr) fun _ =>
    .pure _

theorem replays_variableDeclaration : Replays a b true C fun _ => variableDeclaration r := by
  have hvariables : Replays a b true (fun _ => True) fun _ => variableDeclarators r :=
    .separated hc (replays_variableDeclarator hc hr)
  exact .under (.node hc (fun _ => id) ((replays_type hc).bind fun _ => hvariables))

theorem replays_embeddedStatement : Replays a b true C fun _ => embeddedStatement r :=
  .isAtAny_bind hc (.inl rfl) fun _ => .ite (fun _ => .complain _) fun _ => hr.statement.under

theorem replays_parenthesizedCondition : Replays a b true C fun _ => parenthesizedCondition r :=
  (Replays.require hc (by decide) (.inl rfl) _).bind fun _ => (replays_expression hr).bind fun _ =>
    .require hc (by decide) (.inl rfl) _

omit hr in
/-- A node that opens with the next token. -/
theorem replays_keyword {kind : Kind} {body : Parser Unit}
    (hbody : Replays a b true (fun _ => True) fun _ => body) :
    Replays a b true C fun _ => node kind (bump >>= fun _ => body) :=
  .under (.node hc (fun _ => id) ((Replays.bump hc (.inl rfl)).bind fun _ => hbody))

theorem replays_jump (kind : Kind) (missing : String) :
    Replays a b true C fun _ => jump r kind missing :=
  replays_keyword hc (.isAt_bind hc (.inl rfl) fun _ =>
    .ite (fun _ => .require hc (by decide) (.inl rfl) _) fun _ => (replays_expression hr).bind fun _ =>
      .require hc (by decide) (.inl rfl) _)

theorem replays_ifStatement : Replays a b true C fun _ => ifStatement r :=
  replays_keyword hc ((replays_parenthesizedCondition hc hr).bind fun _ =>
    (replays_embeddedStatement hc hr).bind fun _ => .isAt_bind hc (.inl rfl) fun _ =>
      .ite (fun _ => replays_keyword hc (replays_embeddedStatement hc hr)) fun _ => .pure _)

theorem replays_whileStatement : Replays a b true C fun _ => whileStatement r :=
  replays_keyword hc ((replays_parenthesizedCondition hc hr).bind fun _ =>
    replays_embeddedStatement hc hr)

theorem replays_expressionList (terminator : Kind) :
    Replays a b true C fun _ => expressionList r terminator := by
  have hstep : Replays a b true (fun _ => True) fun _ => expression r >>= fun _ =>
      isAt terminator >>= fun done => if done then pure false else eat .comma :=
    (replays_expression hr).bind fun _ => .isAt_bind hc (.inl rfl) fun _ =>
      .ite (fun _ => .pure _) fun _ => .eat hc (by decide) (.inl rfl)
  refine hstep.loop fun _ => Steps.progresses fun n => ?_
  exact Steps.behind (agree_of_rereads hr _ (.expression 0)) fun _ => .ask_bind fun _ =>
    .ite (fun _ => .stop) fun _ => .eat (by decide)

/-- What stands behind the first semicolon of a `for`. -/
theorem replays_forEnd : Replays a b true C fun _ => isAt .semicolon >>= fun empty =>
    let steps := require .semicolon "expected `;`" >>= fun _ => isAt .rParen >>= fun closed =>
      let body := require .rParen "expected `)`" >>= fun _ => embeddedStatement r
      if closed then body else expressionList r .rParen >>= fun _ => body
    if empty then steps else expression r >>= fun _ => steps := by
  have hbody : ∀ {C}, Replays a b true C fun _ => require .rParen "expected `)`" >>= fun _ =>
      embeddedStatement r := fun {C} =>
    (Replays.require hc (by decide) (.inl rfl) _).bind fun _ => replays_embeddedStatement hc hr
  have hsteps : ∀ {C}, Replays a b true C fun _ => require .semicolon "expected `;`" >>= fun _ =>
      isAt .rParen >>= fun closed =>
        if closed then require .rParen "expected `)`" >>= fun _ => embeddedStatement r
        else expressionList r .rParen >>= fun _ => require .rParen "expected `)`" >>= fun _ =>
          embeddedStatement r := fun {C} =>
    (Replays.require hc (by decide) (.inl rfl) _).bind fun _ => .isAt_bind hc (.inl rfl) fun _ =>
      .ite (fun _ => hbody) fun _ => (replays_expressionList hc hr _).bind fun _ => hbody
  exact .isAt_bind hc (.inl rfl) fun _ => .ite (fun _ => hsteps) fun _ =>
    (replays_expression hr).bind fun _ => hsteps

theorem replays_forStatement : Replays a b true C fun _ => forStatement r := by
  have hrest := replays_forEnd (C := fun _ => True) hc hr
  have hend : ∀ {C}, Replays a b true C fun _ => require .semicolon "expected `;`" >>= fun _ => _ :=
    fun {C} => (Replays.require hc (by decide) (.inl rfl) _).bind fun _ => hrest
  have hdeclaration := replays_variableDeclaration (C := fun _ => True) hc hr
  have hlist := replays_expressionList (C := fun _ => True) hc hr .semicolon
  refine replays_keyword hc ((Replays.require hc (by decide) (.inl rfl) _).bind fun _ =>
    .isAt_bind hc (.inl rfl) fun _ => .ite (fun _ => hend) fun _ =>
      .atLocalDeclaration_bind hc (fun _ _ => ?_) fun _ => .ite
        (fun _ => hdeclaration.under.bind fun _ => hend) fun _ => hlist.under.bind fun _ => hend)
  have hwants := WantsSemicolon.left (.require "expected `;`") (.require _ _) fun _ => hrest.onward 0
  have honward : Onward _ := (Onward.require .semicolon "expected `;`").bind fun _ => hrest.onward 0
  exact .ite (.right (hdeclaration.onward 0) (fun _ => honward) fun _ => hwants)
    (.right (hlist.onward 0) (fun _ => honward) fun _ => hwants)

theorem replays_forEachStatement : Replays a b true C fun _ => forEachStatement r :=
  replays_keyword hc ((Replays.require hc (by decide) (.inl rfl) _).bind fun _ =>
    (replays_type hc).bind fun _ => (Replays.require hc (by decide) (.inl rfl) _).bind fun _ =>
      (Replays.require hc (by decide) (.inl rfl) _).bind fun _ => (replays_expression hr).bind fun _ =>
        (Replays.require hc (by decide) (.inl rfl) _).bind fun _ => replays_embeddedStatement hc hr)

theorem replays_constantDeclaration : Replays a b true C fun _ => constantDeclaration r :=
  .under (.node hc (fun _ => id) ((replays_leaf hc (.inl rfl)).bind fun _ =>
    (replays_variableDeclaration hc hr).bind fun _ => .require hc (by decide) (.inl rfl) _))

theorem replays_plainStatement : Replays a b true C fun _ => plainStatement r := by
  have hrequire : ∀ (message : String) {C}, Replays a b true C fun _ =>
      require .semicolon message := fun message {C} => .require hc (by decide) (.inl rfl) message
  have hskip : Replays a b true (fun _ => True) fun _ => skip :=
    .isAt_bind hc (.inl rfl) fun _ => .ite (fun _ => .pure _) fun _ => .bump hc (.inl rfl)
  have hdeclaration := replays_variableDeclaration (C := fun _ => True) hc hr
  have hexpression : Replays a b true (fun _ => True) fun _ => expression r := replays_expression hr
  refine .atLocalDeclaration_bind hc (fun _ _ => ?_) fun _ => .ite (fun _ => ?_) fun _ =>
    .peek_bind hc (.inl rfl) fun _ => .ite (fun _ => ?_) fun _ => ?_
  · refine .ite (.node (.right (hdeclaration.onward 0) (fun _ => .require _ _) fun _ => .require _))
      (.ask_bind fun _ => .ite ?_ ?_)
    · exact .node (.right (hexpression.onward 0) (fun _ => .require _ _) fun _ => .require _)
    · exact .node (.left (.complain _) (.complain _) fun _ => .skip)
  · exact .under (.node hc (fun _ => id) (hdeclaration.bind fun _ => hrequire _))
  · exact .under (.node hc (fun _ => id) (hexpression.bind fun _ => hrequire _))
  · exact .under (.node hc (fun _ => id) ((Replays.complain _).bind fun _ => hskip))

theorem replays_statement : Replays a b true C fun _ => statement r := by
  have hjump : Replays a b true (fun _ => True) fun _ => require .semicolon "expected `;`" :=
    .require hc (by decide) (.inl rfl) _
  refine .peek_bind hc (.inl rfl) fun k => ?_
  split
  case h_1 => exact replays_block hc hr
  case h_2 => exact replays_leaf hc (.inl rfl)
  case h_3 | h_4 => exact replays_jump hc hr _ _
  case h_5 | h_6 => exact replays_keyword hc hjump
  case h_7 => exact replays_ifStatement hc hr
  case h_8 => exact replays_whileStatement hc hr
  case h_9 => exact replays_forStatement hc hr
  case h_10 => exact replays_forEachStatement hc hr
  case h_11 => exact replays_constantDeclaration hc hr
  case h_12 => exact replays_plainStatement hc hr

end

/-! ## The whole grammar -/

theorem rereads_construct {r : Rules} (hr : Rereads a b r) : Rereads a b (construct r) := by
  have henters : ∀ n c, Enters n (fun _ => True) (fun ts => True ∧ c.Opens ts) (construct r c)
      (construct r c) := fun n c => enters_construct (agree_of_rereads hr n) fun c' _ =>
    .of_shrinks (hr.shrinks c') ((hr.takes c').weaken fun _ => And.right)
  exact {
    expression := replays_expressionAbove hc hr
    unary := replays_unary hc hr
    initializer := replays_initializer hc hr
    statement := replays_statement hc hr
    shrinks := fun c => AgreeIf.shrinks fun n => (henters n c).ahead.mono (Nat.le_succ n)
    takes := fun c => (Enters.takes fun n => henters n c).weaken fun _ hts =>
      ⟨trivial, trivial, hts⟩ }

omit hc in
/-- A reader in the place of those that nest too deep. Nothing that it reads is read without a
complaint. -/
def balk : Rules := fun _ => complain "too deep" >>= fun _ => bump

omit hc in
theorem rereads_balk : Rereads a b balk := by
  have hbalk : ∀ inside, Replays a b inside (fun _ => True) fun _ =>
      complain "too deep" >>= fun _ => bump := fun _ => .complain_bind _ fun _ => .bump
  refine ⟨fun _ => hbalk _, hbalk _, hbalk _, hbalk _, fun _ => ((hbalk false).onward 0).shrinks,
    fun c => ?_⟩
  have hopens : ∀ ts, c.Opens ts → Lookahead.kind ts ≠ .eof := by
    intro ts hts heof
    cases c <;> simp [Construct.Opens, heof, Lookahead.opensExpression, Kind.isPredefinedType] at hts
  intro s hs
  have htakes := takes_bump ((complain "too deep").run s).2
  rw [rest_complain] at htakes
  exact htakes (hopens _ hs)

theorem rereads_withinOr (depth : Nat) : Rereads a b (withinOr balk depth) := by
  induction depth with
  | zero => exact rereads_balk
  | succ depth ih => exact rereads_construct hc ih

omit hc in
/-- How deep constructs may nest can be the same in both runs. -/
theorem replays_whole {c : Construct}
    (h : ∀ depth, Replays a b inside C fun _ => withinOr balk depth c) :
    Replays a b inside C fun _ => whole c := by
  have hrun : ∀ (s : ParserState) n, 3 * pending s.rest + c.rank < n →
      (whole c).run s = (withinOr balk n c).run s := fun s n hn =>
    (enters_whole hn s trivial (Nat.lt_succ_self _)).1
  have honward : Onward (whole c) := by
    refine ⟨shrinks_whole c, fun s => ?_⟩
    rw [hrun s _ (Nat.lt_succ_self _)]
    exact ((h _).onward 0).grows s
  refine .of_here honward fun s s' hstart hC hcalm => ?_
  have hcount : 3 * pending s.rest + c.rank < 3 * (pending s.rest + pending s'.rest) + c.rank + 1 ∧
      3 * pending s'.rest + c.rank < 3 * (pending s.rest + pending s'.rest) + c.rank + 1 := by omega
  rw [hrun s _ hcount.1] at hcalm ⊢
  rw [hrun s' _ hcount.2]
  exact (h _).again hstart hC hcalm

theorem rereads_whole : Rereads a b whole where
  expression power := replays_whole fun depth => (rereads_withinOr hc depth).expression power
  unary := replays_whole fun depth => (rereads_withinOr hc depth).unary
  initializer := replays_whole fun depth => (rereads_withinOr hc depth).initializer
  statement := replays_whole fun depth => (rereads_withinOr hc depth).statement
  shrinks := shrinks_whole
  takes := takes_whole

end

end Grammar

end CSharpKit.Syntax
