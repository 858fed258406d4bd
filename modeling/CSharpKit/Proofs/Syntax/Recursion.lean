import CSharpKit.Proofs.Syntax.Consumption
import CSharpKit.Proofs.Syntax.TypeReading
import CSharpKit.Syntax.Parse

/-!
# Recursion behind tokens

The readers of a construct are recursive in two ways: behind a token they took, or
before any token, and then in a construct of a lower rank. So the rules for the
constructs inside matter for fewer pending tokens only, and how deep constructs may
nest does not matter once it exceeds what the tokens ahead allow.
-/

namespace CSharpKit.Syntax.Grammar

open CSharpKit.Syntax.Parser

variable {n : Nat} {C D : List Token → Prop}

/-! ## Types -/

theorem enters_leaf (kind : Kind) :
    EntersIf n (fun ts => Lookahead.kind ts ≠ .eof) (leaf kind) (leaf kind) :=
  .of_takes (.node (fun _ => by simp) takes_bump)

theorem agree_leaf (kind : Kind) : Agree n (leaf kind) (leaf kind) := .node .bump

section

variable {inner inner' : Parser Unit} (h : Agree n inner inner')
include h

theorem agree_typeArgumentList : Agree n (typeArgumentList inner) (typeArgumentList inner') := by
  refine .node ((Agree.require _ _).bind fun _ => (Agree.loop ?_).bind fun _ => .require _ _)
  refine (Agree.ask _).bind fun _ => .ite (fun _ => .pure _) fun _ => ?_
  exact (Agree.eat _).bind fun _ => .ite (fun _ => .pure _) fun _ => h.bind fun _ => .eat _

theorem enters_simpleName (generic : Bool) :
    Enters n C (fun ts => Lookahead.kind ts = .identifier) (simpleName inner generic)
      (simpleName inner' generic) := by
  refine .ask_bind fun a => .ask_bind fun b => .ite (fun hgeneric => ?_) fun _ => ?_
  · refine Enters.always (EntersIf.node (by simp)
      (.behind enters_bump fun _ => agree_typeArgumentList h)) ?_
    rintro ts ⟨⟨-, rfl⟩, rfl⟩
    simp only [Bool.and_eq_true, beq_iff_eq] at hgeneric
    simp [hgeneric.1.2]
  · refine .of_shrinks (AgreeIf.shrinks fun n => .node (.require _ _)) (Takes.node (by simp) ?_)
    exact Takes.require (by decide) _

theorem enters_nameHead (start : Nat) (generic : Bool) :
    Enters n C (fun ts => Lookahead.kind ts = .identifier) (nameHead inner start generic)
      (nameHead inner' start generic) := by
  refine .ask_bind fun a => .ask_bind fun b => .ite (fun halias => ?_) fun _ => ?_
  · refine Enters.always (.nodeFrom ((enters_leaf _).bind fun _ => Agree.bump.bind fun _ =>
      (enters_simpleName h generic).ahead)) ?_
    rintro ts ⟨⟨-, rfl⟩, rfl⟩
    simp only [Bool.and_eq_true, beq_iff_eq] at halias
    simp [halias.1]
  · exact enters_simpleName h generic

theorem enters_name (generic : Bool) : Enters n (fun _ => True)
    (fun ts => Lookahead.kind ts = .identifier) (name inner generic) (name inner' generic) :=
  .mark_bind (by simp) (by simp) fun start => (enters_nameHead h start generic).bind fun _ =>
    .whileAhead (AgreeIf.under (.nodeFrom (Agree.bump.bind fun _ =>
      (enters_simpleName h generic).ahead)))

omit h in
theorem enters_rankSpecifier :
    EntersIf n (fun ts => Lookahead.kind ts = .lBracket) rankSpecifier rankSpecifier :=
  .node (by simp) (.behind (enters_bump.weaken fun ts hts => by simp [hts]) fun _ =>
    (Agree.loop (.eat _)).bind fun _ => .require _ _)

omit h in
theorem enters_rankSpecifiers :
    EntersIf n (fun ts => Lookahead.kind ts = .lBracket) rankSpecifiers rankSpecifiers :=
  (enters_whileAhead (enters_rankSpecifier.weaken fun _ => eq_of_beq)).weaken fun _ hts => by
    simpa using hts

omit h in
theorem steps_typeSuffix (start : Nat) :
    Steps n (fun _ => True) (typeSuffix start) (typeSuffix start) := by
  refine .ask_bind fun k => ?_
  split
  · exact .of_enters (.nodeFrom (enters_bump.weaken fun ts hts => by simp [hts.2])) true
  · refine .ask_bind fun _ => .ask_bind fun _ => .ite (fun _ => ?_) fun _ => .stop
    exact .of_enters (.nodeFrom (enters_rankSpecifiers.weaken fun ts hts => hts.1.1.2)) true
  · exact .stop

/-- Types inside a type stand behind its name. -/
theorem enters_typeWith : Enters n (fun _ => True) (fun ts => Lookahead.atType ts = true)
    (typeWith inner) (typeWith inner') := by
  refine .mark_bind (by simp) (by simp) fun start => .ask_bind fun k => .ite (fun hk => ?_) fun hk =>
    .ite (fun hname => ?_) fun hname => ?_
  · refine Enters.bind ((enters_leaf _).always ?_) fun _ => .loop (steps_typeSuffix start).ahead
    rintro ts ⟨-, rfl⟩ heof
    simp [heof, Kind.isPredefinedType] at hk
  · refine Enters.bind (Enters.imp ((enters_name h true).weaken fun _ _ => trivial) ?_) fun _ =>
      .loop (steps_typeSuffix start).ahead
    rintro ts ⟨-, rfl⟩ -
    exact eq_of_beq hname
  · refine .of_agree (Agree.complain _).under ?_
    rintro ts ⟨-, rfl⟩ hat
    simp only [Lookahead.atType, Bool.or_eq_true] at hat hk
    tauto

end

/-- A written type whose type arguments nest at most `depth` deep, and `base` for
what is deeper. -/
def typeWithinOr (base : Parser Unit) : Nat → Parser Unit
  | 0 => base
  | depth + 1 => typeWith (typeWithinOr base depth)

theorem typeWithinOr_pure (depth : Nat) : typeWithinOr (pure ()) depth = typeWithin depth := by
  induction depth with
  | zero => rfl
  | succ depth ih => rw [typeWithinOr, typeWithin, ih]

/-- Types that nest deeper than the tokens allow are never read. -/
theorem agree_typeWithinOr {base base' : Parser Unit} {depth depth' : Nat} (h : n ≤ depth)
    (h' : n ≤ depth') : Agree n (typeWithinOr base depth) (typeWithinOr base' depth') := by
  induction n generalizing depth depth' with
  | zero => exact fun s _ hlt => absurd hlt (Nat.not_lt_zero _)
  | succ n ih =>
      obtain ⟨depth, rfl⟩ := Nat.exists_eq_add_one_of_ne_zero (Nat.ne_zero_of_lt h)
      obtain ⟨depth', rfl⟩ := Nat.exists_eq_add_one_of_ne_zero (Nat.ne_zero_of_lt h')
      exact (enters_typeWith (ih (Nat.le_of_succ_le_succ h) (Nat.le_of_succ_le_succ h'))).ahead

theorem agree_type_typeWithinOr (base : Parser Unit) {depth : Nat} (h : n ≤ depth) :
    Agree n type (typeWithinOr base depth) := by
  intro s _ hn
  have hlength := pending_le_length s.rest
  have hagree : Agree (pending s.rest + 1) (typeWithinOr (pure ()) (s.rest.length + 1))
      (typeWithinOr base depth) := agree_typeWithinOr (by omega) (by omega)
  rw [type, run_get_bind, ← typeWithinOr_pure]
  exact hagree s trivial (Nat.lt_succ_self _)

theorem agree_type : Agree n type type := by
  intro s _ hn
  exact ⟨rfl, (agree_type_typeWithinOr type (Nat.le_refl n) s trivial hn).2⟩

/-- A type reads the types inside it like itself. -/
theorem type_run (s : ParserState) : type.run s = (typeWith type).run s := by
  have htype : Agree (pending s.rest + 1) type (typeWithinOr type (pending s.rest + 1)) :=
    agree_type_typeWithinOr type (Nat.le_refl _)
  have hstep : Agree (pending s.rest + 1) (typeWith type)
      (typeWith (typeWithinOr type (pending s.rest))) :=
    (enters_typeWith (agree_type_typeWithinOr type (Nat.le_refl _))).ahead
  calc type.run s = (typeWithinOr type (pending s.rest + 1)).run s :=
        (htype s trivial (Nat.lt_succ_self _)).1
    _ = (typeWith type).run s := (hstep s trivial (Nat.lt_succ_self _)).1.symm

theorem enters_type :
    Enters n (fun _ => True) (fun ts => Lookahead.atType ts = true) type type := by
  intro s
  rw [type_run]
  exact enters_typeWith agree_type s

theorem atType_of_atLocalDeclaration {ts : List Token} (h : Lookahead.atLocalDeclaration ts = true) :
    Lookahead.atType ts = true := by
  unfold Lookahead.atLocalDeclaration Lookahead.atTypedName at h
  split at h
  case h_1 => cases h
  case h_2 rest hscan =>
    unfold Lookahead.scanType Lookahead.scanTypeWithin Lookahead.scanTypeWith at hscan
    split at hscan
    case h_1 => cases hscan
    case h_2 k hk =>
      have hkind : Lookahead.kind ts = k := by simp [Lookahead.kind, hk]
      split at hscan
      case isTrue hpredefined => simp [Lookahead.atType, hkind, hpredefined]
      case isFalse =>
        split at hscan
        case isTrue hname => simp [Lookahead.atType, hkind, hname]
        case isFalse => cases hscan

/-! ## Brackets -/

/-- The bound on the tokens between brackets does not matter if as many are pending. -/
theorem agree_bracketed {opening closing : Kind} {fuel fuel' : Nat} (h : n ≤ fuel) (h' : n ≤ fuel')
    (depth : Nat) : Agree (n + 1) (bracketed opening closing fuel depth)
      (bracketed opening closing fuel' depth) := by
  induction n generalizing fuel fuel' depth with
  | zero =>
      intro s _ hn
      have heof := kind_eq_eof (Nat.lt_one_iff.mp hn)
      have hstop : ∀ fuel, (bracketed opening closing fuel depth).run s = ((), s) := by
        intro fuel
        cases fuel with
        | zero => rfl
        | succ fuel =>
            show (ite ((Lookahead.kind s.rest == .eof) = true) _ _ : Parser Unit).run s = _
            rw [if_pos (by simpa using heof)]
            rfl
      rw [hstop, hstop]
      exact ⟨rfl, List.suffix_refl _⟩
  | succ n ih =>
      obtain ⟨fuel, rfl⟩ := Nat.exists_eq_add_one_of_ne_zero (Nat.ne_zero_of_lt h)
      obtain ⟨fuel', rfl⟩ := Nat.exists_eq_add_one_of_ne_zero (Nat.ne_zero_of_lt h')
      have hmore := fun depth => ih (Nat.le_of_succ_le_succ h) (Nat.le_of_succ_le_succ h') depth
      have hne : ∀ {k : Kind}, ¬(k == .eof) = true → ∀ ts : List Token,
          True ∧ Lookahead.kind ts = k → Lookahead.kind ts ≠ .eof := by
        rintro k hk ts ⟨-, rfl⟩
        simpa using hk
      refine .ask_bind fun k => .ite (fun _ => .pure _) fun hk => .ite (fun _ => ?_) fun _ =>
        .ite (fun _ => ?_) fun _ => ?_
      · exact .behind (takes_bump.weaken (hne hk)) fun _ => hmore _
      · refine .seq (E := fun ts => True ∧ Lookahead.kind ts = k) ?_ fun left => ?_
        · cases depth <;> exact .of_same fun _ => rfl
        · exact .behind (takes_bump.weaken (hne hk)) fun _ => .ite (fun _ => .pure _) fun _ => hmore _
      · exact .behind (takes_bump.weaken (hne hk)) fun _ => hmore _

theorem takes_skipBracketed {opening closing : Kind} (hopening : opening ≠ .eof) :
    Takes (fun ts => Lookahead.kind ts = opening) (skipBracketed opening closing) := by
  intro s hc
  have hlength := pending_le_length s.rest
  obtain ⟨hsuffix, hlt⟩ := takes_bump s fun heof => hopening (hc.symm.trans heof)
  obtain ⟨count, hcount⟩ : ∃ count, s.rest.length = count + 1 := ⟨s.rest.length - 1, by omega⟩
  have hunfold : (skipBracketed opening closing).run s =
      (bracketed opening closing count 1).run (bump.run s).2 := by
    rw [skipBracketed, run_get_bind, hcount]
    show (ite ((Lookahead.kind s.rest == .eof) = true) _ (ite _ _ _) : Parser Unit).run s = _
    rw [if_neg (by simpa [hc] using hopening), if_pos (by simpa using hc)]
    rfl
  have hmore : Agree (count + 1) (bracketed opening closing count 1) _ :=
    agree_bracketed (Nat.le_refl _) (Nat.le_refl _) 1
  have hrest := (hmore (bump.run s).2 trivial (by omega)).2
  rw [hunfold]
  exact ⟨hrest.trans hsuffix, Nat.lt_of_le_of_lt (pending_mono hrest) hlt⟩

theorem enters_attributeList : EntersIf n (fun ts => Lookahead.kind ts = .lBracket)
    (node .attributeList (skipBracketed .lBracket .rBracket))
    (node .attributeList (skipBracketed .lBracket .rBracket)) :=
  .node (by simp) (.of_takes (takes_skipBracketed (by decide)))

theorem agree_attributeLists : Agree n attributeLists attributeLists :=
  .whileAhead ((enters_attributeList.ahead.mono (Nat.le_succ n)).weaken fun _ => eq_of_beq)

/-! ## Expressions -/

section

variable {r r' : Rules} (h : ∀ c, Agree n (r c) (r' c))
include h

theorem agree_equalsValueClause : Agree n (equalsValueClause r) (equalsValueClause r') :=
  .node ((Agree.require _ _).bind fun _ => h _)

theorem agree_block : Agree n (block r) (block r') :=
  .node ((Agree.require _ _).bind fun _ => (Agree.untilAny (h _).under).bind fun _ => .require _ _)

theorem enters_block : EntersIf n (fun ts => Lookahead.kind ts = .lBrace) (block r) (block r') :=
  .node (by simp) (.behind (enters_require (by decide) _) fun _ =>
    (Agree.untilAny (h _).under).bind fun _ => .require _ _)

theorem agree_parameter (implicitType : Bool) :
    Agree n (parameter r implicitType) (parameter r' implicitType) := by
  have hname : Agree n (require .identifier "expected parameter name" >>= fun _ =>
      isAt .eq >>= fun atEq => if atEq then equalsValueClause r else pure ()) _ :=
    (Agree.require _ _).bind fun _ => (Agree.ask _).bind fun _ =>
      .ite (fun _ => agree_equalsValueClause h) fun _ => .pure _
  refine .node (agree_attributeLists.bind fun _ => (Agree.ask _).bind fun _ => .opt ?_ fun _ => ?_)
  · exact .node (.whileAhead Agree.bump.under)
  · refine (Agree.ask _).bind fun _ => (Agree.ask _).bind fun _ => (Agree.ask _).bind fun _ => ?_
    exact .ite (fun _ => hname) fun _ => agree_type.bind fun _ => hname

theorem agree_argument : Agree n (argument r) (argument r') := by
  refine .node ((Agree.ask _).bind fun _ => (Agree.ask _).bind fun _ => .opt ?_ fun _ => ?_)
  · exact .node ((agree_leaf _).bind fun _ => .bump)
  · refine (Agree.ask _).bind fun _ => .ite (fun _ => ?_) fun _ => h _
    refine (Agree.ask _).bind fun _ => Agree.bump.bind fun _ => (Agree.ask _).bind fun _ => ?_
    exact .ite (fun _ => agree_type.bind fun _ => .bump) fun _ => h _

/-- The arguments up to the bracket that closes them. -/
theorem agree_arguments (closing : Kind) (message : String) :
    Agree n (separatedUntil [closing, .eof] (argument r) >>= fun _ => require closing message)
      (separatedUntil [closing, .eof] (argument r') >>= fun _ => require closing message) :=
  (Agree.separatedUntil _ (agree_argument h)).bind fun _ => .require _ _

theorem agree_argumentList : Agree n (argumentList r) (argumentList r') :=
  .node ((Agree.require _ _).bind fun _ => agree_arguments h _ _)

theorem enters_argumentList :
    EntersIf n (fun ts => Lookahead.kind ts = .lParen) (argumentList r) (argumentList r') :=
  .node (by simp) (.behind (enters_require (by decide) _) fun _ => agree_arguments h _ _)

theorem agree_bracketedArgumentList :
    Agree n (bracketedArgumentList r) (bracketedArgumentList r') :=
  .node ((Agree.require _ _).bind fun _ => agree_arguments h _ _)

theorem enters_bracketedArgumentList : EntersIf n (fun ts => Lookahead.kind ts = .lBracket)
    (bracketedArgumentList r) (bracketedArgumentList r') :=
  .node (by simp) (.behind (enters_require (by decide) _) fun _ => agree_arguments h _ _)

omit h in
theorem enters_expressionName :
    Enters n C (fun ts => Lookahead.kind ts = .identifier) expressionName expressionName :=
  .ask_bind fun _ => enters_simpleName agree_type _

omit h in
theorem agree_expressionName : Agree n expressionName expressionName :=
  enters_expressionName.ahead.mono (Nat.le_succ n)

theorem agree_lambdaBody : Agree n (lambdaBody r) (lambdaBody r') :=
  (Agree.require _ _).bind fun _ => (Agree.ask _).bind fun _ =>
    .ite (fun _ => agree_block h) fun _ => h _

theorem enters_simpleLambda (isAsync : Bool) : EntersIf n (fun ts => Lookahead.kind ts ≠ .eof)
    (simpleLambda r isAsync) (simpleLambda r' isAsync) := by
  refine .node (by simp) (.ite (fun _ => ?_) fun _ => ?_)
  · exact .behind enters_bump fun _ => (agree_leaf _).bind fun _ => agree_lambdaBody h
  · exact .behind (enters_leaf _) fun _ => agree_lambdaBody h

theorem enters_parenthesizedLambda (isAsync : Bool) :
    EntersIf n (fun ts => Lookahead.kind ts ≠ .eof) (parenthesizedLambda r isAsync)
      (parenthesizedLambda r' isAsync) := by
  have hparameters : Agree n (separatedUntil [.rParen, .eof] (parameter r true) >>= fun _ =>
      require .rParen "expected `)`") (separatedUntil [.rParen, .eof] (parameter r' true) >>= fun _ =>
        require .rParen "expected `)`") :=
    (Agree.separatedUntil _ (agree_parameter h true)).bind fun _ => .require _ _
  refine .node (by simp) (.ite (fun _ => ?_) fun _ => ?_)
  · exact .behind enters_bump fun _ => (Agree.node (Agree.bump.bind fun _ => hparameters)).bind
      fun _ => agree_lambdaBody h
  · exact .behind (.node (by simp) (.behind enters_bump fun _ => hparameters)) fun _ =>
      agree_lambdaBody h

omit h in
theorem agree_createdType : Agree n createdType createdType := by
  have hend : ∀ start, Agree n (isAt .question >>= fun nullable =>
      if nullable then nodeFrom start .nullableType bump else pure ()) _ := fun _ =>
    (Agree.ask _).bind fun _ => .ite (fun _ => .nodeFrom Agree.bump) fun _ => .pure _
  refine Agree.mark.bind fun start => (Agree.ask _).bind fun _ => .ite (fun _ => ?_) fun _ => ?_
  · exact (agree_leaf _).bind fun _ => hend start
  · exact ((enters_name agree_type true).ahead.mono (Nat.le_succ n)).bind fun _ => hend start

theorem enters_creationRank : EntersIf n (fun ts => Lookahead.kind ts = .lBracket) (creationRank r)
    (creationRank r') := by
  refine .node (by simp) (.behind (enters_bump.weaken fun ts hts => by simp [hts]) fun _ =>
    (Agree.separatedUntil _ ?_).bind fun _ => .require _ _)
  exact (Agree.ask _).bind fun _ => .ite (fun _ => .pure _) fun _ => h _

theorem enters_objectCreation : EntersIf n (fun ts => Lookahead.kind ts ≠ .eof) (objectCreation r)
    (objectCreation r') := by
  refine .node (by simp) (.behind enters_bump fun _ => (Agree.ask _).bind fun _ =>
    .opt agree_createdType fun _ => ?_)
  refine (Agree.whileAhead (((enters_creationRank h).ahead.mono (Nat.le_succ n)).weaken
    fun _ => eq_of_beq)).bind fun _ => (Agree.ask _).bind fun _ => ?_
  refine .opt (agree_argumentList h) fun _ => (Agree.ask _).bind fun _ => ?_
  exact .ite (fun _ => h _) fun _ => .pure _

theorem enters_afterParen : EntersIf n (fun ts => Lookahead.kind ts ≠ .eof) (afterParen r)
    (afterParen r') := by
  refine .ask_bind fun _ => .ite (fun _ => ?_) fun _ => .ask_bind fun _ => .ite (fun _ => ?_) fun _ => ?_
  · exact (enters_parenthesizedLambda h _).weaken fun _ => And.left
  · refine (EntersIf.node (by simp) (.behind enters_bump fun _ => ?_)).weaken fun _ hts => hts.1.1
    exact agree_type.bind fun _ => (Agree.require _ _).bind fun _ => h _
  · refine (EntersIf.node (by simp) (.behind enters_bump fun _ => ?_)).weaken fun _ hts => hts.1.1
    exact (h _).bind fun _ => .require _ _

omit h in
theorem enters_aliasQualifiedExpression : EntersIf n (fun ts => Lookahead.kind ts ≠ .eof)
    aliasQualifiedExpression aliasQualifiedExpression :=
  .node (by simp) ((enters_leaf _).bind fun _ => Agree.bump.bind fun _ => (Agree.ask _).bind fun _ =>
    .ite (fun _ => agree_expressionName) fun _ => Agree.complain _)

theorem enters_afterIdentifier : EntersIf n (fun ts => Lookahead.kind ts = .identifier)
    (afterIdentifier r) (afterIdentifier r') := by
  have hne : ∀ ts, Lookahead.kind ts = .identifier → Lookahead.kind ts ≠ .eof := fun ts hts => by
    simp [hts]
  refine .ask_bind fun _ => .ask_bind fun _ => .ask_bind fun _ => .ite (fun _ => ?_) fun _ => ?_
  · exact (enters_parenthesizedLambda h _).weaken fun ts hts => hne ts hts.1.1.1
  refine .ask_bind fun _ => .ask_bind fun _ => .ite (fun _ => ?_) fun _ => ?_
  · exact (enters_simpleLambda h _).weaken fun ts hts => hne ts hts.1.1.1.1.1
  refine .ask_bind fun _ => .ite (fun _ => ?_) fun _ => ?_
  · exact (enters_simpleLambda h _).weaken fun ts hts => hne ts hts.1.1.1.1.1.1
  refine .ask_bind fun _ => .ite (fun _ => ?_) fun _ => ?_
  · exact enters_aliasQualifiedExpression.weaken fun ts hts => hne ts hts.1.1.1.1.1.1.1
  · exact enters_expressionName.imp fun ts hts _ => hts.1.1.1.1.1.1.1

/-- What has to stand ahead of an operand without operators. -/
def OpensPrimary (ts : List Token) : Prop :=
  Lookahead.opensExpression (Lookahead.kind ts) = true ∧
    Lookahead.kind ts ∉ [.plus, .minus, .bang, .tilde, .plusPlus, .minusMinus, .throwKw]

theorem enters_primary : Enters n (fun _ => True) OpensPrimary (primary r) (primary r') := by
  refine .ask_bind fun k => ?_
  split
  case h_8 | h_9 => exact (enters_leaf _).always (ne_eof_of_and_eq (by decide))
  case h_10 =>
    refine (EntersIf.node (by simp) (.behind enters_bump fun _ => ?_)).always
      (ne_eof_of_and_eq (by decide))
    exact (Agree.require _ _).bind fun _ => agree_type.bind fun _ => .require _ _
  case h_11 =>
    refine (EntersIf.node (by simp) (.behind enters_bump fun _ => ?_)).always
      (ne_eof_of_and_eq (by decide))
    exact (Agree.eat _).bind fun _ => .ite (fun _ => agree_type.bind fun _ => .require _ _) fun _ =>
      .pure _
  case h_12 => exact (enters_objectCreation h).always (ne_eof_of_and_eq (by decide))
  case h_13 => exact (enters_afterParen h).always (ne_eof_of_and_eq (by decide))
  case h_14 => exact (enters_afterIdentifier h).always fun _ => And.right
  case h_15 =>
    refine .ite (fun hk => (enters_leaf _).always (ne_eof_of_and_eq ?_)) fun hk =>
      .of_agree (Agree.complain _).under ?_
    · rintro rfl
      cases hk
    · rintro ts ⟨-, rfl⟩ ⟨hopens, hnot⟩
      unfold Lookahead.opensExpression at hopens
      split at hopens
      all_goals simp_all
  all_goals exact (enters_leaf _).always (ne_eof_of_and_eq (by decide))

theorem steps_postfixPart (start : Nat) :
    Steps n (fun _ => True) (postfixPart r start) (postfixPart r' start) := by
  refine .ask_bind fun k => ?_
  split
  case h_1 | h_2 =>
    refine .of_enters ((Enters.nodeFrom (.behind enters_bump fun _ => ?_)).weaken
      (ne_eof_of_and_eq (by decide))) true
    exact (Agree.ask _).bind fun _ => .ite (fun _ => agree_expressionName) fun _ => Agree.complain _
  case h_3 => exact .of_enters (.nodeFrom ((enters_argumentList h).weaken fun _ => And.right)) true
  case h_4 =>
    exact .of_enters (.nodeFrom ((enters_bracketedArgumentList h).weaken fun _ => And.right)) true
  case h_5 | h_6 => exact .of_enters (.nodeFrom (enters_bump.weaken (ne_eof_of_and_eq (by decide)))) true
  case h_7 =>
    refine .ask_bind fun _ => .ask_bind fun _ => .ite (fun _ => .stop) fun _ => ?_
    exact .of_enters (.nodeFrom (enters_bump.weaken fun _ hts =>
      ne_eof_of_kind_eq (by decide) hts.1.1.2)) true
  case h_8 => exact .stop

theorem enters_operand : Enters n (fun _ => True) OpensPrimary (operand r) (operand r') := by
  refine .mark_bind (by simp) (by simp [OpensPrimary]) fun start => (enters_primary h).bind fun _ => ?_
  exact (Agree.grownSince start).bind fun _ =>
    .ite (fun _ => Agree.loop (steps_postfixPart h start).ahead) fun _ => .pure _

theorem enters_unary : Enters n (fun _ => True)
    (fun ts => Lookahead.opensExpression (Lookahead.kind ts) = true) (unary r) (unary r') := by
  have hprefixed : EntersIf n (fun ts => Lookahead.kind ts ≠ .eof)
      (node .prefixUnaryExpression (bump >>= fun _ => r .unary))
      (node .prefixUnaryExpression (bump >>= fun _ => r' .unary)) :=
    .node (by simp) (.behind enters_bump fun _ => h _)
  refine .ask_bind fun k => ?_
  split
  case h_10 =>
    refine .ask_bind fun _ => .ite (fun _ => hprefixed.always ?_) fun _ => ?_
    · rintro ts ⟨⟨-, hts⟩, -⟩
      simp [hts]
    · refine ((enters_operand h).weaken fun _ _ => trivial).imp ?_
      rintro ts ⟨⟨-, hts⟩, -⟩ hopens
      exact ⟨hopens, by simp [hts]⟩
  case h_11 =>
    refine ((enters_operand h).weaken fun _ _ => trivial).imp ?_
    rintro ts ⟨-, rfl⟩ hopens
    exact ⟨hopens, by simp_all⟩
  all_goals
    refine hprefixed.always ?_
    rintro ts ⟨-, hts⟩
    simp [hts]

/-! ## Operators -/

theorem steps_conditionalPart (power start : Nat) :
    Steps n (fun ts => Lookahead.kind ts ≠ .eof) (conditionalPart r power start)
      (conditionalPart r' power start) := by
  refine .ite (fun _ => .stop) fun _ => .of_enters (.nodeFrom (.behind enters_bump fun _ => ?_)) true
  exact (h _).bind fun _ => (Agree.require _ _).bind fun _ => h _

theorem steps_isPart (power start : Nat) :
    Steps n (fun ts => Lookahead.kind ts ≠ .eof) (isPart r power start) (isPart r' power start) := by
  refine .ite (fun _ => .stop) fun _ => .of_enters (.nodeFrom (.behind enters_bump fun _ => ?_)) true
  refine (Agree.ask _).bind fun _ => .ite (fun _ => ?_) fun _ => h _
  exact agree_type.bind fun _ => (Agree.eat _).bind fun _ => .pure _

omit h in
theorem steps_asPart (power start : Nat) :
    Steps n (fun ts => Lookahead.kind ts ≠ .eof) (asPart power start) (asPart power start) :=
  .ite (fun _ => .stop) fun _ => .of_enters (.nodeFrom (.behind enters_bump fun _ => agree_type)) true

omit h in
theorem ne_eof_of_binding? {ts : List Token} {binding : Lookahead.Binding}
    (h : Lookahead.binding? ts = some binding) : Lookahead.kind ts ≠ .eof := by
  intro heof
  have hshift : Lookahead.shiftTail? ts = none := by
    unfold Lookahead.shiftTail?
    split
    case h_1 a b rest hts =>
      have ha : a.kind = .eof := by simpa [Lookahead.kind, Lookahead.headKind?, hts] using heof
      simp [ha]
    case h_2 => rfl
  simp [Lookahead.binding?, hshift, heof, Lookahead.Binding.ofKind?] at h

theorem steps_binaryPart (power start : Nat) :
    Steps n (fun _ => True) (binaryPart r power start) (binaryPart r' power start) := by
  refine .ask_bind fun found => ?_
  split
  case h_1 => exact .stop
  case h_2 binding =>
    refine .ite (fun _ => .stop) fun _ => .ask_bind fun isShift => ?_
    refine (Steps.of_enters (.nodeFrom (.behind enters_bump fun _ => .ite (fun _ => ?_) fun _ => h _))
      true).weaken fun ts hts => ne_eof_of_binding? hts.1.2
    exact (AgreeIf.of_shrinks shrinks_take).bind fun _ => h _

theorem steps_infixPart (power start : Nat) :
    Steps n (fun _ => True) (infixPart r power start) (infixPart r' power start) := by
  refine .ask_bind fun k => ?_
  split
  case h_1 => exact (steps_conditionalPart h power start).weaken fun ts hts => by simp [hts.2]
  case h_2 => exact (steps_isPart h power start).weaken fun ts hts => by simp [hts.2]
  case h_3 => exact (steps_asPart power start).weaken fun ts hts => by simp [hts.2]
  case h_4 => exact (steps_binaryPart h power start).weaken fun _ _ => trivial

/-- An expression reads its first operand before any token. -/
theorem enters_expressionAbove {D : List Token → Prop} (hD : ∀ ts, D ts → D (Lookahead.significant ts))
    (hunary : Enters n (fun _ => True) D (r .unary) (r' .unary)) (power : Nat) :
    Enters n (fun _ => True) D (expressionAbove r power) (expressionAbove r' power) := by
  refine .mark_bind (by simp) hD fun start => hunary.bind fun _ => ?_
  exact (Agree.grownSince start).bind fun _ =>
    .ite (fun _ => Agree.loop (steps_infixPart h power start).ahead) fun _ => .pure _

/-- Where the brace of initial values is missing, the first value is an expression. -/
theorem enters_initializer (hexpression : Agree (n + 1) (r (.expression 0)) (r' (.expression 0))) :
    Enters n (fun _ => True) (fun ts => Lookahead.kind ts = .lBrace) (initializer r)
      (initializer r') := by
  have hvalue : Agree n (isAt .lBrace >>= fun nested =>
      if nested then r .initializer else expression r) _ :=
    (Agree.ask _).bind fun _ => .ite (fun _ => h _) fun _ => h _
  refine .cases ((EntersIf.node (by simp) (.behind (enters_require (by decide) _) fun _ => ?_)).weaken
    fun _ => And.right) ?_
  · exact (Agree.separatedUntil _ hvalue).bind fun _ => .require _ _
  · refine AgreeIf.weaken (E := fun ts => Lookahead.kind ts ≠ .lBrace) ?_ fun _ => And.right
    refine .node (by simp) (.seq (Leaves.require_of_not _) fun _ => ?_)
    refine AgreeIf.bind (Steps.loop ?_ ?_) fun _ => Agree.require _ _
    · refine .ask_bind fun _ => .ite (fun _ => .stop) fun _ => .behind ?_ fun _ => .eat (by decide)
      refine .ask_bind fun _ => .ite (fun hat => ?_) fun _ => hexpression.under
      rintro s ⟨⟨hne, -⟩, hts⟩
      exact absurd (eq_of_beq (hts.trans hat)) hne
    · exact (Agree.ask _).bind fun _ => .ite (fun _ => .pure _) fun _ => hvalue.bind fun _ => .eat _

/-! ## Statements -/

theorem agree_variableDeclarator : Agree n (variableDeclarator r) (variableDeclarator r') := by
  refine .node ((Agree.require _ _).bind fun _ => (Agree.ask _).bind fun _ => ?_)
  refine .opt (agree_bracketedArgumentList h) fun _ => (Agree.ask _).bind fun _ => ?_
  exact .ite (fun _ => agree_equalsValueClause h) fun _ => .pure _

theorem agree_variableDeclarators : Agree n (variableDeclarators r) (variableDeclarators r') :=
  .separated (agree_variableDeclarator h)

theorem agree_variableDeclaration : Agree n (variableDeclaration r) (variableDeclaration r') :=
  .node (agree_type.bind fun _ => agree_variableDeclarators h)

theorem enters_variableDeclaration : EntersIf n (fun ts => Lookahead.atType ts = true)
    (variableDeclaration r) (variableDeclaration r') :=
  .node (by simp) (.behind (enters_type.entersIf.weaken fun _ hts => ⟨trivial, hts⟩) fun _ =>
    agree_variableDeclarators h)

theorem agree_embeddedStatement : Agree n (embeddedStatement r) (embeddedStatement r') :=
  (Agree.ask _).bind fun _ => .ite (fun _ => Agree.complain _) fun _ => h _

theorem agree_parenthesizedCondition :
    Agree n (parenthesizedCondition r) (parenthesizedCondition r') :=
  (Agree.require _ _).bind fun _ => (h _).bind fun _ => .require _ _

theorem enters_jump (kind : Kind) (missing : String) : EntersIf n
    (fun ts => Lookahead.kind ts ≠ .eof) (jump r kind missing) (jump r' kind missing) :=
  .node (by simp) (.behind enters_bump fun _ => (Agree.ask _).bind fun _ =>
    .ite (fun _ => Agree.require _ _) fun _ => (h _).bind fun _ => .require _ _)

theorem enters_ifStatement : EntersIf n (fun ts => Lookahead.kind ts ≠ .eof) (ifStatement r)
    (ifStatement r') := by
  refine .node (by simp) (.behind enters_bump fun _ => (agree_parenthesizedCondition h).bind fun _ => ?_)
  refine (agree_embeddedStatement h).bind fun _ => (Agree.ask _).bind fun _ =>
    .ite (fun _ => ?_) fun _ => .pure _
  exact Agree.node (Agree.bump.bind fun _ => agree_embeddedStatement h)

theorem enters_whileStatement : EntersIf n (fun ts => Lookahead.kind ts ≠ .eof) (whileStatement r)
    (whileStatement r') :=
  .node (by simp) (.behind enters_bump fun _ => (agree_parenthesizedCondition h).bind fun _ =>
    agree_embeddedStatement h)

theorem agree_expressionList (terminator : Kind) :
    Agree n (expressionList r terminator) (expressionList r' terminator) :=
  .loop ((h _).bind fun _ => (Agree.ask _).bind fun _ => .ite (fun _ => .pure _) fun _ => Agree.eat _)

theorem enters_forStatement : EntersIf n (fun ts => Lookahead.kind ts ≠ .eof) (forStatement r)
    (forStatement r') := by
  have hend : Agree n (require .rParen "expected `)`" >>= fun _ => embeddedStatement r)
      (require .rParen "expected `)`" >>= fun _ => embeddedStatement r') :=
    (Agree.require _ _).bind fun _ => agree_embeddedStatement h
  have hsteps : Agree n (require .semicolon "expected `;`" >>= fun _ =>
      isAt .rParen >>= fun closed =>
        if closed then
          require .rParen "expected `)`" >>= fun _ => embeddedStatement r
        else
          expressionList r .rParen >>= fun _ => require .rParen "expected `)`" >>= fun _ =>
            embeddedStatement r) _ :=
    (Agree.require _ _).bind fun _ => (Agree.ask _).bind fun _ =>
      .ite (fun _ => hend) fun _ => (agree_expressionList h _).bind fun _ => hend
  have hcondition : Agree n (require .semicolon "expected `;`" >>= fun _ =>
      isAt .semicolon >>= fun empty => if empty then _ else expression r >>= fun _ => _) _ :=
    (Agree.require _ _).bind fun _ => (Agree.ask _).bind fun _ =>
      .ite (fun _ => hsteps) fun _ => (h _).bind fun _ => hsteps
  refine .node (by simp) (.behind enters_bump fun _ => (Agree.require _ _).bind fun _ => ?_)
  refine (Agree.ask _).bind fun _ => .ite (fun _ => hcondition) fun _ => (Agree.ask _).bind fun _ => ?_
  exact .ite (fun _ => (agree_variableDeclaration h).bind fun _ => hcondition) fun _ =>
    (agree_expressionList h _).bind fun _ => hcondition

theorem enters_forEachStatement : EntersIf n (fun ts => Lookahead.kind ts ≠ .eof)
    (forEachStatement r) (forEachStatement r') := by
  refine .node (by simp) (.behind enters_bump fun _ => (Agree.require _ _).bind fun _ => ?_)
  refine agree_type.bind fun _ => (Agree.require _ _).bind fun _ => (Agree.require _ _).bind fun _ => ?_
  exact (h _).bind fun _ => (Agree.require _ _).bind fun _ => agree_embeddedStatement h

theorem enters_constantDeclaration : EntersIf n (fun ts => Lookahead.kind ts ≠ .eof)
    (constantDeclaration r) (constantDeclaration r') :=
  .node (by simp) (.behind (enters_leaf _) fun _ => (agree_variableDeclaration h).bind fun _ =>
    .require _ _)

theorem enters_plainStatement {T : Prop} (hexpression : Enters n (fun _ => True)
      (fun ts => T ∧ Lookahead.opensExpression (Lookahead.kind ts) = true) (r (.expression 0))
      (r' (.expression 0))) :
    Enters n (fun _ => True) (fun ts => T ∧ Lookahead.kind ts ≠ .eof) (plainStatement r)
      (plainStatement r') := by
  refine .ask_bind fun a => .ite (fun ha => ?_) fun _ => .ask_bind fun k => .ite (fun hk => ?_) fun _ => ?_
  · refine (EntersIf.node (by simp) ((enters_variableDeclaration h).bind fun _ => .require _ _)).always ?_
    rintro ts ⟨-, hts⟩
    exact atType_of_atLocalDeclaration (hts.trans ha)
  · refine ((Enters.node (by simp) (by simp) (hexpression.bind fun _ => .require _ _)).weaken
      fun _ _ => trivial).imp ?_
    rintro ts ⟨-, rfl⟩ hd
    exact ⟨hd.1, hk⟩
  · exact ((Enters.node (by simp) (by simp) (.complain_bind fun _ => enters_skip)).weaken
      fun _ _ => trivial).imp fun _ _ => And.right

theorem enters_statement {T : Prop} (hexpression : Enters n (fun _ => True)
      (fun ts => T ∧ Lookahead.opensExpression (Lookahead.kind ts) = true) (r (.expression 0))
      (r' (.expression 0))) :
    Enters n (fun _ => True) (fun ts => T ∧ Lookahead.kind ts ≠ .eof) (statement r)
      (statement r') := by
  have hword : ∀ kind, EntersIf n (fun ts => Lookahead.kind ts ≠ .eof)
      (node kind (bump >>= fun _ => require .semicolon "expected `;`")) _ := fun _ =>
    .node (by simp) (.behind enters_bump fun _ => .require _ _)
  refine .ask_bind fun k => ?_
  split
  case h_1 => exact (enters_block h).always fun _ => And.right
  case h_2 => exact (enters_leaf _).always (ne_eof_of_and_eq (by decide))
  case h_3 | h_4 => exact (enters_jump h _ _).always (ne_eof_of_and_eq (by decide))
  case h_5 | h_6 => exact (hword _).always (ne_eof_of_and_eq (by decide))
  case h_7 => exact (enters_ifStatement h).always (ne_eof_of_and_eq (by decide))
  case h_8 => exact (enters_whileStatement h).always (ne_eof_of_and_eq (by decide))
  case h_9 => exact (enters_forStatement h).always (ne_eof_of_and_eq (by decide))
  case h_10 => exact (enters_forEachStatement h).always (ne_eof_of_and_eq (by decide))
  case h_11 => exact (enters_constantDeclaration h).always (ne_eof_of_and_eq (by decide))
  case h_12 => exact (enters_plainStatement h hexpression).weaken fun _ _ => trivial

/-! ## Parts of declarations -/

omit h in
theorem agree_modifiers : Agree n modifiers modifiers :=
  (Agree.ask _).bind fun _ => .ite (fun _ => Agree.node (.whileAhead Agree.bump.under)) fun _ => .pure _

omit h in
/-- The bound on the tokens of constraints does not matter if as many are pending. -/
theorem agree_constraintTail {fuel fuel' : Nat} (hfuel : n ≤ fuel) (hfuel' : n ≤ fuel')
    (depth : Nat) : Agree (n + 1) (constraintTail fuel depth) (constraintTail fuel' depth) := by
  induction n generalizing fuel fuel' depth with
  | zero =>
      intro s _ hn
      have heof := kind_eq_eof (Nat.lt_one_iff.mp hn)
      have hstop : ∀ fuel, (constraintTail fuel depth).run s = ((), s) := by
        intro fuel
        cases fuel with
        | zero => rfl
        | succ fuel =>
            show (ite ((Lookahead.kind s.rest == .eof || _) = true) _ _ : Parser Unit).run s = _
            rw [if_pos (by simp [heof])]
            rfl
      rw [hstop, hstop]
      exact ⟨rfl, List.suffix_refl _⟩
  | succ n ih =>
      obtain ⟨fuel, rfl⟩ := Nat.exists_eq_add_one_of_ne_zero (Nat.ne_zero_of_lt hfuel)
      obtain ⟨fuel', rfl⟩ := Nat.exists_eq_add_one_of_ne_zero (Nat.ne_zero_of_lt hfuel')
      have hmore := fun depth =>
        ih (Nat.le_of_succ_le_succ hfuel) (Nat.le_of_succ_le_succ hfuel') depth
      refine .ask_bind fun k => .ask_bind fun stops => .ite (fun _ => .pure _) fun hgoes => ?_
      refine (AgreeIf.behind takes_bump fun _ => ?_).weaken ?_
      · exact .ite (fun _ => hmore _) fun _ => .ite (fun _ => hmore _) fun _ => hmore _
      · rintro ts ⟨⟨-, rfl⟩, rfl⟩ heof
        simp [heof] at hgoes

omit h in
theorem enters_constraintClause : EntersIf n (fun ts => Lookahead.atWord "where" ts = true)
    (node .typeParameterConstraintClause (bump >>= fun _ =>
      require .identifier "expected type parameter name" >>= fun _ =>
        require .colon "expected `:`" >>= fun _ => get >>= fun s => constraintTail s.rest.length 0))
    (node .typeParameterConstraintClause (bump >>= fun _ =>
      require .identifier "expected type parameter name" >>= fun _ =>
        require .colon "expected `:`" >>= fun _ => get >>= fun s => constraintTail s.rest.length 0)) := by
  refine (EntersIf.node (by simp) (.behind enters_bump fun _ => (Agree.require _ _).bind fun _ =>
    (Agree.require _ _).bind fun _ s _ _ => ?_)).weaken ?_
  · have hagree : Agree (s.rest.length + 1) (constraintTail s.rest.length 0) _ :=
      agree_constraintTail (Nat.le_refl _) (Nat.le_refl _) 0
    rw [run_get_bind]
    exact hagree s trivial (Nat.lt_succ_of_le (pending_le_length _))
  · intro ts hts heof
    simp [Lookahead.atWord, heof] at hts

omit h in
theorem agree_constraintClauses : Agree n constraintClauses constraintClauses :=
  .whileAhead (enters_constraintClause.ahead.mono (Nat.le_succ n))

omit h in
theorem agree_typeParameter : Agree n typeParameter typeParameter :=
  .node (agree_attributeLists.bind fun _ => (Agree.ask _).bind fun _ =>
    .opt Agree.bump fun _ => .require _ _)

omit h in
theorem agree_typeParameterList : Agree n typeParameterList typeParameterList :=
  .node ((Agree.require _ _).bind fun _ => (Agree.separated agree_typeParameter).bind fun _ =>
    .require _ _)

omit h in
theorem agree_baseList : Agree n baseList baseList :=
  .node ((Agree.require _ _).bind fun _ => .separated agree_type)

theorem agree_parameterList : Agree n (parameterList r) (parameterList r') :=
  .node ((Agree.expect _ _).bind fun _ => .ite (fun _ => (Agree.separatedUntil _
    (agree_parameter h false)).bind fun _ => .require _ _) fun _ => .pure _)

theorem agree_arrowExpressionClause : Agree n (arrowExpressionClause r) (arrowExpressionClause r') :=
  .node ((Agree.require _ _).bind fun _ => h _)

theorem agree_bodyOrSemicolon : Agree n (bodyOrSemicolon r) (bodyOrSemicolon r') := by
  refine (Agree.ask _).bind fun k => ?_
  split
  · exact agree_block h
  · exact (agree_arrowExpressionClause h).bind fun _ => .require _ _
  · exact .require _ _

theorem enters_accessor : Enters n (fun _ => True) (fun ts => Lookahead.kind ts ≠ .eof) (accessor r)
    (accessor r') := by
  refine .node (by simp) (by simp) (.after agree_attributeLists (by simp) fun _ =>
    .after agree_modifiers (by simp) fun _ => ?_)
  exact enters_eat_bind (by decide) (agree_bodyOrSemicolon h) (.complain_bind fun _ => enters_skip)

theorem agree_accessorList : Agree n (accessorList r) (accessorList r') :=
  .node ((Agree.require _ _).bind fun _ =>
    (Agree.untilAny ((enters_accessor h).ahead.mono (Nat.le_succ n)).under).bind fun _ => .require _ _)

omit h in
theorem agree_optionalSemicolon : Agree n optionalSemicolon optionalSemicolon :=
  (Agree.eat _).bind fun _ => .pure _

/-! ## Declarations -/

theorem enters_typeDeclaration (start : Nat) (kind : Kind) :
    EntersIf n (fun ts => Lookahead.kind ts ≠ .eof) (typeDeclaration r start kind)
      (typeDeclaration r' start kind) := by
  refine .nodeFrom (.behind enters_bump fun _ => (Agree.require _ _).bind fun _ =>
    (Agree.ask _).bind fun _ => .opt agree_typeParameterList fun _ => ?_)
  refine (Agree.ask _).bind fun _ => .opt agree_baseList fun _ => agree_constraintClauses.bind fun _ => ?_
  refine (Agree.expect _ _).bind fun _ => .ite (fun _ => ?_) fun _ => agree_optionalSemicolon
  exact (Agree.untilAny (h _).under).bind fun _ => (Agree.require _ _).bind fun _ =>
    agree_optionalSemicolon

theorem agree_enumMember : Agree n (enumMember r) (enumMember r') :=
  .node (agree_attributeLists.bind fun _ => (Agree.require _ _).bind fun _ => (Agree.ask _).bind fun _ =>
    .ite (fun _ => agree_equalsValueClause h) fun _ => .pure _)

theorem enters_enumDeclaration (start : Nat) : EntersIf n (fun ts => Lookahead.kind ts ≠ .eof)
    (enumDeclaration r start) (enumDeclaration r' start) := by
  refine .nodeFrom (.behind enters_bump fun _ => (Agree.require _ _).bind fun _ =>
    (Agree.ask _).bind fun _ => .opt agree_baseList fun _ => (Agree.expect _ _).bind fun _ => ?_)
  refine .ite (fun _ => (Agree.loop ?_).bind fun _ => (Agree.require _ _).bind fun _ =>
    agree_optionalSemicolon) fun _ => agree_optionalSemicolon
  exact (Agree.ask _).bind fun _ => .ite (fun _ => (agree_enumMember h).bind fun _ => .eat _) fun _ =>
    .pure _

theorem enters_delegateDeclaration (start : Nat) : EntersIf n (fun ts => Lookahead.kind ts ≠ .eof)
    (delegateDeclaration r start) (delegateDeclaration r' start) := by
  refine .nodeFrom (.behind enters_bump fun _ => agree_type.bind fun _ => (Agree.require _ _).bind fun _ =>
    (Agree.ask _).bind fun _ => .opt agree_typeParameterList fun _ => ?_)
  exact (agree_parameterList h).bind fun _ => agree_constraintClauses.bind fun _ => .require _ _

theorem agree_constructorInitializer :
    Agree n (constructorInitializer r) (constructorInitializer r') := by
  have hend : Agree n (isAt .lParen >>= fun opened =>
      if opened then argumentList r else pure ()) _ :=
    (Agree.ask _).bind fun _ => .ite (fun _ => agree_argumentList h) fun _ => .pure _
  refine Agree.bump.bind fun _ => (Agree.ask _).bind fun _ => .ite (fun _ => ?_) fun _ => ?_
  · exact Agree.bump.bind fun _ => hend
  · exact (Agree.complain _).bind fun _ => hend

theorem enters_constructorDeclaration (start : Nat) : EntersIf n
    (fun ts => Lookahead.kind ts ≠ .eof) (constructorDeclaration r start)
      (constructorDeclaration r' start) :=
  .nodeFrom (.behind enters_bump fun _ => (agree_parameterList h).bind fun _ =>
    (Agree.ask _).bind fun _ => .opt (agree_constructorInitializer h) fun _ => agree_bodyOrSemicolon h)

theorem enters_methodDeclaration (start : Nat) : EntersIf n (fun ts => Lookahead.kind ts ≠ .eof)
    (methodDeclaration r start) (methodDeclaration r' start) :=
  .nodeFrom (.behind enters_bump fun _ => (Agree.ask _).bind fun _ =>
    .opt agree_typeParameterList fun _ => (agree_parameterList h).bind fun _ =>
      agree_constraintClauses.bind fun _ => agree_bodyOrSemicolon h)

theorem enters_propertyDeclaration (start : Nat) : EntersIf n (fun ts => Lookahead.kind ts ≠ .eof)
    (propertyDeclaration r start) (propertyDeclaration r' start) := by
  refine .nodeFrom (.behind enters_bump fun _ => (Agree.ask _).bind fun _ => .ite (fun _ => ?_) fun _ => ?_)
  · exact (agree_arrowExpressionClause h).bind fun _ => .require _ _
  · refine (agree_accessorList h).bind fun _ => (Agree.ask _).bind fun _ => ?_
    exact .ite (fun _ => (agree_equalsValueClause h).bind fun _ => .require _ _) fun _ => .pure _

theorem agree_fieldDeclaration (start typeStart : Nat) :
    Agree n (fieldDeclaration r start typeStart) (fieldDeclaration r' start typeStart) :=
  .nodeFrom ((AgreeIf.nodeFrom (agree_variableDeclarators h)).bind fun _ => .require _ _)

/-! ## Members -/

omit h in
theorem steps_skipMemberPart : Steps n (fun _ => True) skipMemberPart skipMemberPart := by
  refine .ask_bind fun k => .ite (fun _ => .stop) fun hk => ?_
  have hne : ∀ ts, True ∧ Lookahead.kind ts = k → Lookahead.kind ts ≠ .eof := by
    rintro ts ⟨-, rfl⟩ heof
    simp [heof] at hk
  refine .ite (fun _ => ?_) fun _ => .ite (fun hbrace => ?_) fun _ => ?_
  · exact .of_enters (enters_bump.weaken hne) false
  · refine .of_enters_bind (.of_takes ((takes_skipBracketed (by decide)).weaken ?_)) fun _ => .ask _
    rintro ts ⟨-, rfl⟩
    exact eq_of_beq hbrace
  · exact .of_enters (enters_bump.weaken hne) true

omit h in
theorem agree_skipMember : Agree n skipMember skipMember :=
  .loop (steps_skipMemberPart.ahead.mono (Nat.le_succ n))

theorem enters_typedMember (start : Nat) : EntersIf n (fun ts => Lookahead.atType ts = true)
    (typedMember r start) (typedMember r' start) := by
  refine .mark_bind (by simp) (by simp) fun typeStart => .behind
    (enters_type.entersIf.weaken fun _ hts => ⟨trivial, hts⟩) fun _ => ?_
  refine .ask_bind fun follower => ?_
  split
  case h_1 | h_2 =>
    exact ((enters_methodDeclaration h start).ahead.mono (Nat.le_succ n)).weaken
      fun _ hts => ne_eof_of_follower hts.2
  case h_3 | h_4 =>
    exact ((enters_propertyDeclaration h start).ahead.mono (Nat.le_succ n)).weaken
      fun _ hts => ne_eof_of_follower hts.2
  case h_5 => exact (agree_fieldDeclaration h start typeStart).under
  case h_6 => exact AgreeIf.under (.nodeFrom ((Agree.complain _).bind fun _ => agree_skipMember))

theorem enters_memberAfter (start : Nat) : Enters n (fun _ => True)
    (fun ts => Lookahead.kind ts ≠ .eof) (memberAfter r start) (memberAfter r' start) := by
  refine .ask_bind fun k => ?_
  split
  case h_1 | h_2 | h_3 => exact (enters_typeDeclaration h start _).always (ne_eof_of_and_eq (by decide))
  case h_4 => exact (enters_enumDeclaration h start).always (ne_eof_of_and_eq (by decide))
  case h_5 => exact (enters_delegateDeclaration h start).always (ne_eof_of_and_eq (by decide))
  case h_6 =>
    refine .ask_bind fun _ => .ite (fun hk => ?_) fun _ => .ask_bind fun _ => .ite (fun ha => ?_) fun _ => ?_
    · refine (enters_constructorDeclaration h start).always ?_
      rintro ts ⟨⟨-, rfl⟩, -⟩ heof
      simp [heof] at hk
    · exact (enters_typedMember h start).always fun ts hts => hts.2.trans ha
    · exact .nodeFrom (.complain_bind fun _ => enters_skip.bind fun _ => agree_skipMember)

omit h in
theorem agree_declarationFront : Agree n declarationFront declarationFront :=
  agree_attributeLists.bind fun _ => agree_modifiers

theorem enters_member : Enters n (fun _ => True) (fun ts => Lookahead.kind ts ≠ .eof) (member r)
    (member r') :=
  .mark_bind (by simp) (by simp) fun start => .after agree_declarationFront (by simp) fun _ =>
    enters_memberAfter h start

omit h in
theorem enters_usingDirective : EntersIf n (fun ts => Lookahead.kind ts = .usingKw) usingDirective
    usingDirective := by
  have hend : Agree n (type >>= fun _ => require .semicolon "expected `;` after using directive")
      (type >>= fun _ => require .semicolon "expected `;` after using directive") :=
    agree_type.bind fun _ => .require _ _
  refine .node (by simp) (.behind (enters_require (by decide) _) fun _ => (Agree.ask _).bind fun _ =>
    .opt Agree.bump fun _ => (Agree.ask _).bind fun _ => (Agree.ask _).bind fun _ => ?_)
  exact .ite (fun _ => Agree.bump.bind fun _ => Agree.bump.bind fun _ => hend) fun _ => hend

theorem enters_namespaceDeclaration (start : Nat) :
    EntersIf n (fun ts => Lookahead.kind ts = .namespaceKw) (namespaceDeclaration r start)
      (namespaceDeclaration r' start) := by
  refine .behind (enters_require (by decide) _) fun _ =>
    ((enters_name agree_type false).ahead.mono (Nat.le_succ n)).bind fun _ => ?_
  refine (Agree.ask _).bind fun _ => .ite (fun _ => ?_) fun _ => ?_
  · exact .nodeFrom (Agree.bump.bind fun _ => h _)
  · exact .nodeFrom ((Agree.require _ _).bind fun _ => (h _).bind fun _ =>
      (Agree.require _ _).bind fun _ => agree_optionalSemicolon)

theorem enters_namespaceMember : Enters n (fun _ => True) (fun ts => Lookahead.kind ts ≠ .eof)
    (namespaceMember r) (namespaceMember r') := by
  refine .mark_bind (by simp) (by simp) fun start => .after agree_declarationFront (by simp) fun _ => ?_
  refine .ask_bind fun _ => .ite (fun hat => ?_) fun _ => ?_
  · exact (enters_namespaceDeclaration h start).always fun ts hts => eq_of_beq (hts.2.trans hat)
  · exact (enters_memberAfter h start).weaken fun _ _ => trivial

omit h in
theorem enters_strayTokens : Enters n (fun _ => True) (fun ts => Lookahead.kind ts ≠ .eof) strayTokens
    strayTokens :=
  .node (by simp) (by simp) (.complain_bind fun _ => enters_skip.bind fun _ => .skipTo _)

theorem steps_namespaceItem (inBlock : Bool) :
    Steps n (fun _ => True) (namespaceItem r inBlock) (namespaceItem r' inBlock) := by
  refine .ask_bind fun k => .ite (fun _ => .stop) fun hk => ?_
  have hne : ∀ ts, True ∧ Lookahead.kind ts = k → True ∧ Lookahead.kind ts ≠ .eof := by
    rintro ts ⟨-, rfl⟩
    simp_all
  refine .ite (fun husing => ?_) fun _ => .ask_bind fun _ => .ite (fun _ => ?_) fun _ => ?_
  · exact .of_enters (enters_usingDirective.weaken fun ts hts => hts.2.trans (eq_of_beq husing)) true
  · exact .of_enters ((enters_namespaceMember h).entersIf.weaken fun ts hts => hne ts hts.1) true
  · exact .of_enters (enters_strayTokens.entersIf.weaken fun ts hts => hne ts hts.1) true

end

/-! ## The whole grammar -/

/-- The order of the constructs: a reader calls those of a lower rank before it took a token. -/
def Construct.rank : Construct → Nat
  | .unary => 0
  | .expression _ => 1
  | .namespaceBody _ | .member | .statement | .initializer => 2

theorem Construct.rank_le (c : Construct) : c.rank ≤ 2 := by
  cases c <;> simp [rank]

/-- What stands ahead where a construct takes a token in any case. -/
def Construct.Opens : Construct → List Token → Prop
  | .namespaceBody _, _ => False
  | .member, ts | .statement, ts => Lookahead.kind ts ≠ .eof
  | .expression _, ts | .unary, ts => Lookahead.opensExpression (Lookahead.kind ts) = true
  | .initializer, ts => Lookahead.kind ts = .lBrace

/-- A reader depends on the rules for fewer pending tokens, and on those for constructs
of a lower rank. -/
theorem enters_construct {r r' : Rules} {T : Prop} {c : Construct} (h : ∀ c, Agree n (r c) (r' c))
    (hlower : ∀ c', c'.rank < c.rank →
      Enters n (fun _ => True) (fun ts => T ∧ c'.Opens ts) (r c') (r' c')) :
    Enters n (fun _ => True) (fun ts => T ∧ c.Opens ts) (construct r c) (construct r' c) := by
  cases c with
  | namespaceBody inBlock =>
      exact .of_agree (Agree.loop (steps_namespaceItem h inBlock).ahead) fun _ _ hd => hd.2
  | member => exact (enters_member h).imp fun _ _ hd => hd.2
  | statement => exact enters_statement h (hlower (.expression 0) (by decide))
  | expression power =>
      refine enters_expressionAbove h ?_ (hlower .unary (by simp [Construct.rank])) power
      rintro ts ⟨ht, hd⟩
      exact ⟨ht, by simpa [Construct.Opens] using hd⟩
  | unary => exact (enters_unary h).imp fun _ _ hd => hd.2
  | initializer =>
      exact (enters_initializer h (hlower (.expression 0) (by decide)).ahead).imp fun _ _ hd => hd.2

/-- The rules for constructs that nest at most `depth` deep, and `base` for what is deeper. -/
def withinOr (base : Rules) : Nat → Rules
  | 0 => base
  | depth + 1 => construct (withinOr base depth)

theorem withinOr_pure (depth : Nat) : withinOr (fun _ => pure ()) depth = within depth := by
  induction depth with
  | zero => rfl
  | succ depth ih => rw [withinOr, within, ih]

/-- What is deeper than the tokens allow is never read. -/
theorem enters_withinOr {base base' : Rules} {depth depth' : Nat} {c : Construct}
    (h : 3 * n + c.rank < depth) (h' : 3 * n + c.rank < depth') :
    Enters n (fun _ => True) (fun ts => True ∧ c.Opens ts) (withinOr base depth c)
      (withinOr base' depth' c) := by
  induction hmeasure : 3 * n + c.rank using Nat.strong_induction_on generalizing n c depth depth' with
  | _ measure ih =>
      obtain ⟨depth, rfl⟩ := Nat.exists_eq_add_one_of_ne_zero (Nat.ne_zero_of_lt h)
      obtain ⟨depth', rfl⟩ := Nat.exists_eq_add_one_of_ne_zero (Nat.ne_zero_of_lt h')
      refine enters_construct (fun c' => ?_) fun c' hc' => ?_
      · have hrank := c'.rank_le
        cases n with
        | zero => exact fun s _ hlt => absurd hlt (Nat.not_lt_zero _)
        | succ n => exact (ih (3 * n + c'.rank) (by omega) (by omega) (by omega) rfl).ahead
      · exact ih (3 * n + c'.rank) (by omega) (by omega) (by omega) rfl

/-- The rules of the grammar, which nest as deep as the tokens ahead allow. -/
def whole : Rules := fun c => do within (nestingBound (← get).rest) c

theorem whole_eq_within (c : Construct) (s : ParserState) :
    (whole c).run s = (within (nestingBound s.rest) c).run s := by
  rw [whole, run_get_bind]

theorem lt_nestingBound (ts : List Token) (c : Construct) :
    3 * pending ts + c.rank < nestingBound ts := by
  have hlength := pending_le_length ts
  have hrank := c.rank_le
  rw [nestingBound]
  omega

/-- How deep the whole grammar may nest does not matter. -/
theorem enters_whole {base : Rules} {depth : Nat} {c : Construct} (h : 3 * n + c.rank < depth) :
    Enters n (fun _ => True) (fun ts => True ∧ c.Opens ts) (whole c) (withinOr base depth c) := by
  intro s _ hn
  have hbound := lt_nestingBound s.rest c
  have hdepth : 3 * pending s.rest + c.rank < depth := by omega
  rw [whole_eq_within, ← withinOr_pure]
  exact enters_withinOr hbound hdepth s trivial (Nat.lt_succ_self _)

theorem whole_run (c : Construct) (s : ParserState) :
    (whole c).run s = (construct whole c).run s := by
  have hrank := c.rank_le
  have hstep : Enters (pending s.rest) (fun _ => True) (fun ts => True ∧ c.Opens ts)
      (construct whole c) (construct (withinOr whole (3 * pending s.rest + 3)) c) := by
    refine enters_construct (fun c' => ?_) fun c' hc' => enters_whole (by omega)
    have hrank' := c'.rank_le
    exact (enters_whole (by omega)).ahead.mono (Nat.le_succ _)
  have hwhole : Enters (pending s.rest) (fun _ => True) (fun ts => True ∧ c.Opens ts)
      (whole c) (withinOr whole (3 * pending s.rest + 4) c) := enters_whole (by omega)
  calc (whole c).run s = (withinOr whole (3 * pending s.rest + 4) c).run s :=
        (hwhole s trivial (Nat.lt_succ_self _)).1
    _ = (construct whole c).run s := (hstep s trivial (Nat.lt_succ_self _)).1.symm

theorem enters_whole_self (c : Construct) :
    Enters n (fun _ => True) (fun ts => True ∧ c.Opens ts) (whole c) (whole c) := by
  intro s _ hn
  have henters : Enters n (fun _ => True) (fun ts => True ∧ c.Opens ts) (whole c)
      (withinOr whole (3 * n + c.rank + 1) c) := enters_whole (Nat.lt_succ_self _)
  exact ⟨rfl, (henters s trivial hn).2⟩

theorem shrinks_whole (c : Construct) : Shrinks (whole c) :=
  AgreeIf.shrinks fun n => (enters_whole_self c).ahead.mono (Nat.le_succ n)

theorem takes_whole (c : Construct) : Takes c.Opens (whole c) :=
  (Enters.takes fun _ => enters_whole_self c).weaken fun _ hc => ⟨trivial, trivial, hc⟩

end CSharpKit.Syntax.Grammar
