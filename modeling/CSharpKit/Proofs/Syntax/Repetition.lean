import CSharpKit.Proofs.Syntax.Recursion

/-!
# Loops of the parser

Every loop of the parser is listed with the step it repeats and the reader it stands
in. A step that asks for another one took a token, so no loop runs longer than
there are tokens, and the count that bounds it is never used up.
-/

namespace CSharpKit.Syntax.Grammar

open CSharpKit.Syntax.Parser

/-- A loop of the parser. -/
inductive Repetition where
  | namespaceItems (inBlock : Bool)
  | typeMembers
  | enumMembers
  | accessors
  | statements
  | declarators
  /-- Expressions in the head of a `for`, up to a token. -/
  | expressions (terminator : Kind)
  | parameters
  | lambdaParameters
  | arguments
  | indices
  /-- The lengths in one pair of brackets behind `new T`. -/
  | lengths
  | creationRanks
  /-- Initial values in braces. -/
  | values
  | typeParameters
  | bases
  | typeArguments
  /-- Further segments of a name that starts at a mark. -/
  | segments (start : Nat) (generic : Bool)
  /-- The commas in one pair of brackets of an array type. -/
  | commas
  | ranks
  | typeSuffixes (start : Nat)
  | attributeLists
  | modifiers
  | parameterModifiers
  | constraintClauses
  /-- What belongs to the operand since a mark. -/
  | postfixParts (start : Nat)
  /-- Operators behind the operand since a mark. -/
  | infixParts (power start : Nat)
  /-- Recovery: the tokens up to one of these kinds. -/
  | skipped (kinds : List Kind)
  /-- Recovery: the rest of a member that could not be read. -/
  | skippedMember

/-- A step of `untilAny`. -/
def stepUntil (kinds : List Kind) (body : Parser Unit) : Parser Bool := do
  if ← isAtAny kinds then
    return false
  else
    body
    return true

/-- A step of `whileAhead`. -/
def stepWhile (question : List Token → Bool) (body : Parser Unit) : Parser Bool := do
  if ← ask question then
    body
    return true
  else
    return false

/-- A step of `separated`. -/
def stepSeparated (item : Parser Unit) : Parser Bool := do
  item
  eat .comma

/-- A step of `separatedUntil`. -/
def stepSeparatedUntil (kinds : List Kind) (item : Parser Unit) : Parser Bool := do
  if ← isAtAny kinds then
    return false
  else
    item
    eat .comma

namespace Repetition

variable (rules : Rules)

/-- What a loop repeats. -/
def step : Repetition → Parser Bool
  | namespaceItems inBlock => namespaceItem rules inBlock
  | typeMembers => stepUntil [.rBrace, .eof] (rules .member)
  | enumMembers => do
    if ← isAtAny [.identifier, .lBracket] then
      enumMember rules
      eat .comma
    else
      return false
  | accessors => stepUntil [.rBrace, .eof] (accessor rules)
  | statements => stepUntil [.rBrace, .eof] (rules .statement)
  | declarators => stepSeparated (variableDeclarator rules)
  | expressions terminator => do
    expression rules
    if ← isAt terminator then return false else eat .comma
  | parameters => stepSeparatedUntil [.rParen, .eof] (parameter rules false)
  | lambdaParameters => stepSeparatedUntil [.rParen, .eof] (parameter rules true)
  | arguments => stepSeparatedUntil [.rParen, .eof] (argument rules)
  | indices => stepSeparatedUntil [.rBracket, .eof] (argument rules)
  | lengths => stepSeparatedUntil [.rBracket, .eof] do unless ← isAt .comma do expression rules
  | creationRanks => stepWhile (Lookahead.kind · == .lBracket) (creationRank rules)
  | values => stepSeparatedUntil [.rBrace, .eof] do
    if ← isAt .lBrace then rules .initializer else expression rules
  | typeParameters => stepSeparated typeParameter
  | bases => stepSeparated type
  | typeArguments => do
    if ← isAtAny [.greater, .eof] then
      return false
    else if ← eat .comma then
      return true
    else
      type
      eat .comma
  | segments start generic => stepWhile atSegment do
    nodeFrom start .qualifiedName do
      bump
      simpleName type generic
  | commas => eat .comma
  | ranks => stepWhile (Lookahead.kind · == .lBracket) rankSpecifier
  | typeSuffixes start => typeSuffix start
  | attributeLists => stepWhile (Lookahead.kind · == .lBracket) do
    node .attributeList (skipBracketed .lBracket .rBracket)
  | modifiers => stepWhile Lookahead.atModifier bump
  | parameterModifiers => stepWhile (Grammar.parameterModifiers.contains <| Lookahead.kind ·) bump
  | constraintClauses => stepWhile (Lookahead.atWord "where") do
    node .typeParameterConstraintClause do
      bump
      require .identifier "expected type parameter name"
      require .colon "expected `:`"
      constraintTail (← get).rest.length 0
  | postfixParts start => postfixPart rules start
  | infixParts power start => infixPart rules power start
  | skipped kinds => stepUntil (.eof :: kinds) bump
  | skippedMember => skipMemberPart

/-- The reader that a loop stands in, written out up to the loop and behind it. -/
def StandsIn (l : Repetition) : Prop :=
  match l with
  | namespaceItems inBlock => namespaceBody rules inBlock = loop (l.step rules)
  | typeMembers => ∀ start kind, typeDeclaration rules start kind = nodeFrom start kind do
      bump
      require .identifier "expected type name"
      if ← isAt .less then typeParameterList
      if ← isAt .colon then baseList
      Grammar.constraintClauses
      if ← expect .lBrace "expected `\x7b` to open type body" then
        loop (l.step rules)
        require .rBrace "expected `\x7d` to close type body"
      optionalSemicolon
  | enumMembers => ∀ start, enumDeclaration rules start = nodeFrom start .enumDeclaration do
      bump
      require .identifier "expected enum name"
      if ← isAt .colon then baseList
      if ← expect .lBrace "expected `\x7b` to open enum body" then
        loop (l.step rules)
        require .rBrace "expected `\x7d` to close enum body"
      optionalSemicolon
  | accessors => accessorList rules = node .accessorList do
      require .lBrace "expected `\x7b`"
      loop (l.step rules)
      require .rBrace "expected `\x7d` to close accessor list"
  | statements => block rules = node .block do
      require .lBrace "expected `\x7b`"
      loop (l.step rules)
      require .rBrace "expected `\x7d`"
  | declarators => variableDeclarators rules = loop (l.step rules)
  | expressions terminator => expressionList rules terminator = loop (l.step rules)
  | parameters => parameterList rules = node .parameterList do
      if ← expect .lParen "expected `(`" then
        loop (l.step rules)
        require .rParen "expected `)`"
  | lambdaParameters => ∀ isAsync,
      parenthesizedLambda rules isAsync = node .parenthesizedLambdaExpression do
        if isAsync then bump
        node .parameterList do
          bump
          loop (l.step rules)
          require .rParen "expected `)`"
        lambdaBody rules
  | arguments => argumentList rules = node .argumentList do
      require .lParen "expected `(`"
      loop (l.step rules)
      require .rParen "expected `)`"
  | indices => bracketedArgumentList rules = node .bracketedArgumentList do
      require .lBracket "expected `[`"
      loop (l.step rules)
      require .rBracket "expected `]`"
  | lengths => creationRank rules = node .arrayRankSpecifier do
      bump
      loop (l.step rules)
      require .rBracket "expected `]`"
  | creationRanks => objectCreation rules = node .objectCreationExpression do
      bump
      if ← ask Lookahead.atType then createdType
      loop (l.step rules)
      if ← isAt .lParen then argumentList rules
      if ← isAt .lBrace then rules .initializer
  | values => initializer rules = node .initializerExpression do
      require .lBrace "expected `\x7b`"
      loop (l.step rules)
      require .rBrace "expected `\x7d`"
  | typeParameters => typeParameterList = node .typeParameterList do
      require .less "expected `<`"
      loop (l.step rules)
      require .greater "expected `>`"
  | bases => baseList = node .baseList do
      require .colon "expected `:`"
      loop (l.step rules)
  | typeArguments => typeArgumentList type = node .typeArgumentList do
      require .less "expected `<`"
      loop (l.step rules)
      require .greater "expected `>`"
  | segments _ generic => name type generic = do
      let start ← mark
      nameHead type start generic
      loop ((segments start generic).step rules)
  | commas => rankSpecifier = node .arrayRankSpecifier do
      bump
      loop (l.step rules)
      require .rBracket "expected `]`"
  | ranks => rankSpecifiers = loop (l.step rules)
  | typeSuffixes _ => typeWith type = do
      let start ← mark
      let k ← peek
      if k.isPredefinedType || k == .voidKw then
        leaf .predefinedType
        loop ((typeSuffixes start).step rules)
      else if k == .identifier then
        name type true
        loop ((typeSuffixes start).step rules)
      else
        complain "expected type"
  | attributeLists => Grammar.attributeLists = loop (l.step rules)
  | modifiers => Grammar.modifiers = do
      if ← ask Lookahead.atModifier then node .modifiers (loop (l.step rules))
  | parameterModifiers => ∀ implicitType, parameter rules implicitType = node .parameter do
      Grammar.attributeLists
      if ← isAtAny Grammar.parameterModifiers then node .modifiers (loop (l.step rules))
      let bare := implicitType && (← isAt .identifier) &&
        ((← isAtNth 1 .comma) || (← isAtNth 1 .rParen))
      unless bare do type
      require .identifier "expected parameter name"
      if ← isAt .eq then equalsValueClause rules
  | constraintClauses => Grammar.constraintClauses = loop (l.step rules)
  | postfixParts _ => operand rules = do
      let start ← mark
      primary rules
      if ← grownSince start then loop ((postfixParts start).step rules)
  | infixParts power _ => expressionAbove rules power = do
      let start ← mark
      rules .unary
      if ← grownSince start then loop ((infixParts power start).step rules)
  | skipped kinds => skipTo kinds = loop (l.step rules)
  | skippedMember => skipMember = loop (l.step rules)

theorem standsIn (l : Repetition) : l.StandsIn rules := by
  cases l with
  | typeMembers => exact fun _ _ => rfl
  | enumMembers | lambdaParameters | parameterModifiers => exact fun _ => rfl
  | _ => rfl

end Repetition

/-! ## Progress -/

section

variable {n : Nat} {C : List Token → Prop}

theorem steps_until {kinds : List Kind} {body body' : Parser Unit}
    (h : EntersIf n (fun ts => kinds.contains (Lookahead.kind ts) = false) body body') :
    Steps n C (stepUntil kinds body) (stepUntil kinds body') := by
  refine .ask_bind fun a => .ite (fun _ => .stop) fun ha => .of_enters (h.weaken ?_) true
  rintro ts ⟨-, hts⟩
  exact hts.trans (Bool.eq_false_iff.mpr ha)

theorem steps_while {question : List Token → Bool} {body body' : Parser Unit}
    (h : EntersIf n (fun ts => question ts = true) body body') :
    Steps n C (stepWhile question body) (stepWhile question body') := by
  refine .ask_bind fun a => .ite (fun ha => .of_enters (h.weaken ?_) true) fun _ => .stop
  rintro ts ⟨-, hts⟩
  exact hts.trans ha

theorem steps_separated {item item' : Parser Unit} (h : Agree (n + 1) item item') :
    Steps n C (stepSeparated item) (stepSeparated item') :=
  .behind h.under fun _ => .eat (by decide)

theorem steps_separatedUntil {kinds : List Kind} {item item' : Parser Unit}
    (h : Agree (n + 1) item item') :
    Steps n C (stepSeparatedUntil kinds item) (stepSeparatedUntil kinds item') :=
  .ask_bind fun _ => .ite (fun _ => .stop) fun _ => steps_separated h

end

/-- Each step of a loop but the last takes a token. -/
theorem Repetition.progresses_step (l : Repetition) : Progresses (l.step whole) := by
  refine Steps.progresses fun n => ?_
  have hne : ∀ {kinds : List Kind}, .eof ∈ kinds → ∀ ts : List Token,
      kinds.contains (Lookahead.kind ts) = false → Lookahead.kind ts ≠ .eof := by
    intro kinds heof ts hts hkind
    rw [hkind, List.contains_iff_mem.mpr heof] at hts
    cases hts
  have hwhole : ∀ c, Agree (n + 1) (whole c) (whole c) := fun c => .of_shrinks (shrinks_whole c)
  have hbelow : ∀ c, Agree n (whole c) (whole c) := fun c => .of_shrinks (shrinks_whole c)
  have htakes : ∀ c, EntersIf n c.Opens (whole c) (whole c) := fun c => .of_takes (takes_whole c)
  cases l with
  | namespaceItems inBlock => exact steps_namespaceItem hbelow _
  | typeMembers => exact steps_until ((htakes .member).weaken (hne (by decide)))
  | enumMembers =>
      refine .ask_bind fun _ => .ite (fun _ => ?_) fun _ => .stop
      exact steps_separated (agree_enumMember hwhole)
  | accessors =>
      refine steps_until ((enters_accessor hbelow).entersIf.weaken ?_)
      exact fun ts hts => ⟨trivial, hne (by decide) ts hts⟩
  | statements => exact steps_until ((htakes .statement).weaken (hne (by decide)))
  | declarators => exact steps_separated (agree_variableDeclarator hwhole)
  | expressions terminator =>
      refine .behind (hwhole _).under fun _ => .ask_bind fun _ => ?_
      exact .ite (fun _ => .stop) fun _ => .eat (by decide)
  | parameters => exact steps_separatedUntil (agree_parameter hwhole false)
  | lambdaParameters => exact steps_separatedUntil (agree_parameter hwhole true)
  | arguments | indices => exact steps_separatedUntil (agree_argument hwhole)
  | lengths =>
      refine steps_separatedUntil ((Agree.ask _).bind fun _ => ?_)
      exact .ite (fun _ => .pure _) fun _ => hwhole _
  | creationRanks => exact steps_while ((enters_creationRank hbelow).weaken fun _ => eq_of_beq)
  | values =>
      refine steps_separatedUntil ((Agree.ask _).bind fun _ => ?_)
      exact .ite (fun _ => hwhole _) fun _ => hwhole _
  | typeParameters => exact steps_separated agree_typeParameter
  | bases => exact steps_separated agree_type
  | typeArguments =>
      refine .ask_bind fun _ => .ite (fun _ => .stop) fun _ => .eat_bind (by decide) (.pure _) ?_
      exact steps_separated agree_type
  | segments start generic =>
      refine steps_while ((Enters.nodeFrom (.behind enters_bump fun _ => ?_)).weaken ?_)
      · exact (enters_simpleName agree_type generic).ahead.mono (Nat.le_succ n)
      · intro ts hts heof
        simp [atSegment, heof] at hts
  | commas => exact .eat (by decide)
  | ranks => exact steps_while (enters_rankSpecifier.weaken fun _ => eq_of_beq)
  | typeSuffixes start => exact steps_typeSuffix start
  | attributeLists => exact steps_while (enters_attributeList.weaken fun _ => eq_of_beq)
  | modifiers => exact steps_while (enters_bump.weaken fun _ => Lookahead.ne_eof_of_atModifier)
  | parameterModifiers =>
      refine steps_while (enters_bump.weaken fun ts hts heof => ?_)
      simp [Grammar.parameterModifiers, heof] at hts
  | constraintClauses => exact steps_while enters_constraintClause
  | postfixParts start => exact steps_postfixPart hbelow start
  | infixParts power start => exact steps_infixPart hbelow power start
  | skipped kinds => exact steps_until (enters_bump.weaken (hne List.mem_cons_self))
  | skippedMember => exact steps_skipMemberPart

end CSharpKit.Syntax.Grammar
