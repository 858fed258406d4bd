import CSharpKit.Proofs.Procedure
import CSharpKit.Proofs.Semantics.Binding
import CSharpKit.Proofs.Syntax.Walks

/-!
# The rules for names and types as procedures

The type of an expression and the symbol it refers to are found by rules that ask for the types
and symbols of other expressions. Here each rule is written as a procedure, with its questions in
the order in which they are asked. With given answers it gives what the rule gives. What it asks
is left before the expression by a walk from the bottom up: parts of the expression, the value of
a variable that is declared before it, or what a `foreach` around it runs over.
-/

namespace CSharpKit.Semantics

open Syntax Cursor Procedure

/-- A question about an expression. -/
inductive Question where
  | typeOf (c : Cursor)
  | symbolOf (c : Cursor)

namespace Question

/-- The expression that a question is about. -/
def place : Question → Cursor
  | typeOf c | symbolOf c => c

abbrev Answer : Question → Type
  | typeOf _ => Option Ty
  | symbolOf _ => Option Symbol

/-- The turn of a question in a walk from the bottom up. An element is asked for its symbol before
it is asked for its type. -/
def rank : Question → Nat
  | symbolOf c => 2 * c.walkRank
  | typeOf c => 2 * c.walkRank + 1

/-- A question about an element of a tree, whose turn is before a bound. -/
structure Before (t : Tree) (bound : Nat) (x : Question) : Prop where
  below : Below (.root t) x.place
  rank_lt : x.rank < bound

end Question

open Question

def Queries.answer (q : Queries) : (x : Question) → x.Answer
  | .typeOf c => q.typeOf c
  | .symbolOf c => q.symbolOf c

@[simp] theorem Queries.answer_typeOf (q : Queries) (c : Cursor) :
    q.answer (.typeOf c) = q.typeOf c := rfl

@[simp] theorem Queries.answer_symbolOf (q : Queries) (c : Cursor) :
    q.answer (.symbolOf c) = q.symbolOf c := rfl

/-- A rule with a result of a type `α`. -/
abbrev Rule := Procedure Question Question.Answer

namespace Model

variable (m : Model)

def askType (c : Cursor) : Rule (Option Ty) := query (Question.typeOf c)

def askSymbol (c : Cursor) : Rule (Option Symbol) := query (Question.symbolOf c)

/-! ## Local variables -/

/-- The type of a variable: its written type, or what `infer` tells from its value if it is
`var`. -/
def variableRule (written : Cursor) (value? : Option Cursor) (infer : Ty → Option Ty) : Rule Ty :=
  if written.focus.plainText == "var" then do
    return ((← whenSome value? askType).bind infer).getD (.error "var")
  else
    return m.resolveType written

def declaredVariableRule (name : String) (position : Nat) (declaration : Cursor) :
    Rule (Option Symbol) :=
  whenSome (declaration.declarators.find? fun d => d.name? == some name && d.stop ≤ position)
    fun declarator => whenSome declaration.type? fun written => do
      let ty ← m.variableRule written (declarator.equalsValue?.bind Cursor.expression?) some
      return some (.localVariable name (Pointer.of declarator) ty)

def foreachRule (loop : Cursor) : Rule Ty :=
  match loop.type? with
  | some written => m.variableRule written loop.collection? elementTy?
  | none => do return ((← whenSome loop.collection? askType).bind elementTy?).getD (.error "var")

def localAtRule (name : String) (position : Nat) (around inner : Cursor) :
    Rule (Option (Option Symbol)) :=
  match around.kind with
  | .simpleLambdaExpression | .parenthesizedLambdaExpression =>
    return (around.lambdaParameters.find? fun p => p.name? == some name).map fun p =>
      (m.declaredParameter? p).map .parameter
  | .block => do
    let found ← firstSome (fun s =>
      if s.kind == .localDeclarationStatement then
        whenSome s.variableDeclaration? (m.declaredVariableRule name position)
      else return none) (around.children.takeWhile fun s => s.start < position)
    return found.map some
  | .forStatement => do
    let found ← whenSome around.variableDeclaration? (m.declaredVariableRule name position)
    return found.map some
  | .forEachStatement =>
    if !(around.collection?.any fun c => c.index == inner.index) && around.name? == some name then do
      return some (some (.localVariable name (Pointer.of around) (← m.foreachRule around)))
    else return none
  | .methodDeclaration | .constructorDeclaration =>
    return some ((around.parameters.find? fun p => p.name? == some name).bind fun p =>
      (m.declaredParameter? p).map .parameter)
  | _ => return none

def localAboveRule (name : String) (position : Nat) : Cursor → Rule (Option Symbol)
  | .root _ => return none
  | .child parent i s t => do
    match ← m.localAtRule name position parent (.child parent i s t) with
    | some found => return found
    | none => localAboveRule name position parent

/-! ## Names -/

def simpleNameRule (c : Cursor) : Rule (Option Symbol) :=
  whenSome c.name? fun name => do
    let arguments := c.typeArguments
    let local? ← (if arguments.isEmpty then m.localAboveRule name c.start c else pure none : Rule _)
    let scope := m.scope c
    return match local? with
      | some found => some found
      | none =>
        match scope.enclosingTypes.findSome? fun t =>
          m.memberOfType? c (m.table.instanceType t) name arguments with
        | some found => some found
        | none => globalName? scope name c.typeArgumentList?

def memberAccessRule (receiver name : Cursor) : Rule (Option Symbol) :=
  whenSome name.name? fun text => do
    match ← askSymbol receiver with
    | some (.space ns) =>
      return ((m.scope receiver).member (.space ns) name).map NameMeaning.symbol
    | some (.type ty) => return m.memberOfType? receiver ty text name.typeArguments
    | some (.methods ..) => return none
    | some value => return (m.table.typeOfSymbol? value).bind fun ty =>
        m.memberOfValue? receiver ty text name.typeArguments
    | none => whenSome (← askType receiver) fun ty =>
        return m.memberOfValue? receiver ty text name.typeArguments

def symbolRule (c : Cursor) : Rule (Option Symbol) :=
  let c := c.unparenthesized
  match c.kind with
  | .identifierName | .genericName => m.simpleNameRule c
  | .predefinedType | .aliasQualifiedName =>
    return ((m.scope c).resolveName c).map NameMeaning.symbol
  | .memberAccessExpression =>
    whenSome c.expression? fun receiver => whenSome c.accessedName? fun name =>
      m.memberAccessRule receiver name
  | _ => return none

/-! ## Calls -/

def calleeRule (call : Cursor) : Rule (Option Symbol) := whenSome call.expression? askSymbol

def argumentShapeRule (argument : Cursor) : Rule ArgumentShape :=
  match argument.expression? with
  | none => return .unknown
  | some value =>
    if value.kind.isLambda then return .lambda value.lambdaParameters.length
    else do
      match ← askType value with
      | some ty => return .typed ty
      | none => return .unknown

def callArgumentsRule (call : Cursor) : Rule CallArguments := do
  return ⟨call.arguments.map Cursor.argumentName?, ← each argumentShapeRule call.arguments⟩

def thisArgumentRule (call : Cursor) : Rule (Option Ty) := do
  match ← calleeRule call with
  | some (.methods _ _ thisArgument?) => return thisArgument?
  | _ => return none

def invokedMethodRule (call : Cursor) : Rule (Option MethodId) := do
  match ← calleeRule call with
  | some (.methods candidates receiver? thisArgument?) =>
    return Fit.choose? m.table candidates ⟨receiver?, thisArgument?, m.explicitArguments? call⟩
      (← callArgumentsRule call)
  | _ => return none

def typeArgumentsRule (call : Cursor) (method : MethodId) (receiver? : Option Ty) :
    Rule (List Ty) := do
  let arguments ← callArgumentsRule call
  let form : CallForm := ⟨receiver?, ← thisArgumentRule call, m.explicitArguments? call⟩
  return match Fit.find? m.table method form arguments with
    | some fit => fit.typeArguments
    | none => (m.table.method method).typeParams.map .error

def invocationRule (call : Cursor) : Rule (Option Ty) := do
  match ← calleeRule call with
  | some (.methods _ receiver? _) =>
    whenSome (← m.invokedMethodRule call) fun method => do
      let info := m.table.method method
      let ty := info.returnTy.through? receiver?
      if info.typeParams.isEmpty then return some ty
      return some (ty.substitute (.method method) (← m.typeArgumentsRule call method receiver?))
  | some value => return do
    let delegate ← m.table.typeOfSymbol? value
    let invoke ← m.table.invoke? (← delegate.definition?)
    return Ty.throughReceiver delegate (m.table.method invoke).returnTy
  | none => return none

/-! ## Types -/

def unaryRule (c : Cursor) : Rule (Option Ty) :=
  if c.kind == .prefixUnaryExpression && (c.token? .bang).isSome then
    return m.table.keywordTy? .boolKw
  else whenSome c.expression? askType

def binaryRule (c : Cursor) : Rule (Option Ty) :=
  let op := c.operatorText
  if comparisons.contains op then return m.table.keywordTy? .boolKw
  else whenSome c.expression? fun e => do
    whenSome (← askType e) fun left =>
      if op == "??" then return some left
      else do return some (m.arithmeticTy op left (← whenSome c.rightOperand? askType))

def typeRule (c : Cursor) : Rule (Option Ty) :=
  let c := c.unparenthesized
  match c.kind with
  | .literalExpression => return m.literalTy? c
  | .identifierName | .genericName | .memberAccessExpression => do
    return (← askSymbol c).bind m.table.typeOfSymbol?
  | .invocationExpression => m.invocationRule c
  | .objectCreationExpression | .castExpression | .asExpression | .defaultExpression =>
    return c.type?.map m.resolveType
  | .assignmentExpression => whenSome c.expression? askType
  | .conditionalExpression => whenSome c.branches.1 askType
  | .thisExpression => return ((m.scope c).enclosingTypes.head?).map m.table.instanceType
  | .isExpression => return m.table.keywordTy? .boolKw
  | .prefixUnaryExpression | .postfixUnaryExpression => m.unaryRule c
  | .binaryExpression => m.binaryRule c
  | .elementAccessExpression =>
    whenSome c.expression? fun e => do
      match ← askType e with
      | some (.array element _) => return some element
      | _ => return none
  | _ => return none

/-- The rule that answers a question. -/
def rule : (x : Question) → Rule x.Answer
  | .typeOf c => m.typeRule c
  | .symbolOf c => m.symbolRule c

/-! ## What the rules give -/

section

variable {m : Model} {q : Queries} {c : Cursor}

@[simp] theorem run_askType (c : Cursor) : (askType c).run q.answer = q.typeOf c := rfl

@[simp] theorem run_askSymbol (c : Cursor) : (askSymbol c).run q.answer = q.symbolOf c := rfl

@[simp] theorem run_variableRule (written : Cursor) (value? : Option Cursor)
    (infer : Ty → Option Ty) : (m.variableRule written value? infer).run q.answer =
      m.variableTy written ((value?.bind q.typeOf).bind infer) := by
  unfold variableRule variableTy
  split
  · simp
  · rfl

@[simp] theorem run_declaredVariableRule (name : String) (position : Nat) (declaration : Cursor) :
    (m.declaredVariableRule name position declaration).run q.answer =
      m.declaredVariable? q name position declaration := by
  simp [declaredVariableRule, declaredVariable?]

@[simp] theorem run_foreachRule (loop : Cursor) :
    (m.foreachRule loop).run q.answer = m.foreachTy q loop := by
  unfold foreachRule foreachTy
  cases loop.type? <;> simp

@[simp] theorem run_localAtRule (name : String) (position : Nat) (around inner : Cursor) :
    (m.localAtRule name position around inner).run q.answer =
      m.localAt? q name position around inner := by
  unfold localAtRule localAt?
  generalize around.kind = kind
  split
  case h_3 =>
    rw [run_bind, run_firstSome, run_pure]
    congr 2
    funext s
    split
    · simp
    · rfl
  case h_4 => simp
  case h_5 =>
    split
    · simp
    · rfl
  all_goals simp

@[simp] theorem run_localAboveRule (name : String) (position : Nat) (e : Cursor) :
    (m.localAboveRule name position e).run q.answer = m.localAbove? q name position e := by
  induction e with
  | root t => rfl
  | child parent i s t ih =>
      rw [localAboveRule, localAbove?, run_bind, run_localAtRule]
      cases m.localAt? q name position parent (.child parent i s t) with
      | none => exact ih
      | some found => rfl

@[simp] theorem run_simpleNameRule (c : Cursor) :
    (m.simpleNameRule c).run q.answer = m.simpleName? q c := by
  unfold simpleNameRule simpleName?
  rw [run_whenSome]
  congr 1
  funext name
  by_cases h : c.typeArguments.isEmpty
  · simp only [h, if_true, run_bind, run_localAboveRule]
    rfl
  · simp only [h, run_bind]
    rfl

@[simp] theorem run_memberAccessRule (receiver name : Cursor) :
    (m.memberAccessRule receiver name).run q.answer = m.memberAccess? q receiver name := by
  unfold memberAccessRule memberAccess?
  rw [run_whenSome]
  congr 1
  funext text
  rw [run_bind, run_askSymbol]
  cases q.symbolOf receiver with
  | none => simp
  | some symbol => cases symbol <;> rfl

@[simp] theorem run_symbolRule (c : Cursor) :
    (m.symbolRule c).run q.answer = m.symbolOfWith q c := by
  unfold symbolRule symbolOfWith
  dsimp only
  generalize c.unparenthesized.kind = kind
  split <;> simp

@[simp] theorem run_calleeRule (call : Cursor) :
    (calleeRule call).run q.answer = call.expression?.bind q.symbolOf := by
  simp [calleeRule]

@[simp] theorem run_argumentShapeRule (argument : Cursor) :
    (argumentShapeRule argument).run q.answer = argumentShape q argument := by
  unfold argumentShapeRule argumentShape
  cases argument.expression? with
  | none => rfl
  | some value =>
      dsimp only
      split
      · rfl
      · rw [run_bind, run_askType]
        cases q.typeOf value <;> rfl

@[simp] theorem run_callArgumentsRule (call : Cursor) :
    (callArgumentsRule call).run q.answer = callArguments q call := by
  simp [callArgumentsRule, callArguments]

@[simp] theorem run_thisArgumentRule (call : Cursor) :
    (thisArgumentRule call).run q.answer = thisArgumentWith? q call := by
  unfold thisArgumentRule thisArgumentWith?
  rw [run_bind, run_calleeRule]
  cases call.expression?.bind q.symbolOf with
  | none => rfl
  | some symbol => cases symbol <;> rfl

@[simp] theorem run_invokedMethodRule (call : Cursor) :
    (m.invokedMethodRule call).run q.answer = m.invokedMethodWith? q call := by
  unfold invokedMethodRule invokedMethodWith?
  rw [run_bind, run_calleeRule]
  cases call.expression?.bind q.symbolOf with
  | none => rfl
  | some symbol => cases symbol <;> simp

@[simp] theorem run_typeArgumentsRule (call : Cursor) (method : MethodId) (receiver? : Option Ty) :
    (m.typeArgumentsRule call method receiver?).run q.answer =
      m.typeArgumentsWith q call method receiver? := by
  simp only [typeArgumentsRule, run_bind, run_callArgumentsRule, run_thisArgumentRule, run_pure]
  rfl

@[simp] theorem run_invocationRule (call : Cursor) :
    (m.invocationRule call).run q.answer = m.invocationTy? q call := by
  unfold invocationRule invocationTy?
  rw [run_bind, run_calleeRule]
  cases call.expression? with
  | none => rfl
  | some callee =>
      rw [Option.bind_some]
      cases hsymbol : q.symbolOf callee with
      | none => simp [hsymbol]
      | some symbol =>
          simp only [Option.bind_eq_bind, Option.bind_some, hsymbol]
          cases symbol with
          | methods candidates receiver? thisArgument? =>
              rw [run_bind, run_invokedMethodRule, run_whenSome]
              congr 1
              funext method
              split
              · rfl
              · rw [run_bind, run_typeArgumentsRule]
                rfl
          | _ => rfl

@[simp] theorem run_unaryRule (c : Cursor) : (m.unaryRule c).run q.answer = m.unaryTy? q c := by
  unfold unaryRule unaryTy?
  split
  · rfl
  · simp

@[simp] theorem run_binaryRule (c : Cursor) : (m.binaryRule c).run q.answer = m.binaryTy? q c := by
  unfold binaryRule binaryTy?
  dsimp only
  split
  · rfl
  · rw [run_whenSome]
    congr 1
    funext e
    rw [run_bind, run_askType, run_whenSome]
    congr 1
    funext left
    split <;> simp

@[simp] theorem run_typeRule (c : Cursor) : (m.typeRule c).run q.answer = m.typeOfWith q c := by
  unfold typeRule typeOfWith
  dsimp only
  generalize c.unparenthesized.kind = kind
  split
  case h_17 =>
    rw [run_whenSome]
    congr 1
    funext e
    rw [run_bind, run_askType]
    cases q.typeOf e with
    | none => rfl
    | some ty => cases ty <;> rfl
  all_goals simp

/-- The procedures are the rules. -/
theorem run_rule (x : Question) : (m.rule x).run q.answer =
    Queries.answer ⟨m.typeOfWith q, m.symbolOfWith q⟩ x := by
  cases x with
  | typeOf c => exact run_typeRule c
  | symbolOf c => exact run_symbolRule c

end

/-! ## What the rules ask -/

theorem mem_children_of_collection? {loop e : Cursor} (h : loop.collection? = some e) :
    e ∈ loop.children := List.mem_of_mem_drop (List.mem_of_find?_eq_some h)

theorem exists_child_of_expression? {c d : Cursor} (hd : c.expression? = some d) :
    ∃ e ∈ c.children, Below e d := ⟨d, (mem_children_of_childOf? hd).1, Below.refl d⟩

theorem exists_child_of_expressions {c d : Cursor} {i : Nat} (hd : c.expressions[i]? = some d) :
    ∃ e ∈ c.children, Below e d :=
  ⟨d, (mem_children_of_mem_childrenOf (List.mem_of_getElem? hd)).1, Below.refl d⟩

theorem mem_of_mem_arguments {call argument : Cursor} (harg : argument ∈ call.arguments) :
    ∃ list ∈ call.children, argument ∈ list.children ∧ argument.kind = .argument := by
  cases hlist : call.argumentList? with
  | none => simp [arguments, hlist] at harg
  | some list =>
      rw [arguments, hlist, Option.map_some, Option.getD_some] at harg
      obtain ⟨hmem, hkind⟩ := mem_children_of_mem_childrenOfKind harg
      exact ⟨list, (mem_children_of_childOf? hlist).1, hmem, hkind⟩

section

variable {m : Model} {t : Tree} {bound position : Nat} {name : String} {c around inner : Cursor}
  {P : Question → Prop}

theorem asksOnly_askType (h : P (.typeOf c)) : (askType c).AsksOnly P := asksOnly_query h

theorem asksOnly_askSymbol (h : P (.symbolOf c)) : (askSymbol c).AsksOnly P := asksOnly_query h

/-! ### Local variables -/

theorem asksOnly_variableRule {written : Cursor} {value? : Option Cursor} {infer : Ty → Option Ty}
    (h : ∀ value, value? = some value → P (.typeOf value)) :
    (m.variableRule written value? infer).AsksOnly P := by
  unfold variableRule
  split
  · exact (asksOnly_whenSome fun value hvalue => asksOnly_askType (h value hvalue)).bind
      fun _ => trivial
  · trivial

/-- The value of a variable is asked for only if it is declared before the position. -/
theorem asksOnly_declaredVariableRule {declaration : Cursor}
    (h : ∀ d ∈ declaration.declarators, d.stop ≤ position → ∀ value, Below d value →
      P (.typeOf value)) : (m.declaredVariableRule name position declaration).AsksOnly P := by
  apply asksOnly_whenSome
  intro d hd
  apply asksOnly_whenSome
  intro written _
  have hbefore := List.find?_some (p := fun d : Cursor => d.name? == some name &&
    d.stop ≤ position) hd
  simp only [Bool.and_eq_true, decide_eq_true_eq] at hbefore
  refine AsksOnly.bind (asksOnly_variableRule fun value hvalue => ?_) fun _ => trivial
  obtain ⟨clause, hclause, hvalue⟩ := Option.bind_eq_some_iff.mp hvalue
  have hbelow := (below_of_mem_children (mem_children_of_child? hclause).1).trans
    (below_of_childOf? hvalue)
  exact h d (List.mem_of_find?_eq_some hd) hbefore.2 value hbelow

/-- For the variable of a `foreach`, what it runs over is asked for. -/
theorem asksOnly_foreachRule (h : ∀ e, around.collection? = some e → P (.typeOf e)) :
    (m.foreachRule around).AsksOnly P := by
  unfold foreachRule
  split
  · exact asksOnly_variableRule h
  · exact (asksOnly_whenSome fun e he => asksOnly_askType (h e he)).bind fun _ => trivial

/-- A construct around a name asks only for what the walk leaves before the name. -/
theorem asksOnly_localAtRule (hinner : inner ∈ around.elements) (hc : Below inner c)
    (hpos : 0 < c.focus.width)
    (h : ∀ e, Below around e → e.walkRank < c.walkRank → P (.typeOf e)) :
    (m.localAtRule name c.start around inner).AsksOnly P := by
  have hdown := (below_of_mem_elements hinner).trans hc
  have declared {declaration : Cursor} (hkind : declaration.kind = .variableDeclaration)
      (hplain : Plain around declaration) :
      (m.declaredVariableRule name c.start declaration).AsksOnly P := by
    apply asksOnly_declaredVariableRule
    intro d hd hstop value hvalue
    have hmem := mem_elements_of_mem_children (mem_children_of_mem_childrenOfKind hd).1
    have hplain' : Plain around d := hplain.tail ⟨hmem, by simp [hkind]⟩
    exact h value (hplain'.below.trans hvalue) (walkRank_lt_of_stop_le hplain' hdown hpos hstop hvalue)
  have child {p e : Cursor} {k : Kind} (hp : p.kind ≠ .forEachStatement)
      (he : p.child? k = some e) : e ∈ p.elements ∧ p.kind ≠ .forEachStatement :=
    ⟨mem_elements_of_mem_children (mem_children_of_child? he).1, hp⟩
  unfold localAtRule
  split
  case h_1 | h_2 | h_6 | h_7 | h_8 => trivial
  case h_3 hkind =>
    refine AsksOnly.bind (asksOnly_firstSome fun s hs => ?_) fun _ => trivial
    split
    · next hlocal =>
      apply asksOnly_whenSome
      intro declaration hdeclaration
      have hmem := mem_elements_of_mem_children ((List.takeWhile_sublist _).subset hs)
      have hplain : Plain around s := .single ⟨hmem, by simp [hkind]⟩
      apply declared (mem_children_of_child? hdeclaration).2
      exact hplain.tail (child (by simp [beq_iff_eq.mp hlocal]) hdeclaration)
    · trivial
  case h_4 hkind =>
    refine AsksOnly.bind (asksOnly_whenSome fun declaration hdeclaration => ?_) fun _ => trivial
    apply declared (mem_children_of_child? hdeclaration).2
    exact .single (child (by simp [hkind]) hdeclaration)
  case h_5 hkind =>
    split
    · next hother =>
      refine AsksOnly.bind (asksOnly_foreachRule fun e he => ?_) fun _ => trivial
      have hmem := mem_elements_of_mem_children (mem_children_of_collection? he)
      simp only [he, Option.any_some, Bool.and_eq_true, Bool.not_eq_true', beq_eq_false_iff_ne]
        at hother
      have hturn : around.turn e.index < around.turn inner.index := by
        have hne := hother.1
        simp [turn, hkind, he, hne]
      exact h e (below_of_mem_elements hmem)
        (walkRank_lt_of_turn_lt hmem hinner hturn (Below.refl e) hc)
    · trivial

theorem asksOnly_localAboveRule {e : Cursor} (he : Below (.root t) e) (hc : Below e c)
    (hpos : 0 < c.focus.width)
    (h : ∀ d, Below (.root t) d → d.walkRank < c.walkRank → P (.typeOf d)) :
    (m.localAboveRule name c.start e).AsksOnly P := by
  induction he with
  | refl => trivial
  | @tail p e hp he ih =>
      have hat : (m.localAtRule name c.start p e).AsksOnly P :=
        asksOnly_localAtRule he hc hpos fun d hd => h d (Below.trans hp hd)
      have habove := ih ((below_of_mem_elements he).trans hc)
      obtain ⟨i, s, -, rfl⟩ := mem_elements_iff.mp he
      refine hat.bind fun found => ?_
      cases found with
      | none => exact habove
      | some found => trivial

/-! ### Expressions -/

section

variable (hc : Below (.root t) c) (hbound : 2 * c.walkRank ≤ bound)
include hc hbound

/-- The parts of an expression are asked for their types before it. -/
theorem before_typeOf {d e : Cursor} (he : e ∈ c.children) (hed : Below e d) :
    (typeOf d).Before t bound := by
  have hlt := Below.walkRank_lt (mem_elements_of_mem_children he) hed
  exact ⟨(hc.trans (below_of_mem_children he)).trans hed, by simp only [rank]; omega⟩

theorem before_symbolOf {d e : Cursor} (he : e ∈ c.children) (hed : Below e d) :
    (symbolOf d).Before t bound := by
  have hlt := Below.walkRank_lt (mem_elements_of_mem_children he) hed
  exact ⟨(hc.trans (below_of_mem_children he)).trans hed, by simp only [rank]; omega⟩

theorem asksOnly_typeOfPart {o : Option Cursor}
    (ho : ∀ d, o = some d → ∃ e ∈ c.children, Below e d) :
    (whenSome o askType).AsksOnly (Before t bound) := by
  apply asksOnly_whenSome
  intro d hd
  obtain ⟨e, he, hed⟩ := ho d hd
  exact asksOnly_askType (before_typeOf hc hbound he hed)

theorem asksOnly_simpleNameRule (hpos : ∀ name, c.name? = some name → 0 < c.focus.width) :
    (m.simpleNameRule c).AsksOnly (Before t bound) := by
  apply asksOnly_whenSome
  intro name hname
  refine AsksOnly.bind ?_ fun _ => trivial
  split
  · apply asksOnly_localAboveRule hc (Below.refl c) (hpos name hname)
    intro d hd hlt
    exact ⟨hd, by simp only [rank]; omega⟩
  · trivial

theorem asksOnly_memberAccessRule {receiver member : Cursor}
    (hreceiver : c.expression? = some receiver) :
    (m.memberAccessRule receiver member).AsksOnly (Before t bound) := by
  obtain ⟨e, he, hbelow⟩ := exists_child_of_expression? hreceiver
  apply asksOnly_whenSome
  intro text _
  refine (asksOnly_askSymbol (before_symbolOf hc hbound he hbelow)).bind fun found => ?_
  split
  case h_5 =>
    refine (asksOnly_askType (before_typeOf hc hbound he hbelow)).bind fun _ => ?_
    exact asksOnly_whenSome fun _ _ => trivial
  all_goals trivial

/-! ### Calls -/

theorem asksOnly_calleeRule : (calleeRule c).AsksOnly (Before t bound) := by
  apply asksOnly_whenSome
  intro e he
  obtain ⟨child, hchild, hbelow⟩ := exists_child_of_expression? he
  exact asksOnly_askSymbol (before_symbolOf hc hbound hchild hbelow)

theorem asksOnly_argumentShapeRule {argument : Cursor} (harg : argument ∈ c.arguments) :
    (argumentShapeRule argument).AsksOnly (Before t bound) := by
  obtain ⟨list, hlist, hmem, -⟩ := mem_of_mem_arguments harg
  unfold argumentShapeRule
  split
  · trivial
  · next value hvalue =>
    have hbelow := (below_of_mem_children hmem).trans (below_of_childOf? hvalue)
    split
    · trivial
    · refine (asksOnly_askType (before_typeOf hc hbound hlist hbelow)).bind fun found => ?_
      cases found <;> trivial

theorem asksOnly_callArgumentsRule : (callArgumentsRule c).AsksOnly (Before t bound) :=
  (asksOnly_each fun _ => asksOnly_argumentShapeRule hc hbound).bind fun _ => trivial

theorem asksOnly_thisArgumentRule : (thisArgumentRule c).AsksOnly (Before t bound) := by
  refine (asksOnly_calleeRule hc hbound).bind fun found => ?_
  split <;> trivial

theorem asksOnly_invokedMethodRule : (m.invokedMethodRule c).AsksOnly (Before t bound) := by
  refine (asksOnly_calleeRule hc hbound).bind fun found => ?_
  split
  · exact (asksOnly_callArgumentsRule hc hbound).bind fun _ => trivial
  · trivial

theorem asksOnly_typeArgumentsRule (method : MethodId) (receiver? : Option Ty) :
    (m.typeArgumentsRule c method receiver?).AsksOnly (Before t bound) :=
  (asksOnly_callArgumentsRule hc hbound).bind fun _ =>
    (asksOnly_thisArgumentRule hc hbound).bind fun _ => trivial

theorem asksOnly_invocationRule : (m.invocationRule c).AsksOnly (Before t bound) := by
  refine (asksOnly_calleeRule hc hbound).bind fun found => ?_
  split
  · refine (asksOnly_invokedMethodRule hc hbound).bind fun method? => ?_
    apply asksOnly_whenSome
    intro method _
    dsimp only
    split
    · trivial
    · exact (asksOnly_typeArgumentsRule hc hbound method _).bind fun _ => trivial
  · trivial
  · trivial

theorem asksOnly_unaryRule : (m.unaryRule c).AsksOnly (Before t bound) := by
  unfold unaryRule
  split
  · trivial
  · exact asksOnly_typeOfPart hc hbound fun _ => exists_child_of_expression?

theorem asksOnly_binaryRule : (m.binaryRule c).AsksOnly (Before t bound) := by
  unfold binaryRule
  dsimp only
  split
  · trivial
  · apply asksOnly_whenSome
    intro e he
    obtain ⟨child, hchild, hbelow⟩ := exists_child_of_expression? he
    refine (asksOnly_askType (before_typeOf hc hbound hchild hbelow)).bind fun left? => ?_
    apply asksOnly_whenSome
    intro left _
    split
    · trivial
    · exact (asksOnly_typeOfPart hc hbound fun _ => exists_child_of_expressions).bind
        fun _ => trivial

end

/-! ### Rules -/

/-- The symbol of an expression asks for what the walk leaves before the expression. -/
theorem asksOnly_symbolRule (hc : Below (.root t) c) (hbound : 2 * c.walkRank ≤ bound)
    (hpos : ∀ d, Below (.root t) d → ∀ name, d.name? = some name → 0 < d.focus.width) :
    (m.symbolRule c).AsksOnly (Before t bound) := by
  have hinner := hc.trans (below_unparenthesized c)
  have hle : 2 * c.unparenthesized.walkRank ≤ bound :=
    (Nat.mul_le_mul_left 2 (below_unparenthesized c).walkRank_le).trans hbound
  unfold symbolRule
  dsimp only
  split
  · exact asksOnly_simpleNameRule hinner hle (hpos _ hinner)
  · exact asksOnly_simpleNameRule hinner hle (hpos _ hinner)
  · trivial
  · trivial
  · apply asksOnly_whenSome
    intro receiver hreceiver
    apply asksOnly_whenSome
    intro member _
    exact asksOnly_memberAccessRule hinner hle hreceiver
  · trivial

/-- The type of an expression asks for its symbol, and for what the walk leaves before it. -/
theorem asksOnly_typeRule (hc : Below (.root t) c) (hbound : 2 * c.walkRank < bound) :
    (m.typeRule c).AsksOnly (Before t bound) := by
  have hinner := hc.trans (below_unparenthesized c)
  have hle := Nat.mul_le_mul_left 2 (below_unparenthesized c).walkRank_le
  have hlt := hle.trans_lt hbound
  unfold typeRule
  dsimp only
  split
  case h_2 | h_3 | h_4 => exact (asksOnly_askSymbol ⟨hinner, hlt⟩).bind fun _ => trivial
  case h_5 => exact asksOnly_invocationRule hinner hlt.le
  case h_10 => exact asksOnly_typeOfPart hinner hlt.le fun _ => exists_child_of_expression?
  case h_11 => exact asksOnly_typeOfPart hinner hlt.le fun _ => exists_child_of_expressions
  case h_14 | h_15 => exact asksOnly_unaryRule hinner hlt.le
  case h_16 => exact asksOnly_binaryRule hinner hlt.le
  case h_17 =>
    apply asksOnly_whenSome
    intro e he
    obtain ⟨child, hchild, hbelow⟩ := exists_child_of_expression? he
    refine (asksOnly_askType (before_typeOf hinner hlt.le hchild hbelow)).bind fun found => ?_
    split <;> trivial
  all_goals trivial

/-- **Each rule asks for what comes before.** Whatever it is told, the rule for a question asks only
questions about the same tree that come before it in the walk. -/
theorem asksOnly_rule {x : Question} (hx : Below (.root t) x.place)
    (hpos : ∀ d, Below (.root t) d → ∀ name, d.name? = some name → 0 < d.focus.width) :
    (m.rule x).AsksOnly (Before t x.rank) := by
  cases x with
  | typeOf c => exact asksOnly_typeRule hx (Nat.lt_succ_self _)
  | symbolOf c => exact asksOnly_symbolRule hx (Nat.le_refl _) hpos

end

end Model

end CSharpKit.Semantics
