import CSharpKit.Proofs.Syntax.Forms

/-!
# Forms of expressions and statements

The readers of types, expressions and statements make whole trees, if the rules of the
grammar do for the constructs inside: an expression is one node, and arguments, casts,
creations and the like have the parts that they are written with.
-/

namespace CSharpKit.Syntax

open Syntax.Tree CSharpKit.Syntax.Parser

namespace Grammar

variable {C : List Token → Prop} {inside : Bool} {n : Prop}

/-! ## Types -/

/-- A reader of one type node. -/
theorem forms_typeNode {p : Parser Unit} (hneat : NeatIf inside n C p)
    (h : ∀ s, Sound s → C s.rest → Yields p s fun _ new _ =>
      ∃ more, new = triviaAhead s.rest ++ more ∧ IsTypeNode more) : FormsIf inside C .type p := by
  refine .of_clean hneat fun s hs hc _ => (h s hs.sound hc).mono ?_
  rintro - new rest ⟨more, rfl, hmore⟩
  refine ⟨Each.append (OfTrivia.ahead _) fun t ht => (hmore.each t ht).whole, ?_⟩
  obtain ⟨k, cs, rfl, hk, -⟩ := hmore
  exact ⟨k, cs, by simp, hk⟩

theorem forms_type : FormsIf inside C .type type := by
  refine .of_clean neat_type.within fun s hs _ hclean => ?_
  refine ((finds_type s hs hclean).and (reads_type s hs.sound trivial)).mono ?_
  rintro - new rest ⟨⟨t, ht, rfl⟩, htypes⟩
  refine ⟨fun u hu => (htypes u hu).whole, ?_⟩
  obtain ⟨hnode, hkind⟩ := ht.isType
  cases t with
  | token => cases hnode
  | node k cs => exact ⟨k, cs, by simp, hkind⟩

theorem forms_name (generic : Bool) : FormsIf inside C .type (name type generic) :=
  forms_typeNode (neat_name neat_type generic).within fun _ hs _ =>
    yields_name reads_type generic hs

/-- A node of one token, of which nothing is said. -/
theorem forms_leaf {kind : Kind} {p : Kind → Bool} (hform : form kind = .any)
    (hkind : p kind = true) : FormsIf inside C (.node p) (leaf kind) :=
  .node (hform ▸ .bump_any) hkind

/-- A segment of a name in an expression. -/
theorem forms_expressionName : FormsIf inside C .expr expressionName := by
  have harguments : FormsIf inside (fun _ => True) .any (typeArgumentList type) :=
    .of_reads (neat_typeArgumentList neat_type).within
      ((reads_typeArgumentList reads_type).imp fun _ hnew t ht => (hnew t ht).whole)
  refine .ask_bind fun _ => .ask_bind fun _ => .ask_bind fun _ => .ite (fun _ => ?_) fun _ => ?_
  · exact .node (FormsIf.bump_any.bind fun _ => harguments) rfl
  · exact .node (FormsIf.require (by decide) _).free rfl

theorem forms_aliasQualifiedExpression : FormsIf inside C .expr aliasQualifiedExpression := by
  have hname : FormsIf inside (fun _ => True) .expr (isAt .identifier >>= fun atName =>
      if atName then expressionName else complain "expected name after `::`") :=
    .ask_bind fun _ => .ite (fun _ => forms_expressionName) fun _ => .complain _
  exact .node ((forms_leaf (p := Kind.isExpr) rfl rfl).bind fun _ =>
    FormsIf.bump_any.bind fun _ => hname) rfl

/-- The type behind `new` is one node. -/
theorem forms_createdType : FormsIf inside C .type createdType := by
  have hend : FormsFrom inside (fun _ => True) .type .type fun start =>
      isAt .question >>= fun nullable =>
        if nullable then nodeFrom start .nullableType bump else pure () :=
    .ask_bind fun _ => .ite (fun _ => .nodeFrom .bump_any (fun _ _ => trivial) rfl) fun _ => .pure _
  refine .mark_bind (.ask_bind fun _ => .ite (fun _ => ?_) fun _ => ?_)
  · exact (FormsFrom.first (forms_leaf rfl rfl)).bind fun _ => hend
  · exact (FormsFrom.first (forms_name true)).bind fun _ => hend

theorem forms_attributeLists : FormsIf inside C .any attributeLists := by
  have htokens : ∀ cs : Forest, (∀ c ∈ cs, c.isToken = true) → Whole (.node .attributeList cs) := by
    refine fun cs hcs => whole_node.mpr ⟨trivial, fun c hc => ?_⟩
    cases c with
    | token k text => exact whole_token k text
    | node k cs => exact absurd (hcs _ hc) (by simp [isToken, isNode])
  exact .of_reads neat_attributeLists.within ((reads_attributeLists htokens).weaken fun _ _ => trivial)

/-! ## Operations -/

theorem isExpr_of_isOperation (k : Kind) (h : k.isOperation = true) : k.isExpr = true := by
  revert h
  cases k <;> decide

/-- A step of a loop over operators: it stops and changes nothing, or it makes one node of what
was read since the mark, and goes on. -/
def Operates (C : List Token → Prop) (p : Nat → Parser Bool) : Prop :=
  ∀ s₀ s front, Underway s₀ → Forming false .expr s₀ s front → C s.rest →
    (p s₀.builder.mark).run s = (false, s) ∨ ((p s₀.builder.mark).run s).1 = true ∧
      Forms false .operation s₀ (p s₀.builder.mark) s

namespace Operates

variable {C' : List Token → Prop} {p q : Nat → Parser Bool}

theorem weaken (h : Operates C' p) (hC : ∀ ts, C ts → C' ts) : Operates C p :=
  fun s₀ s front hs hfront hc => h s₀ s front hs hfront (hC _ hc)

theorem stop : Operates C fun _ => pure false := fun _ _ _ _ _ _ => .inl rfl

theorem of_node {p : Nat → Parser Unit} (h : FormsFrom false C .expr .operation p) :
    Operates C fun start => p start >>= fun _ => pure true :=
  fun s₀ s front hs hfront hc => .inr ⟨rfl, h.andContinue s₀ s front hs hfront hc⟩

theorem ask_bind {α : Type} {question : List Token → α} {f : Nat → α → Parser Bool}
    (hf : ∀ a, Operates (fun ts => C ts ∧ question ts = a) (f · a)) :
    Operates C fun start => ask question >>= f start :=
  fun s₀ s front hs hfront hc => hf _ s₀ s front hs hfront ⟨hc, rfl⟩

theorem ite {c : Prop} [Decidable c] (hp : c → Operates C p) (hq : ¬c → Operates C q) :
    Operates C fun start => if c then p start else q start := by
  split
  · exact hp ‹_›
  · exact hq ‹_›

theorem forms (h : Operates C p) : FormsFrom false C .expr .expr p := by
  intro s₀ s front hs hfront hc
  rcases h s₀ s front hs hfront hc with hstop | ⟨-, new, hnew⟩
  · exact ⟨front, hstop ▸ hfront⟩
  · exact ⟨new, hnew.imp fun _ => Layout.node.imp isExpr_of_isOperation⟩

/-- A loop that does not stop at once ends with the node of an operation. -/
theorem loop (h : Operates (fun _ => True) p) {s₀ s : ParserState} {front : Forest}
    (hs : Underway s₀) (hfront : Forming false .expr s₀ s front) :
    (loop (p s₀.builder.mark)).run s = ((), s) ∨
      Forms false .operation s₀ (Parser.loop (p s₀.builder.mark)) s := by
  show (loopUpTo (p s₀.builder.mark) (s.rest.length + 1)).run s = _ ∨
    Forms false .operation s₀ (loopUpTo (p s₀.builder.mark) (s.rest.length + 1)) s
  generalize s.rest.length + 1 = count
  induction count generalizing s front with
  | zero => exact .inl rfl
  | succ count ih =>
      rcases h s₀ s front hs hfront trivial with hstop | ⟨hmore, new, hnew⟩
      · refine .inl ?_
        rw [loopUpTo, run_bind hstop]
        rfl
      · have hrun : (loopUpTo (p s₀.builder.mark) (count + 1)).run s =
            (loopUpTo (p s₀.builder.mark) count).run ((p s₀.builder.mark).run s).2 := by
          rw [loopUpTo, run_bind (a := true) (Prod.ext hmore rfl), if_pos rfl]
        have hexpr := hnew.imp fun _ => Layout.node.imp isExpr_of_isOperation
        rw [Forms, hrun]
        rcases ih hexpr with hstop | hnode
        · exact .inr ⟨new, hstop ▸ hnew⟩
        · exact .inr hnode

end Operates

/-! ## Expressions -/

/-- What the reader of a construct makes. -/
def Construct.row : Construct → Layout
  | .expression _ | .unary => .expr
  | .initializer => .node (· == .initializerExpression)
  | _ => .any

section

variable {r : Rules} (hr : ∀ c : Construct, FormsIf false (fun _ => True) c.row (r c))
include hr

theorem forms_expression : FormsIf inside C .expr (expression r) :=
  FormsIf.under (hr (.expression 0)).within

theorem forms_equalsValueClause : FormsIf false C .any (equalsValueClause r) :=
  .node_any ((FormsIf.require (by decide) _).bind fun _ => forms_expression hr)

theorem forms_block : FormsIf false C .any (block r) :=
  .node_any ((FormsIf.require (by decide) _).bind fun _ =>
    (FormsIf.untilAny (hr .statement)).bind fun _ => .require (by decide) _)

theorem forms_parameter (implicitType : Bool) : FormsIf false C .any (parameter r implicitType) := by
  have hname : FormsIf false (fun _ => True) .any (require .identifier "expected parameter name" >>=
      fun _ => isAt .eq >>= fun atEq => if atEq then equalsValueClause r else pure ()) :=
    (FormsIf.require (by decide) _).bind fun _ => FormsIf.ask_bind (F := .any) fun _ =>
      .ite (fun _ => forms_equalsValueClause hr) fun _ => .pure _
  exact .node_any (forms_attributeLists.bind fun _ => FormsIf.ask_bind fun _ =>
    .opt_any (fun _ => .node_any (.whileAhead .bump_any)) fun _ => .ask_bind fun _ =>
      .ask_bind fun _ => .ask_bind fun _ => .ite (fun _ => hname.under) fun _ =>
        forms_type.bind fun _ => hname)

/-- What stands behind the name of an argument. -/
theorem forms_passed : FormsIf true C .passed (isAtAny [.refKw, .outKw, .inKw] >>= fun passed =>
    if passed then
      isAt .outKw >>= fun out => bump >>= fun _ => ask Lookahead.atOutDeclaration >>= fun declares =>
        if out && declares then type >>= fun _ => bump else expression r
    else expression r) := by
  refine .ask_bind fun _ => .ite (fun _ => .ask_bind fun out => ?_) fun _ => ?_
  · cases out with
    | true =>
        -- Behind `out` either a declaration or a value follows.
        have hrest : FormsIf true (fun _ => True)
            (fun row => Layout.andThen .type .mark row ∨ Layout.expr row)
            (ask Lookahead.atOutDeclaration >>= fun declares =>
              if true && declares then type >>= fun _ => bump else expression r) :=
          .ask_bind fun _ => .ite
            (fun _ => (forms_type.seq fun _ => FormsIf.bump_inside).imp fun _ => .inl)
            fun _ => (forms_expression hr).imp fun _ => .inr
        refine ((FormsIf.bump_the (k := .outKw) ?_ (by decide)).seq fun _ => hrest).imp ?_
        · rintro ts ⟨-, hts⟩
          exact eq_of_beq hts
        · rintro row ⟨front, more, rfl, hfront, hmore⟩
          obtain ⟨k, text, rfl, hk⟩ := hfront
          rcases hmore with hmore | hmore
          · exact .inl ⟨_, more, rfl, ⟨k, text, rfl, hk⟩, hmore⟩
          · refine .inr ⟨_, more, rfl, .inr ⟨k, text, rfl, ?_⟩, hmore⟩
            rw [eq_of_beq hk]
            rfl
    | false =>
        have hrest : FormsIf true (fun _ => True) .expr
            (ask Lookahead.atOutDeclaration >>= fun declares =>
              if false && declares then type >>= fun _ => bump else expression r) :=
          .ask_bind fun _ => .ite (fun h => absurd h (by simp)) fun _ => forms_expression hr
        refine (FormsIf.bump_inside.seq fun _ => hrest).imp ?_
        rintro row ⟨front, more, rfl, hfront, hmore⟩
        exact .inr ⟨front, more, rfl, .inr hfront, hmore⟩
  · exact (forms_expression hr).imp fun row hrow => .inr ⟨[], row, rfl, .inl rfl, hrow⟩

/-- An argument may end with a token that is only looked for: inside the brackets of a
list there is one. -/
theorem forms_argument : FormsIf true C (.node (· == .argument)) (argument r) := by
  have hname : FormsIf true (fun _ => True) .any (leaf .identifierName >>= fun _ => bump) :=
    (forms_leaf (p := Kind.isExpr) rfl rfl).bind fun _ => FormsIf.bump_any
  exact .node (.ask_bind fun _ => .ask_bind fun _ => .opt (fun _ => .node hname rfl) fun _ =>
    forms_passed hr) rfl

/-- The arguments up to the bracket that closes them. -/
theorem forms_arguments {closing : Kind} (hclosing : closing ≠ .eof) (message : String) :
    FormsIf false C .any (separatedUntil [closing, .eof] (argument r) >>= fun _ =>
      require closing message) :=
  (FormsIf.closed_by (.separatedUntil (forms_argument hr)) hclosing message).free

theorem forms_argumentList : FormsIf false C (.node (· == .argumentList)) (argumentList r) :=
  .node ((FormsIf.require (by decide) _).bind fun _ => forms_arguments hr (by decide) _) rfl

theorem forms_bracketedArgumentList : FormsIf false C .any (bracketedArgumentList r) :=
  .node_any ((FormsIf.require (by decide) _).bind fun _ => forms_arguments hr (by decide) _)

theorem forms_lambdaBody : FormsIf false C .any (lambdaBody r) :=
  (FormsIf.require (by decide) _).bind fun _ => FormsIf.ask_bind fun _ =>
    .ite (fun _ => forms_block hr) fun _ => (forms_expression hr).free

theorem forms_simpleLambda (isAsync : Bool) : FormsIf false C .expr (simpleLambda r isAsync) := by
  have hrest : FormsIf false (fun _ => True) .any (leaf .parameter >>= fun _ => lambdaBody r) :=
    (forms_leaf (p := fun _ => true) rfl rfl).bind fun _ => forms_lambdaBody hr
  exact .node (.opt_any (fun _ => .bump_any) fun _ => hrest) rfl

theorem forms_parenthesizedLambda (isAsync : Bool) :
    FormsIf false C .expr (parenthesizedLambda r isAsync) := by
  have hparameters : FormsIf false (fun _ => True) .any (node .parameterList (bump >>= fun _ =>
      separatedUntil [.rParen, .eof] (parameter r true) >>= fun _ => require .rParen "expected `)`")) :=
    .node_any (FormsIf.bump_any.bind fun _ => (FormsIf.separatedUntil (forms_parameter hr true)).bind
      fun _ => .require (by decide) _)
  exact .node (.opt_any (fun _ => .bump_any) fun _ => hparameters.bind fun _ =>
    forms_lambdaBody hr) rfl

theorem forms_creationRank :
    FormsIf false C (.node (· == .arrayRankSpecifier)) (creationRank r) := by
  refine .node (FormsIf.bump_any.bind fun _ => FormsIf.bind (F := .any) (.separatedUntil (F := .any)
    ?_) fun _ => .require (by decide) _) rfl
  exact .ask_bind fun _ => .ite (fun _ => .pure _) fun _ => (forms_expression hr).free

/-- The arguments and the initial values behind a created type. -/
theorem forms_creationEnd : FormsIf false C
    (.many fun k => k == .argumentList || k == .initializerExpression)
    (isAt .lParen >>= fun opened =>
      if opened then argumentList r >>= fun _ => isAt .lBrace >>= fun braced =>
        if braced then r .initializer else pure ()
      else isAt .lBrace >>= fun braced => if braced then r .initializer else pure ()) := by
  have hvalues : FormsIf false (fun _ => True) (.opt (.node (· == .initializerExpression)))
      (isAt .lBrace >>= fun braced => if braced then r .initializer else pure ()) :=
    .ask_bind fun _ => .ite (fun _ => (hr .initializer).under.imp fun _ => .inr) fun _ =>
      .pure_of (.inl rfl) _
  refine .ask_bind fun _ => (FormsIf.opt (fun _ => forms_argumentList hr) fun _ => hvalues).imp ?_
  rintro row ⟨list, values, rfl, hlist, hvalues⟩
  refine Layout.repeats_many.append _ _ ?_ ?_
  · rcases hlist with rfl | hlist
    · exact Layout.repeats_many.nil
    · exact (hlist.imp fun k hk => by rw [hk, Bool.true_or]).many
  · rcases hvalues with rfl | hvalues
    · exact Layout.repeats_many.nil
    · exact (hvalues.imp fun k hk => by rw [hk, Bool.or_true]).many

theorem forms_objectCreation :
    FormsIf false (fun ts => Lookahead.kind ts = .newKw) .expr (objectCreation r) := by
  have hranks : FormsIf false (fun _ => True) (.many (· == .arrayRankSpecifier))
      (whileAhead (Lookahead.kind · == .lBracket) (creationRank r)) :=
    .whileAhead_of Layout.repeats_many ((forms_creationRank hr).imp fun _ => Layout.node.many)
  refine .node_if (by simp [Steady]) ((FormsIf.bump_the (fun _ => id) (by decide)).seq fun _ =>
    .ask_bind fun _ => .opt (fun _ => forms_createdType) fun _ => hranks.seq fun _ =>
      forms_creationEnd hr) rfl

theorem forms_initializer :
    FormsIf false C (.node (· == .initializerExpression)) (initializer r) := by
  refine .node ((FormsIf.require (by decide) _).bind fun _ => FormsIf.bind (F := .any)
    (.separatedUntil (F := .any) ?_) fun _ => .require (by decide) _) rfl
  exact .ask_bind fun _ => .ite (fun _ => (hr .initializer).under.free) fun _ =>
    (forms_expression hr).free

theorem forms_cast : FormsIf false (fun ts => Lookahead.kind ts = .lParen) .expr
    (node .castExpression (bump >>= fun _ => type >>= fun _ => require .rParen "expected `)`" >>=
      fun _ => r .unary)) :=
  .node_if (by simp [Steady]) ((FormsIf.bump_the (fun _ => id) (by decide)).seq fun _ =>
    forms_type.seq fun _ => (FormsIf.require (by decide) _).seq fun _ => hr .unary) rfl

theorem forms_afterParen :
    FormsIf false (fun ts => Lookahead.kind ts = .lParen) .expr (afterParen r) := by
  refine .ask_bind fun _ => .ite (fun _ => forms_parenthesizedLambda hr _) fun _ =>
    .ask_bind fun _ => .ite (fun _ => ?_) fun _ => ?_
  · exact (forms_cast hr).weaken fun _ hts => hts.1.1
  · exact .node (FormsIf.bump_any.bind fun _ => (forms_expression hr).bind fun _ =>
      .require (by decide) _) rfl

theorem forms_afterIdentifier : FormsIf false C .expr (afterIdentifier r) :=
  .ask_bind fun _ => .ask_bind fun _ => .ask_bind fun _ =>
    .ite (fun _ => forms_parenthesizedLambda hr _) fun _ => .ask_bind fun _ => .ask_bind fun _ =>
      .ite (fun _ => forms_simpleLambda hr _) fun _ => .ask_bind fun _ =>
        .ite (fun _ => forms_simpleLambda hr _) fun _ => .ask_bind fun _ =>
          .ite (fun _ => forms_aliasQualifiedExpression) fun _ => forms_expressionName

omit hr in
theorem forms_default : FormsIf false (fun ts => Lookahead.kind ts = .defaultKw) .expr
    (node .defaultExpression (bump >>= fun _ => eat .lParen >>= fun opened => if opened then
      type >>= fun _ => require .rParen "expected `)`" else pure ())) := by
  have hwritten : FormsIf false (fun _ => True)
      (.opt (.andThen (.the .lParen) (.andThen .type (.the .rParen))))
      (eat .lParen >>= fun opened => if opened then
        type >>= fun _ => require .rParen "expected `)`" else pure ()) :=
    .eat_bind (F := .andThen .type (.the .rParen)) (G := (· = [])) (by decide)
      (forms_type.seq fun _ => .require (by decide) _) (FormsIf.pure_of (F := (· = [])) rfl _)
      (fun _ => .inr) fun _ => .inl
  exact .node_if (by simp [Steady]) ((FormsIf.bump_the (fun _ => id) (by decide)).seq fun _ =>
    hwritten) rfl

theorem forms_primary : FormsIf false C .expr (primary r) := by
  refine .ask_bind fun k => ?_
  split
  case h_10 =>
    exact .node (FormsIf.bump_any.bind fun _ => (FormsIf.require (by decide) _).bind fun _ =>
      forms_type.bind fun _ => .require (by decide) _) rfl
  case h_11 => exact forms_default.weaken fun _ => And.right
  case h_12 => exact (forms_objectCreation hr).weaken fun _ => And.right
  case h_13 => exact (forms_afterParen hr).weaken fun _ => And.right
  case h_14 => exact forms_afterIdentifier hr
  case h_15 => exact .ite (fun _ => forms_leaf rfl rfl) fun _ => .complain _
  all_goals exact forms_leaf rfl rfl

theorem forms_postfixPart : FormsFrom false C .expr .expr (postfixPart r) := by
  have hmember : FormsIf false (fun _ => True) .any (bump >>= fun _ => isAt .identifier >>=
      fun atName => if atName then expressionName else complain "expected member name") :=
    FormsIf.bump_any.bind fun _ => FormsIf.ask_bind (F := .expr) fun _ =>
      .ite (fun _ => forms_expressionName) fun _ => .complain _
  have hstep : ∀ {C}, FormsFrom false C .expr .expr fun start =>
      nodeFrom start .postfixUnaryExpression bump :=
    .nodeFrom .bump_any (fun _ _ => trivial) rfl
  refine .ask_bind fun k => ?_
  split
  case h_1 | h_2 =>
    exact .andContinue (.nodeFrom hmember.under (fun _ _ => trivial) rfl)
  case h_3 =>
    exact .andContinue (.nodeFrom (forms_argumentList hr) (fun _ _ => trivial) rfl)
  case h_4 =>
    exact .andContinue (.nodeFrom (forms_bracketedArgumentList hr) (fun _ _ => trivial) rfl)
  case h_5 | h_6 => exact hstep.andContinue
  case h_7 => exact .ask_bind fun _ => .ask_bind fun _ => .ite (fun _ => .pure _) fun _ =>
    hstep.andContinue
  case h_8 => exact .pure _

omit hr in
/-- A first reader of an expression, and a loop that builds on it. -/
theorem forms_climb {first : Parser Unit} {step : Nat → Parser Bool}
    (hfirst : FormsIf false (fun _ => True) .expr first)
    (hstep : FormsFrom false (fun _ => True) .expr .expr step) :
    FormsIf false C .expr (mark >>= fun start => first >>= fun _ => grownSince start >>= fun grown =>
      if grown then loop (step start) else pure ()) :=
  .mark_bind ((FormsFrom.first hfirst).bind fun _ => FormsFrom.grownSince.bind fun _ =>
    .ite (fun _ => .loop hstep) fun _ => .pure _)

theorem forms_operand : FormsIf false C .expr (operand r) :=
  forms_climb (forms_primary hr) (forms_postfixPart hr)

theorem forms_unary : FormsIf false C .expr (unary r) := by
  have hprefix : ∀ {C}, FormsIf false C .expr
      (node .prefixUnaryExpression (bump >>= fun _ => r .unary)) :=
    .node (FormsIf.bump_any.bind fun _ => hr .unary) rfl
  refine .ask_bind fun k => ?_
  split
  case h_10 => exact .ask_bind fun _ => .ite (fun _ => hprefix) fun _ => forms_operand hr
  case h_11 => exact forms_operand hr
  all_goals exact hprefix

/-! ## Operators -/

theorem operates_conditionalPart (power : Nat) : Operates C (conditionalPart r power) := by
  refine .ite (fun _ => .stop) fun _ => .of_node (.nodeFrom (G := .any) ?_ (fun _ _ => trivial) rfl)
  exact FormsIf.bump_any.bind fun _ => (forms_expression hr).bind fun _ =>
    (FormsIf.require (by decide) _).bind fun _ => hr (.expression _)

theorem operates_isPart (power : Nat) : Operates C (isPart r power) := by
  refine .ite (fun _ => .stop) fun _ => .of_node (.nodeFrom (G := .any) ?_ (fun _ _ => trivial) rfl)
  refine FormsIf.bump_any.bind fun _ => FormsIf.ask_bind (F := .any) fun _ => .ite (fun _ => ?_)
    fun _ => (FormsIf.under (hr (.expression _))).free
  exact forms_type.bind fun _ => (FormsIf.eat _).bind fun _ => .pure _

omit hr in
theorem operates_asPart (power : Nat) :
    Operates (fun ts => Lookahead.kind ts = .asKw) (asPart power) :=
  .ite (fun _ => .stop) fun _ => .of_node (.nodeFrom ((FormsIf.bump_the (fun _ => id)
    (by decide)).seq fun _ => forms_type) (fun _ => id) rfl)

omit hr in
/-- Both tokens of a shift operator are there, side by side. -/
theorem forms_shift {F : Layout} {more : Parser Unit} (hmore : FormsIf false (fun _ => True) F more) :
    FormsIf false (fun ts => (Lookahead.shiftTail? ts).isSome = true) .any
      (bump >>= fun _ => take >>= fun _ => more) := by
  have htake : FormsIf false (fun ts => ∃ t rest, ts = t :: rest ∧ t.isTrivia = false ∧
      t.kind ≠ .eof) .any take := by
    rintro s - ⟨t, rest, hrest, -, hne⟩
    refine ⟨[t.tree], (extends_take hrest hne).1, by simp [take_run, hrest], fun _ => ?_⟩
    exact ⟨Each.singleton (whole_token _ _), trivial⟩
  exact (FormsIf.bump_any.seq_leaves leaves_shift fun _ => htake.bind fun _ => hmore).free

theorem operates_binaryPart (power : Nat) : Operates C (binaryPart r power) := by
  refine .ask_bind fun found => ?_
  split
  case h_1 => exact .stop
  case h_2 binding =>
    refine .ite (fun _ => .stop) fun _ => .ask_bind fun isShift => ?_
    have hoperator : FormsIf false (fun ts => (Lookahead.shiftTail? ts).isSome = isShift) .any
        (bump >>= fun _ => if isShift then take >>= fun _ => r (.expression binding.right)
          else r (.expression binding.right)) := by
      cases isShift with
      | true => exact forms_shift (hr (.expression _))
      | false => exact FormsIf.bump_any.bind fun _ => hr (.expression _)
    intro s₀ s front hs hfront hc
    have hkind : (∀ row, form binding.node row) ∧ binding.node.isOperation = true := by
      rcases node_of_binding? hc.1.2 with hkind | hkind <;> rw [hkind] <;> exact ⟨fun _ => trivial, rfl⟩
    have hnode : FormsFrom false _ .expr .operation fun start => nodeFrom start binding.node _ :=
      .nodeFrom hoperator (fun row _ => hkind.1 row) hkind.2
    exact Operates.of_node hnode s₀ s front hs hfront hc.2

theorem operates_infixPart (power : Nat) : Operates C (infixPart r power) := by
  refine .ask_bind fun k => ?_
  split
  case h_1 => exact operates_conditionalPart hr power
  case h_2 => exact operates_isPart hr power
  case h_3 => exact (operates_asPart power).weaken fun _ => And.right
  case h_4 => exact operates_binaryPart hr power

theorem forms_infixPart (power : Nat) : FormsFrom false C .expr .expr (infixPart r power) :=
  (operates_infixPart hr power).forms

theorem forms_expressionAbove (power : Nat) : FormsIf false C .expr (expressionAbove r power) :=
  forms_climb (hr .unary) (forms_infixPart hr power)

/-! ## Statements -/

theorem forms_variableDeclarators : FormsIf false C .any (variableDeclarators r) :=
  .separated (.node_any ((FormsIf.require (by decide) _).bind fun _ => FormsIf.ask_bind fun _ =>
    .opt_any (fun _ => forms_bracketedArgumentList hr) fun _ => FormsIf.ask_bind (F := .any) fun _ =>
      .ite (fun _ => forms_equalsValueClause hr) fun _ => .pure _))

theorem forms_variableDeclaration : FormsIf false C .any (variableDeclaration r) :=
  .node_any (forms_type.bind fun _ => forms_variableDeclarators hr)

theorem forms_embeddedStatement : FormsIf false C .any (embeddedStatement r) :=
  .ask_bind fun _ => .ite (fun _ => .complain _) fun _ => FormsIf.under (hr .statement)

theorem forms_parenthesizedCondition : FormsIf false C .any (parenthesizedCondition r) :=
  (FormsIf.require (by decide) _).bind fun _ => (forms_expression hr).bind fun _ =>
    .require (by decide) _

theorem forms_jump {kind : Kind} (hform : form kind = .any) (missing : String) :
    FormsIf false C .any (jump r kind missing) := by
  refine .node_any (hform ▸ FormsIf.bump_any.bind fun _ => FormsIf.ask_bind (F := .any) fun _ =>
    .ite (fun _ => (FormsIf.require (by decide) _).free) fun _ => ?_)
  exact (forms_expression hr).bind fun _ => .require (by decide) _

theorem forms_ifStatement : FormsIf false C .any (ifStatement r) :=
  .node_any (FormsIf.bump_any.bind fun _ => (forms_parenthesizedCondition hr).bind fun _ =>
    (forms_embeddedStatement hr).bind fun _ => FormsIf.ask_bind (F := .any) fun _ =>
      .ite (fun _ => .node_any (FormsIf.bump_any.bind fun _ => forms_embeddedStatement hr)) fun _ =>
        .pure _)

theorem forms_whileStatement : FormsIf false C .any (whileStatement r) :=
  .node_any (FormsIf.bump_any.bind fun _ => (forms_parenthesizedCondition hr).bind fun _ =>
    forms_embeddedStatement hr)

theorem forms_expressionList (terminator : Kind) :
    FormsIf false C .any (expressionList r terminator) :=
  .loop Layout.repeats_any ((forms_expression hr).bind fun _ => FormsIf.ask_bind (F := .any) fun _ =>
    .ite (fun _ => .pure _) fun _ => .eat _)

theorem forms_forStatement : FormsIf false C .any (forStatement r) := by
  have hend : ∀ {C}, FormsIf false C .any (require .rParen "expected `)`" >>= fun _ =>
      embeddedStatement r) :=
    (FormsIf.require (by decide) _).bind fun _ => forms_embeddedStatement hr
  have hsteps : ∀ {C}, FormsIf false C .any (require .semicolon "expected `;`" >>= fun _ =>
      isAt .rParen >>= fun closed =>
        if closed then require .rParen "expected `)`" >>= fun _ => embeddedStatement r
        else expressionList r .rParen >>= fun _ => require .rParen "expected `)`" >>= fun _ =>
          embeddedStatement r) :=
    (FormsIf.require (by decide) _).bind fun _ => FormsIf.ask_bind (F := .any) fun _ =>
      .ite (fun _ => hend) fun _ => (forms_expressionList hr _).bind fun _ => hend
  have hcondition : ∀ {C}, FormsIf false C .any (require .semicolon "expected `;`" >>= fun _ =>
      isAt .semicolon >>= fun empty => if empty then _ else expression r >>= fun _ => _) :=
    (FormsIf.require (by decide) _).bind fun _ => FormsIf.ask_bind (F := .any) fun _ =>
      .ite (fun _ => hsteps) fun _ => (forms_expression hr).bind fun _ => hsteps
  refine .node_any (FormsIf.bump_any.bind fun _ => (FormsIf.require (by decide) _).bind fun _ =>
    FormsIf.ask_bind (F := .any) fun _ => .ite (fun _ => hcondition) fun _ => .ask_bind fun _ => ?_)
  exact .ite (fun _ => (forms_variableDeclaration hr).bind fun _ => hcondition) fun _ =>
    (forms_expressionList hr _).bind fun _ => hcondition

theorem forms_forEachStatement : FormsIf false C .any (forEachStatement r) :=
  .node_any (FormsIf.bump_any.bind fun _ => (FormsIf.require (by decide) _).bind fun _ =>
    forms_type.bind fun _ => (FormsIf.require (by decide) _).bind fun _ =>
      (FormsIf.require (by decide) _).bind fun _ => (forms_expression hr).bind fun _ =>
        (FormsIf.require (by decide) _).bind fun _ => forms_embeddedStatement hr)

theorem forms_constantDeclaration : FormsIf false C .any (constantDeclaration r) :=
  .node_any ((forms_leaf (p := fun _ => true) rfl rfl).bind fun _ =>
    (forms_variableDeclaration hr).bind fun _ => .require (by decide) _)

theorem forms_plainStatement : FormsIf false C .any (plainStatement r) := by
  refine .ask_bind fun _ => .ite (fun _ => ?_) fun _ => .ask_bind fun _ => .ite (fun _ => ?_) fun _ => ?_
  · exact .node_any ((forms_variableDeclaration hr).bind fun _ => .require (by decide) _)
  · exact .node_any ((forms_expression hr).bind fun _ => .require (by decide) _)
  · exact .node_any ((FormsIf.complain (F := .any) _).bind fun _ => .skip)

theorem forms_statement : FormsIf false C .any (statement r) := by
  refine .ask_bind fun k => ?_
  split
  case h_1 => exact forms_block hr
  case h_2 => exact (forms_leaf (p := fun _ => true) rfl rfl).free
  case h_3 | h_4 => exact forms_jump hr rfl _
  case h_5 | h_6 => exact .node_any (FormsIf.bump_any.bind fun _ => .require (by decide) _)
  case h_7 => exact forms_ifStatement hr
  case h_8 => exact forms_whileStatement hr
  case h_9 => exact forms_forStatement hr
  case h_10 => exact forms_forEachStatement hr
  case h_11 => exact forms_constantDeclaration hr
  case h_12 => exact forms_plainStatement hr

end

end Grammar

end CSharpKit.Syntax
