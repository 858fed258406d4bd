import CSharpKit.Proofs.Syntax.ExpressionReading

/-!
# Levels of nodes

A node can take exactly the text of its parent: an argument that is one name
takes the text of the name. Kinds have levels so that this goes down: a child as
wide as its parent has a lower level. Most nodes have a token of their own and
are wider than each child, so only the kinds that wrap others need a level above
zero, and a cycle of the grammar passes a token.

This module has the rules for readers and follows the grammar of types and
expressions.
-/

namespace CSharpKit.Syntax

open Tree CSharpKit.Syntax.Parser

/-- How high the nodes of a kind stand: above all kinds that can take their text. -/
def Kind.level : Kind → Nat
  | .compilationUnit => 8
  | .accessorList => 7
  | .accessorDeclaration => 6
  | .argument | .expressionStatement | .arrowExpressionClause => 5
  | .simpleLambdaExpression | .parenthesizedLambdaExpression => 4
  | .parameterList | .localDeclarationStatement | .fieldDeclaration | .error => 3
  | .parameter | .typeArgumentList | .variableDeclaration | .typeParameterList | .baseList
  | .usingDirective => 2
  | .aliasQualifiedName | .arrayType | .invocationExpression | .elementAccessExpression
  | .nameColon | .variableDeclarator | .typeParameter | .enumMemberDeclaration => 1
  | _ => 0

namespace Tree

/-- A token, or a node of a level below `n`. -/
def Under (n : Nat) (t : Tree) : Prop := t.isNode = true → t.kind.level < n

/-- A tree that takes some text for sure: a token, or a node with one. -/
def Firm (t : Tree) : Prop := t.isToken = true ∨ HasToken t.children

/-- What levels ask of a node: one child takes text and is lower, or all are lower. -/
def Leveled (k : Kind) (cs : Forest) : Prop :=
  (∃ c ∈ cs, Firm c ∧ Under k.level c) ∨ ∀ c ∈ cs, Under k.level c

/-- A tree of a level below `n` with levels that go down where the text stays. -/
def Nested (n : Nat) (t : Tree) : Prop := All Leveled (fun _ _ => True) t ∧ Under n t

variable {k : Kind} {m n : Nat} {cs : Forest}

theorem Under.of_isToken {t : Tree} (h : t.isToken = true) : Under n t := by
  intro hnode
  simp [isToken, hnode] at h

theorem Nested.mono {t : Tree} (h : Nested m t) (hmn : m ≤ n) : Nested n t :=
  ⟨h.1, fun hnode => Nat.lt_of_lt_of_le (h.2 hnode) hmn⟩

instance : OfTokens (Nested n) where
  of_token _ _ := ⟨all_token.mpr trivial, Under.of_isToken rfl⟩

theorem nested_node (hk : k.level < n) (hcs : Each (Nested m) cs) (hlevel : Leveled k cs) :
    Nested n (.node k cs) :=
  ⟨all_node.mpr ⟨hlevel, fun c hc => (hcs c hc).1⟩, fun _ => hk⟩

/-- A node whose children are all lower. -/
theorem nested_of_lower (hk : k.level < n) (hcs : Each (Nested k.level) cs) :
    Nested n (.node k cs) :=
  nested_node hk hcs (.inr fun c hc => (hcs c hc).2)

/-- A node with a lower child that takes text. -/
theorem nested_of_firm (hk : k.level < n) (hcs : Each (Nested m) cs)
    (hfirm : ∃ c ∈ cs, Firm c ∧ Under k.level c) : Nested n (.node k cs) :=
  nested_node hk hcs (.inl hfirm)

/-- A node with a token. -/
theorem nested_of_token (hk : k.level < n) (hcs : Each (Nested m) cs) (htoken : HasToken cs) :
    Nested n (.node k cs) := by
  obtain ⟨t, ht, htok⟩ := htoken
  exact nested_of_firm hk hcs ⟨t, ht, .inl htok, Under.of_isToken htok⟩

theorem HasToken.append_right {front : Forest} (h : HasToken cs) : HasToken (front ++ cs) := by
  obtain ⟨t, ht, htok⟩ := h
  exact ⟨t, List.mem_append_right _ ht, htok⟩

end Tree

/-! ## Rules for readers -/

namespace Parser

variable {α β : Type} {C : List Token → Prop} {k : Kind} {l m n : Nat} {p : Parser α}
  {body : Parser Unit}

/-- A parser reads trees of levels below `n`, and among them one of a level below
`l` that takes text. -/
abbrev ReadsFirm (C : List Token → Prop) (n l : Nat) (p : Parser α) : Prop :=
  ReadsIf C (fun new => Each (Nested n) new ∧ ∃ c ∈ new, Firm c ∧ Under l c) p

theorem ReadsIf.up (h : ReadsIf C (Each (Nested m)) p) (hmn : m ≤ n) :
    ReadsIf C (Each (Nested n)) p :=
  h.imp fun _ hnew t ht => (hnew t ht).mono hmn

theorem readsFirm_of_token (h : ReadsIf C (fun new => Each (Nested n) new ∧ HasToken new) p) :
    ReadsFirm C n l p := by
  refine h.imp fun new hnew => ⟨hnew.1, ?_⟩
  obtain ⟨t, ht, htok⟩ := hnew.2
  exact ⟨t, ht, .inl htok, Under.of_isToken htok⟩

theorem readsFirm_bump : ReadsFirm (fun ts => Lookahead.kind ts ≠ .eof) n l bump :=
  readsFirm_of_token Reads.bump_token

theorem readsFirm_require {kind : Kind} (hkind : kind ≠ .eof) (message : String) :
    ReadsFirm (fun ts => Lookahead.kind ts = kind) n l (require kind message) :=
  readsFirm_of_token (Reads.require_token hkind message)

namespace ReadsFirm

theorem bind {f : α → Parser β} (hp : ReadsFirm C n l p) (hf : ∀ a, Reads (Nested n) (f a)) :
    ReadsFirm C n l (p >>= f) := by
  refine ReadsIf.seq hp hf fun new more hnew hmore => ⟨hnew.1.append hmore, ?_⟩
  obtain ⟨c, hc, hfirm⟩ := hnew.2
  exact ⟨c, List.mem_append_left _ hc, hfirm⟩

theorem up (h : ReadsFirm C m l p) (hmn : m ≤ n) : ReadsFirm C n l p :=
  h.imp fun _ hnew => ⟨fun t ht => (hnew.1 t ht).mono hmn, hnew.2⟩

theorem reads (h : ReadsFirm C n l p) : ReadsIf C (Each (Nested n)) p := h.imp fun _ => And.left

/-- A node with a tree in it that takes text. -/
theorem node (hbody : ReadsFirm C m k.level body)
    (hC : ∀ ts, C ts → C (Lookahead.significant ts)) (hk : k.level < n) :
    ReadsIf C (Each (Nested n)) (node k body) :=
  ReadsIf.node hbody hC fun _ hcs => nested_of_firm hk hcs.1 hcs.2

/-- A node with trees since a mark and a tree that takes text. -/
theorem nodeFrom (hbody : ReadsFirm C m k.level body) (hk : k.level < n) :
    ReadsFrom C (Each (Nested m)) (Each (Nested n)) fun start => nodeFrom start k body := by
  refine ReadsFrom.nodeFrom hbody fun front more hfront hmore => Each.singleton ?_
  obtain ⟨hmore, c, hc, hfirm⟩ := hmore
  exact nested_of_firm hk (hfront.append hmore) ⟨c, List.mem_append_right _ hc, hfirm⟩

end ReadsFirm

/-- A node with a token takes text. -/
theorem readsFirm_node (hbody : ReadsIf C (fun new => Each (Nested m) new ∧ HasToken new) body)
    (hC : ∀ ts, C ts → C (Lookahead.significant ts)) (hk : k.level < l) (hln : l ≤ n) :
    ReadsFirm C n l (node k body) := by
  intro s _ hc
  refine (ReadsIf.yields_node hbody (hC _ hc)).mono ?_
  rintro - new rest ⟨cs, rfl, hcs, htoken⟩
  have hnode : Nested n (.node k cs) := nested_of_token (Nat.lt_of_lt_of_le hk hln) hcs htoken
  exact ⟨(OfTrivia.ahead _).append (Each.singleton hnode), .node k cs, by simp, .inr htoken,
    fun _ => hk⟩

theorem reads_lower (hk : k.level < n) (hbody : Reads (Nested k.level) body) :
    Reads (Nested n) (node k body) :=
  Reads.node hbody fun _ hcs => nested_of_lower hk hcs

/-- A node that starts with the token ahead. -/
theorem readsIf_ahead {more : Parser Unit} (hk : k.level < n) (hmore : Reads (Nested m) more) :
    ReadsIf (fun ts => Lookahead.kind ts ≠ .eof) (Each (Nested n))
      (node k (bump >>= fun _ => more)) :=
  (readsFirm_bump.bind fun _ => hmore).node (by simp) hk

/-- A node that starts with a token it requires, where that stands ahead. -/
theorem readsIf_required {kind : Kind} {more : Parser Unit} {message : String}
    (hkind : kind ≠ .eof) (hk : k.level < n) (hmore : Reads (Nested m) more) :
    ReadsIf (fun ts => Lookahead.kind ts = kind) (Each (Nested n))
      (node k (require kind message >>= fun _ => more)) :=
  ((readsFirm_require hkind message).bind fun _ => hmore).node (by simp) hk

/-- A node with trees since a mark and the token ahead. -/
theorem readsFrom_ahead {more : Parser Unit} (hk : k.level < n) (hmore : Reads (Nested m) more) :
    ReadsFrom (fun ts => Lookahead.kind ts ≠ .eof) (Each (Nested m)) (Each (Nested n)) fun start =>
      nodeFrom start k (bump >>= fun _ => more) :=
  (readsFirm_bump.bind fun _ => hmore).nodeFrom hk

theorem readsFrom_lower (k : Kind) (hk : k.level < n) (hbody : Reads (Nested k.level) body) :
    ReadsFrom C (Each (Nested k.level)) (Each (Nested n)) fun start => nodeFrom start k body :=
  ReadsFrom.nodeFrom (hbody.weaken fun _ _ => trivial) fun _ _ hfront hmore =>
    Each.singleton (nested_of_lower hk (hfront.append hmore))

/-- A part that is read only where its first token stands ahead, or another. -/
theorem reads_iteAt {kind : Kind} {p q : Parser α}
    (hp : ReadsIf (fun ts => Lookahead.kind ts = kind) (Each (Nested n)) p)
    (hq : Reads (Nested n) q) :
    Reads (Nested n) (isAt kind >>= fun ahead => if ahead then p else q) := by
  refine ReadsIf.ask_bind fun a => ReadsIf.ite (fun ha => ?_) fun _ => hq.weaken fun _ _ => trivial
  exact hp.weaken fun ts h => by simpa [ha] using h.2

/-- A part that is left out where its first token does not stand ahead. -/
theorem reads_optAt {kind : Kind} {p : Parser Unit} {f : Unit → Parser α}
    (hp : ReadsIf (fun ts => Lookahead.kind ts = kind) (Each (Nested n)) p)
    (hf : ∀ u, Reads (Nested n) (f u)) :
    Reads (Nested n) (isAt kind >>= fun ahead => if ahead then p >>= f else f ()) :=
  reads_iteAt (hp.bind hf) (hf ())

/-- The first trees behind a mark. -/
theorem readsFrom_first {p : Parser Unit} (h : Reads (Nested n) p) :
    ReadsFrom C (· = []) (Each (Nested n)) fun _ => p := by
  refine (ReadsFrom.of_reads_append h ?_).weaken fun _ _ => trivial
  rintro front new rfl hnew
  exact hnew

end Parser

namespace Grammar

/-! ## Types -/

section

variable {inner : Parser Unit}

/-- A node around one token has no nodes in it. -/
theorem nested_leaf {k : Kind} {n : Nat} (hk : k.level < n) : Reads (Nested n) (leaf k) :=
  reads_lower hk Reads.bump

theorem nested_typeArgumentList (hinner : Reads (Nested 2) inner) :
    Reads (Nested 3) (typeArgumentList inner) := by
  refine reads_lower (by decide) ((Reads.require _ _).bind fun _ => ?_)
  refine ReadsIf.bind (Reads.loop ?_) fun _ => Reads.require _ _
  refine (Reads.isAtAny _).bind fun _ => Reads.ite (ReadsIf.pure _) ?_
  exact (Reads.eat _).bind fun _ => Reads.ite (ReadsIf.pure _) (hinner.bind fun _ => Reads.eat _)

theorem nested_simpleName (hinner : Reads (Nested 2) inner) (generic : Bool) :
    Reads (Nested 1) (simpleName inner generic) := by
  refine ReadsIf.ask_bind fun a => ReadsIf.ask_bind fun b => ReadsIf.ite (fun h => ?_) fun _ => ?_
  · refine (readsIf_ahead (by decide) (nested_typeArgumentList hinner)).weaken ?_
    rintro ts ⟨⟨-, rfl⟩, -⟩
    simp only [Bool.and_eq_true, beq_iff_eq] at h
    exact ne_eof_of_kind_eq (by decide) h.1.2
  · exact (reads_lower (by decide) (Reads.require _ _)).weaken fun _ _ => trivial

theorem nested_nameHead (hinner : Reads (Nested 2) inner) (generic : Bool) :
    ReadsFrom (fun _ => True) (· = []) (Each (Nested 2)) (nameHead inner · generic) := by
  have hname := nested_simpleName hinner generic
  have halias : Reads (Nested 1) (leaf .identifierName >>= fun _ => bump >>= fun _ =>
      simpleName inner generic) :=
    (nested_leaf (by decide)).bind fun _ => Reads.bump.bind fun _ => hname
  refine ReadsFrom.ask_bind fun a => ReadsFrom.ask_bind fun b => ReadsFrom.ite (fun _ => ?_) fun _ => ?_
  · refine (ReadsFrom.nodeFrom halias ?_).weaken fun _ _ => trivial
    rintro front more rfl hmore
    exact Each.singleton (nested_of_lower (by decide) hmore)
  · exact readsFrom_first (hname.up (by decide))

theorem nested_name (hinner : Reads (Nested 2) inner) (generic : Bool) :
    Reads (Nested 2) (name inner generic) := by
  refine Reads.mark_bind (ReadsFrom.bind (nested_nameHead hinner generic) fun _ => ?_)
  refine ReadsFrom.whileAhead (ReadsFrom.weaken
    (readsFrom_ahead (by decide) ((nested_simpleName hinner generic).up (by decide))) fun ts hts => ?_)
  simp only [atSegment, Bool.and_eq_true, beq_iff_eq] at hts
  exact ne_eof_of_kind_eq (by decide) hts.1

/-- Of the rank specifiers of an array the first one is there. -/
theorem nested_rankSpecifiers :
    ReadsFirm (fun ts => Lookahead.kind ts = .lBracket) 1 1 rankSpecifiers := by
  have hrank : ReadsFirm (fun ts => Lookahead.kind ts = .lBracket) 1 1 rankSpecifier := by
    refine readsFirm_node (m := 0) ?_ (by simp) (by decide) (by decide)
    refine ReadsIf.token_bind (Reads.bump_token.weaken fun _ => ne_eof_of_kind_eq (by decide)) fun _ => ?_
    exact (Reads.loop (Reads.eat _)).bind fun _ => Reads.require _ _
  have hstep : ReadsFirm (fun ts => Lookahead.kind ts = .lBracket) 1 1
      (ask (Lookahead.kind · == .lBracket) >>= fun more =>
        if more then rankSpecifier >>= fun _ => pure true else pure false) := by
    intro s hs hc
    refine Yields.ask ?_
    rw [hc]
    exact (hrank.bind fun _ => ReadsIf.pure true) s hs hc
  refine ReadsIf.get_bind fun s => hstep.bind fun _ => Reads.ite ?_ (ReadsIf.pure _)
  refine Reads.loopUpTo (Reads.whileAhead_step ?_) _
  exact hrank.reads.weaken fun ts hts => by simpa using hts

theorem nested_typeSuffix :
    ReadsFrom (fun _ => True) (Each (Nested 2)) (Each (Nested 2)) typeSuffix := by
  have hnullable : ReadsFrom (fun ts => Lookahead.kind ts = .question) (Each (Nested 2))
      (Each (Nested 2)) fun start => nodeFrom start .nullableType bump :=
    (readsFirm_bump.nodeFrom (by decide)).weaken fun _ => ne_eof_of_kind_eq (by decide)
  have harray : ReadsFrom (fun ts => Lookahead.kind ts = .lBracket) (Each (Nested 2))
      (Each (Nested 2)) fun start => nodeFrom start .arrayType rankSpecifiers :=
    (nested_rankSpecifiers.up (by decide)).nodeFrom (by decide)
  intro s₀ s front hs hext hfront _
  refine Yields.ask ?_
  split
  case h_1 hkind => exact hnullable.andContinue s₀ s front hs hext hfront hkind
  case h_2 hkind =>
    refine Yields.ask (Yields.ask ?_)
    split
    · exact harray.andContinue s₀ s front hs hext hfront hkind
    · exact YieldsFrom.pure hext ⟨hfront, List.suffix_refl _⟩
  case h_3 => exact YieldsFrom.pure hext ⟨hfront, List.suffix_refl _⟩

theorem nested_typeWith (hinner : Reads (Nested 2) inner) : Reads (Nested 2) (typeWith inner) := by
  have hsuffixes := ReadsFrom.loop nested_typeSuffix
  refine Reads.mark_bind (ReadsFrom.ask_bind fun k => ReadsFrom.ite (fun _ => ?_) fun _ =>
    ReadsFrom.ite (fun _ => ?_) fun _ => ?_)
  · exact ReadsFrom.bind (readsFrom_first (nested_leaf (by decide))) fun _ => hsuffixes
  · exact ReadsFrom.bind (readsFrom_first (nested_name hinner true)) fun _ => hsuffixes
  · exact readsFrom_first (Reads.complain _)

theorem nested_typeWithin (depth : Nat) : Reads (Nested 2) (typeWithin depth) := by
  induction depth with
  | zero => exact ReadsIf.pure _
  | succ depth ih => exact nested_typeWith ih

theorem nested_type : Reads (Nested 2) type := ReadsIf.get_bind fun _ => nested_typeWithin _

end

/-! ## Expressions -/

/-- The rules of the recursive constructs read trees of their levels. Initial
values are read at their brace only. -/
structure RulesNest (rules : Rules) : Prop where
  namespaceBody : ∀ inBlock, Reads (Nested 8) (rules (.namespaceBody inBlock))
  member : Reads (Nested 8) (rules .member)
  statement : Reads (Nested 8) (rules .statement)
  expression : ∀ power, Reads (Nested 5) (rules (.expression power))
  unary : Reads (Nested 5) (rules .unary)
  initializer : ReadsIf (fun ts => Lookahead.kind ts = .lBrace) (Each (Nested 5))
    (rules .initializer)

theorem nested_attributeLists {n : Nat} : Reads (Nested (n + 1)) attributeLists := by
  refine reads_attributeLists fun cs hcs => nested_of_lower (Nat.succ_pos n) fun c hc => ?_
  cases c with
  | token k s => exact OfTokens.of_token k s
  | node k cs => exact absurd (hcs _ hc) (by simp [isToken, isNode])

theorem nested_expressionName : Reads (Nested 1) expressionName :=
  (Reads.ask _).bind fun _ => nested_simpleName nested_type _

theorem nested_aliasQualifiedExpression : Reads (Nested 2) aliasQualifiedExpression := by
  refine reads_lower (by decide) ((nested_leaf (by decide)).bind fun _ => Reads.bump.bind fun _ => ?_)
  exact (Reads.isAt _).bind fun _ => Reads.ite nested_expressionName (Reads.complain _)

theorem nested_createdType : Reads (Nested 2) createdType := by
  have hend : ReadsFrom (fun _ => True) (Each (Nested 2)) (Each (Nested 2)) fun start =>
      isAt .question >>= fun nullable =>
        if nullable then nodeFrom start .nullableType bump else pure () := by
    refine ReadsFrom.ask_bind fun a => ReadsFrom.ite (fun ha => ?_) fun _ => ReadsFrom.pure _
    refine (readsFirm_bump.nodeFrom (by decide)).weaken fun ts hts => ?_
    have hkind : Lookahead.kind ts = .question := by simpa [ha] using hts.2
    exact ne_eof_of_kind_eq (by decide) hkind
  refine Reads.mark_bind (ReadsFrom.ask_bind fun k => ReadsFrom.ite (fun _ => ?_) fun _ => ?_)
  · exact ReadsFrom.bind (readsFrom_first (nested_leaf (by decide))) fun _ => hend
  · exact ReadsFrom.bind (readsFrom_first (nested_name nested_type true)) fun _ => hend

section

variable {rules : Rules} (hr : RulesNest rules)
include hr

theorem nested_equalsValueClause {n : Nat} : ReadsIf (fun ts => Lookahead.kind ts = .eq)
    (Each (Nested (n + 1))) (equalsValueClause rules) :=
  readsIf_required (by decide) (Nat.succ_pos n) (hr.expression 0)

/-- A value where `=` stands ahead. -/
theorem nested_value {n : Nat} : Reads (Nested (n + 1)) (isAt .eq >>= fun atEq =>
    if atEq then equalsValueClause rules else pure ()) :=
  reads_iteAt (nested_equalsValueClause hr) (ReadsIf.pure _)

theorem nested_block {n : Nat} : ReadsIf (fun ts => Lookahead.kind ts = .lBrace)
    (Each (Nested (n + 1))) (block rules) :=
  readsIf_required (by decide) (Nat.succ_pos n) ((Reads.untilAny _ hr.statement).bind fun _ =>
    Reads.require _ _)

theorem nested_parameter (implicitType : Bool) : Reads (Nested 3) (parameter rules implicitType) := by
  have hname : Reads (Nested 2) (require .identifier "expected parameter name" >>= fun _ =>
      isAt .eq >>= fun atEq => if atEq then equalsValueClause rules else pure ()) :=
    (Reads.require _ _).bind fun _ => nested_value hr
  refine reads_lower (by decide) (nested_attributeLists.bind fun _ => (Reads.isAtAny _).bind fun _ => ?_)
  refine Reads.opt (reads_lower (by decide) (Reads.whileAhead Reads.bump)) fun _ => ?_
  refine (Reads.isAt _).bind fun _ => (Reads.isAtNth _ _).bind fun _ =>
    (Reads.isAtNth _ _).bind fun _ => ?_
  exact Reads.ite hname (nested_type.bind fun _ => hname)

theorem nested_argument : Reads (Nested 6) (argument rules) := by
  have hvalue : Reads (Nested 5) (isAtAny [.refKw, .outKw, .inKw] >>= fun passed =>
      if passed then
        isAt .outKw >>= fun out => bump >>= fun _ => ask Lookahead.atOutDeclaration >>= fun declares =>
          if out && declares then type >>= fun _ => bump else expression rules
      else expression rules) := by
    refine (Reads.isAtAny _).bind fun _ => Reads.ite ?_ (hr.expression 0)
    refine (Reads.isAt _).bind fun _ => Reads.bump.bind fun _ => (Reads.ask _).bind fun _ => ?_
    exact Reads.ite ((nested_type.up (by decide)).bind fun _ => Reads.bump) (hr.expression 0)
  have hcolon : Reads (Nested 5) (node .nameColon (leaf .identifierName >>= fun _ => bump)) :=
    reads_lower (by decide) ((nested_leaf (by decide)).bind fun _ => Reads.bump)
  refine reads_lower (by decide) ((Reads.isAt _).bind fun _ => (Reads.isAtNth _ _).bind fun _ => ?_)
  exact Reads.opt hcolon fun _ => hvalue

theorem nested_arguments (closing : Kind) (message : String) : Reads (Nested 6)
    (separatedUntil [closing, .eof] (argument rules) >>= fun _ => require closing message) :=
  (Reads.separatedUntil _ (nested_argument hr)).bind fun _ => Reads.require _ _

/-- Arguments start with their bracket. -/
theorem nested_argumentList :
    ReadsFirm (fun ts => Lookahead.kind ts = .lParen) 1 1 (argumentList rules) :=
  readsFirm_node (ReadsIf.token_bind (Reads.require_token (show Kind.lParen ≠ .eof by decide) _)
    fun _ => nested_arguments hr _ _) (by simp) (by decide) (by decide)

theorem nested_bracketedArgumentList :
    ReadsFirm (fun ts => Lookahead.kind ts = .lBracket) 1 1 (bracketedArgumentList rules) :=
  readsFirm_node (ReadsIf.token_bind (Reads.require_token (show Kind.lBracket ≠ .eof by decide) _)
    fun _ => nested_arguments hr _ _) (by simp) (by decide) (by decide)

theorem nested_lambdaBody : Reads (Nested 5) (lambdaBody rules) :=
  (Reads.require _ _).bind fun _ => reads_iteAt (nested_block hr) (hr.expression 0)

/-- A lambda takes `async`, or its parameter takes text. -/
theorem nested_simpleLambda (isAsync : Bool) : ReadsIf (fun ts => Lookahead.kind ts ≠ .eof)
    (Each (Nested 5)) (simpleLambda rules isAsync) := by
  have hleaf : ReadsFirm (fun ts => Lookahead.kind ts ≠ .eof) 5 4 (leaf .parameter) :=
    readsFirm_node (m := 0) Reads.bump_token (by simp) (by decide) (by decide)
  have hbody := nested_lambdaBody hr
  cases isAsync with
  | true => exact readsIf_ahead (by decide) ((nested_leaf (by decide)).bind fun _ => hbody)
  | false => exact (hleaf.bind fun _ => hbody).node (by simp) (by decide)

/-- A lambda takes `async`, or its parameter list takes its parenthesis. -/
theorem nested_parenthesizedLambda (isAsync : Bool) : ReadsIf (fun ts => Lookahead.kind ts ≠ .eof)
    (Each (Nested 5)) (parenthesizedLambda rules isAsync) := by
  have hparameters : Reads (Nested 3) (separatedUntil [.rParen, .eof] (parameter rules true) >>=
      fun _ => require .rParen "expected `)`") :=
    (Reads.separatedUntil _ (nested_parameter hr true)).bind fun _ => Reads.require _ _
  have hbody := nested_lambdaBody hr
  cases isAsync with
  | true =>
      refine readsIf_ahead (by decide) (ReadsIf.bind ?_ fun _ => hbody)
      exact reads_lower (by decide) (Reads.bump.bind fun _ => hparameters)
  | false =>
      refine ReadsFirm.node (ReadsFirm.bind ?_ fun _ => hbody) (by simp) (by decide)
      exact readsFirm_node (ReadsIf.token_bind Reads.bump_token fun _ => hparameters) (by simp)
        (by decide) (by decide)

theorem nested_creationRank {n : Nat} : ReadsIf (fun ts => Lookahead.kind ts = .lBracket)
    (Each (Nested (n + 1))) (creationRank rules) := by
  refine (readsIf_ahead (m := 5) (Nat.succ_pos n) (ReadsIf.bind ?_ fun _ =>
    Reads.require _ _)).weaken fun _ => ne_eof_of_kind_eq (by decide)
  refine Reads.separatedUntil _ ((Reads.isAt _).bind fun _ => ?_)
  exact Reads.ite (ReadsIf.pure _) (hr.expression 0)

theorem nested_objectCreation : ReadsIf (fun ts => Lookahead.kind ts ≠ .eof) (Each (Nested 5))
    (objectCreation rules) := by
  refine readsIf_ahead (m := 5) (by decide) ((Reads.ask _).bind fun _ => ?_)
  refine Reads.opt (nested_createdType.up (by decide)) fun _ => ReadsIf.bind ?_ fun _ => ?_
  · exact Reads.whileAhead_of ((nested_creationRank hr).weaken fun ts h => by simpa using h)
  · refine reads_optAt ((nested_argumentList hr).reads.up (by decide)) fun _ => ?_
    exact reads_iteAt hr.initializer (ReadsIf.pure _)

theorem nested_initializer : ReadsIf (fun ts => Lookahead.kind ts = .lBrace) (Each (Nested 5))
    (initializer rules) := by
  refine readsIf_required (m := 5) (by decide) (by decide) (ReadsIf.bind ?_ fun _ =>
    Reads.require _ _)
  exact Reads.separatedUntil _ (reads_iteAt hr.initializer (hr.expression 0))

theorem nested_afterParen : ReadsIf (fun ts => Lookahead.kind ts ≠ .eof) (Each (Nested 5))
    (afterParen rules) := by
  refine ReadsIf.ask_bind fun _ => ReadsIf.ite (fun _ => ?_) fun _ => ReadsIf.ask_bind fun _ =>
    ReadsIf.ite (fun _ => ?_) fun _ => ?_
  · exact (nested_parenthesizedLambda hr _).weaken fun _ h => h.1
  · refine (readsIf_ahead (by decide) ((nested_type.up (by decide)).bind fun _ =>
      (Reads.require _ _).bind fun _ => hr.unary)).weaken fun _ h => h.1.1
  · refine (readsIf_ahead (by decide) ((hr.expression 0).bind fun _ =>
      Reads.require _ _)).weaken fun _ h => h.1.1

theorem nested_afterIdentifier : ReadsIf (fun ts => Lookahead.kind ts ≠ .eof) (Each (Nested 5))
    (afterIdentifier rules) := by
  refine ReadsIf.ask_bind fun _ => ReadsIf.ask_bind fun _ => ReadsIf.ask_bind fun _ => ?_
  refine ReadsIf.ite (fun _ => (nested_parenthesizedLambda hr _).weaken fun _ h => h.1.1.1) fun _ => ?_
  refine ReadsIf.ask_bind fun _ => ReadsIf.ask_bind fun _ => ?_
  refine ReadsIf.ite (fun _ => (nested_simpleLambda hr _).weaken fun _ h => h.1.1.1.1.1) fun _ => ?_
  refine ReadsIf.ask_bind fun _ => ?_
  refine ReadsIf.ite (fun _ => (nested_simpleLambda hr _).weaken fun _ h => h.1.1.1.1.1.1) fun _ => ?_
  refine ReadsIf.ask_bind fun _ => ReadsIf.ite (fun _ => ?_) fun _ => ?_
  · exact (nested_aliasQualifiedExpression.up (by decide)).weaken fun _ _ => trivial
  · exact (nested_expressionName.up (by decide)).weaken fun _ _ => trivial

theorem nested_primary : Reads (Nested 5) (primary rules) := by
  have htypeof : ReadsIf (fun ts => Lookahead.kind ts ≠ .eof) (Each (Nested 5))
      (node .typeOfExpression (bump >>= fun _ => require .lParen "expected `(`" >>= fun _ =>
        type >>= fun _ => require .rParen "expected `)`")) :=
    readsIf_ahead (by decide) ((Reads.require _ _).bind fun _ => nested_type.bind fun _ =>
      Reads.require _ _)
  have hdefault : ReadsIf (fun ts => Lookahead.kind ts ≠ .eof) (Each (Nested 5))
      (node .defaultExpression (bump >>= fun _ => eat .lParen >>= fun opened => if opened then
        type >>= fun _ => require .rParen "expected `)`" else pure ())) :=
    readsIf_ahead (by decide) ((Reads.eat _).bind fun _ =>
      Reads.ite (nested_type.bind fun _ => Reads.require _ _) (ReadsIf.pure _))
  refine ReadsIf.ask_bind fun k => ?_
  split
  case h_10 => exact htypeof.weaken fun _ h => ne_eof_of_kind_eq (by decide) h.2
  case h_11 => exact hdefault.weaken fun _ h => ne_eof_of_kind_eq (by decide) h.2
  case h_12 => exact (nested_objectCreation hr).weaken fun _ h => ne_eof_of_kind_eq (by decide) h.2
  case h_13 => exact (nested_afterParen hr).weaken fun _ h => ne_eof_of_kind_eq (by decide) h.2
  case h_14 => exact (nested_afterIdentifier hr).weaken fun _ h => ne_eof_of_kind_eq (by decide) h.2
  case h_15 =>
    refine ReadsIf.ite (fun _ => ?_) fun _ => (Reads.complain _).weaken fun _ _ => trivial
    exact (nested_leaf (by decide)).weaken fun _ _ => trivial
  -- Literals, `this` and `base` are single tokens.
  all_goals exact (nested_leaf (by decide)).weaken fun _ _ => trivial

theorem nested_postfixPart :
    ReadsFrom (fun _ => True) (Each (Nested 5)) (Each (Nested 5)) (postfixPart rules) := by
  have hmember : ReadsFrom (fun ts => Lookahead.kind ts ≠ .eof) (Each (Nested 5)) (Each (Nested 5))
      fun start => nodeFrom start .memberAccessExpression (bump >>= fun _ =>
        isAt .identifier >>= fun named =>
          if named then expressionName else complain "expected member name") :=
    readsFrom_ahead (by decide) ((Reads.isAt _).bind fun _ =>
      Reads.ite (nested_expressionName.up (by decide)) (Reads.complain _))
  have hcall : ReadsFrom (fun ts => Lookahead.kind ts = .lParen) (Each (Nested 5)) (Each (Nested 5))
      fun start => nodeFrom start .invocationExpression (argumentList rules) :=
    ((nested_argumentList hr).up (by decide)).nodeFrom (by decide)
  have hindex : ReadsFrom (fun ts => Lookahead.kind ts = .lBracket) (Each (Nested 5))
      (Each (Nested 5)) fun start =>
        nodeFrom start .elementAccessExpression (bracketedArgumentList rules) :=
    ((nested_bracketedArgumentList hr).up (by decide)).nodeFrom (by decide)
  have hstep : ReadsFrom (fun ts => Lookahead.kind ts ≠ .eof) (Each (Nested 5)) (Each (Nested 5))
      fun start => nodeFrom start .postfixUnaryExpression bump :=
    readsFirm_bump.nodeFrom (by decide)
  intro s₀ s front hs hext hfront _
  refine Yields.ask ?_
  split
  case h_1 hkind | h_2 hkind =>
    exact hmember.andContinue s₀ s front hs hext hfront (ne_eof_of_kind_eq (by decide) hkind)
  case h_3 hkind => exact hcall.andContinue s₀ s front hs hext hfront hkind
  case h_4 hkind => exact hindex.andContinue s₀ s front hs hext hfront hkind
  case h_5 hkind | h_6 hkind =>
    exact hstep.andContinue s₀ s front hs hext hfront (ne_eof_of_kind_eq (by decide) hkind)
  case h_7 hkind =>
    refine Yields.ask (Yields.ask ?_)
    split
    · exact YieldsFrom.pure hext ⟨hfront, List.suffix_refl _⟩
    · exact hstep.andContinue s₀ s front hs hext hfront (ne_eof_of_kind_eq (by decide) hkind)
  case h_8 => exact YieldsFrom.pure hext ⟨hfront, List.suffix_refl _⟩

theorem nested_operand : Reads (Nested 5) (operand rules) :=
  reads_climb (nested_primary hr) (nested_postfixPart hr)

theorem nested_unary : Reads (Nested 5) (unary rules) := by
  have hprefixed : ReadsIf (fun ts => Lookahead.kind ts ≠ .eof) (Each (Nested 5))
      (node .prefixUnaryExpression (bump >>= fun _ => rules .unary)) :=
    readsIf_ahead (by decide) hr.unary
  have hoperand := nested_operand hr
  refine ReadsIf.ask_bind fun k => ?_
  split
  case h_10 =>
    refine ReadsIf.ask_bind fun _ => ReadsIf.ite (fun _ => ?_) fun _ => ?_
    · exact hprefixed.weaken fun _ h => ne_eof_of_kind_eq (by decide) h.1.2
    · exact hoperand.weaken fun _ _ => trivial
  case h_11 => exact hoperand.weaken fun _ _ => trivial
  all_goals exact hprefixed.weaken fun _ h => ne_eof_of_kind_eq (by decide) h.2

/-! ## Operators -/

omit hr in
/-- An operator is a token, and makes a node of the lowest level. -/
theorem level_of_binding? {ts : List Token} {binding : Lookahead.Binding}
    (h : Lookahead.binding? ts = some binding) :
    Lookahead.kind ts ≠ .eof ∧ binding.node.level = 0 := by
  have hkind : ∀ k, Lookahead.Binding.ofKind? k = some binding → k ≠ .eof ∧ binding.node.level = 0 := by
    intro k hk
    unfold Lookahead.Binding.ofKind? at hk
    split at hk <;> cases hk <;> exact ⟨by decide, rfl⟩
  have hshift : ∀ k, Lookahead.shiftTail? ts = some k → Lookahead.kind ts ≠ .eof := by
    intro k hk
    unfold Lookahead.shiftTail? at hk
    split at hk
    case h_2 => simp at hk
    case h_1 a b _ hts =>
      split at hk
      case isFalse => simp at hk
      case isTrue hgreater =>
        simp only [Bool.and_eq_true, beq_iff_eq] at hgreater
        simp [Lookahead.kind, Lookahead.headKind?, hts, hgreater.1]
  unfold Lookahead.binding? at h
  split at h
  case h_1 htail => exact ⟨hshift _ htail, by cases h; rfl⟩
  case h_2 _ htail => exact ⟨hshift _ htail, by cases h; rfl⟩
  case h_3 => exact hkind _ h

theorem nested_binaryPart (power : Nat) :
    ReadsFrom (fun _ => True) (Each (Nested 5)) (Each (Nested 5)) (binaryPart rules power) := by
  have hoperator : ∀ binding : Lookahead.Binding, binding.node.level = 0 → ∀ isShift : Bool,
      ReadsFrom (fun ts => Lookahead.kind ts ≠ .eof ∧ (Lookahead.shiftTail? ts).isSome = isShift)
        (Each (Nested 5)) (Each (Nested 5)) fun start => nodeFrom start binding.node (bump >>= fun _ =>
          if isShift then take >>= fun _ => rules (.expression binding.right)
          else rules (.expression binding.right)) := by
    intro binding hlevel isShift
    have hk : binding.node.level < 5 := by omega
    have hright := hr.expression binding.right
    cases isShift with
    | true =>
        refine ReadsFirm.nodeFrom (readsFirm_of_token ?_) hk
        exact (readsIf_shift hright).weaken fun _ h => h.2
    | false => exact (readsFrom_ahead hk hright).weaken fun _ h => h.1
  intro s₀ s front hs hext hfront _
  refine Yields.ask ?_
  split
  case h_1 => exact YieldsFrom.pure hext ⟨hfront, List.suffix_refl _⟩
  case h_2 binding hbinding =>
    split
    · exact YieldsFrom.pure hext ⟨hfront, List.suffix_refl _⟩
    · obtain ⟨hne, hlevel⟩ := level_of_binding? hbinding
      refine Yields.ask ?_
      exact (hoperator binding hlevel _).andContinue s₀ s front hs hext hfront ⟨hne, rfl⟩

theorem nested_infixPart (power : Nat) :
    ReadsFrom (fun _ => True) (Each (Nested 5)) (Each (Nested 5)) (infixPart rules power) := by
  have hconditional : ReadsFrom (fun ts => Lookahead.kind ts ≠ .eof) (Each (Nested 5))
      (Each (Nested 5)) (conditionalPart rules power) := by
    refine ReadsFrom.ite (fun _ => ReadsFrom.pure _) fun _ => ReadsFrom.andContinue ?_
    exact readsFrom_ahead (by decide) ((hr.expression 0).bind fun _ => (Reads.require _ _).bind fun _ =>
      hr.expression _)
  have his : ReadsFrom (fun ts => Lookahead.kind ts ≠ .eof) (Each (Nested 5)) (Each (Nested 5))
      (isPart rules power) := by
    refine ReadsFrom.ite (fun _ => ReadsFrom.pure _) fun _ => ReadsFrom.andContinue ?_
    refine readsFrom_ahead (by decide) ((Reads.ask _).bind fun _ => Reads.ite ?_ (hr.expression _))
    exact (nested_type.up (by decide)).bind fun _ => (Reads.eat _).bind fun _ => ReadsIf.pure _
  have has : ReadsFrom (fun ts => Lookahead.kind ts ≠ .eof) (Each (Nested 5)) (Each (Nested 5))
      (asPart power) := by
    refine ReadsFrom.ite (fun _ => ReadsFrom.pure _) fun _ => ReadsFrom.andContinue ?_
    exact readsFrom_ahead (by decide) (nested_type.up (by decide))
  intro s₀ s front hs hext hfront hc
  refine Yields.ask ?_
  split
  case h_1 hkind => exact hconditional s₀ s front hs hext hfront (ne_eof_of_kind_eq (by decide) hkind)
  case h_2 hkind => exact his s₀ s front hs hext hfront (ne_eof_of_kind_eq (by decide) hkind)
  case h_3 hkind => exact has s₀ s front hs hext hfront (ne_eof_of_kind_eq (by decide) hkind)
  case h_4 => exact nested_binaryPart hr power s₀ s front hs hext hfront hc

theorem nested_expressionAbove (power : Nat) : Reads (Nested 5) (expressionAbove rules power) :=
  reads_climb hr.unary (nested_infixPart hr power)

end

end Grammar

end CSharpKit.Syntax
