import CSharpKit.Proofs.Syntax.CleanTypes

/-!
# Forms of rows

What stands side by side in a node whose reader had nothing to complain about. A `Layout` is a
form of trees in a row, trivia left out, and rows are put behind one another like the parts
of the grammar. `form` has the row of the kinds of nodes that are of interest; a tree is
`Whole` if each of its nodes has the form of its kind.

`FormsIf` says of a parser that it makes whole trees in a row of some form, as long as there
is nothing to complain about. There is one rule for each way to put parsers together, so the
proof for a reader follows its text.
-/

namespace CSharpKit.Syntax

open Syntax.Tree CSharpKit.Syntax.Parser

/-! ## Rows -/

namespace Tree

/-- The trees in a row that are not trivia. -/
def bare (cs : Forest) : Forest := cs.filter fun t => t.isNode || !t.kind.isTrivia

@[simp] theorem bare_append (xs ys : Forest) : bare (xs ++ ys) = bare xs ++ bare ys :=
  List.filter_append ..

@[simp] theorem bare_nil : bare [] = [] := rfl

@[simp] theorem bare_triviaAhead (ts : List Token) : bare (triviaAhead ts) = [] := by
  rw [bare, List.filter_eq_nil_iff]
  exact triviaAhead_all (fun k text hk => by simp [isNode, Tree.kind, hk]) ts

/-- A token behind the trivia before it. -/
theorem bare_behind {t : Token} (h : t.isTrivia = false) (ts : List Token) :
    bare (triviaAhead ts ++ [t.tree]) = [.token t.kind t.text] := by
  have hplain : t.kind.isTrivia = false := h
  rw [bare_append, bare_triviaAhead, List.nil_append]
  simp [bare, Token.tree, isNode, Tree.kind, hplain]

@[simp] theorem bare_node (k : Kind) (cs : Forest) : bare [.node k cs] = [.node k cs] := rfl

end Tree

/-- A form of trees in a row. -/
abbrev Layout := Forest → Prop

namespace Layout

/-- Anything. -/
def any : Layout := fun _ => True

/-- A token of some kind. -/
def token (p : Kind → Bool) : Layout := fun row => ∃ k text, row = [.token k text] ∧ p k = true

/-- A node of some kind. -/
def node (p : Kind → Bool) : Layout := fun row => ∃ k cs, row = [.node k cs] ∧ p k = true

/-- A part that may be left out. -/
def opt (F : Layout) : Layout := fun row => row = [] ∨ F row

/-- Any number of nodes of some kind. -/
def many (p : Kind → Bool) : Layout := fun row => ∀ t ∈ row, t.isNode = true ∧ p t.kind = true

/-- One part behind another. -/
def andThen (F G : Layout) : Layout := fun row =>
  ∃ front more, row = front ++ more ∧ F front ∧ G more

variable {F G : Layout} {p q : Kind → Bool}

theorem node.imp (h : ∀ k, p k = true → q k = true) {row : Forest} (hrow : node p row) :
    node q row := by
  obtain ⟨k, cs, rfl, hk⟩ := hrow
  exact ⟨k, cs, rfl, h k hk⟩

theorem node.many {row : Forest} (h : node p row) : many p row := by
  obtain ⟨k, cs, rfl, hk⟩ := h
  intro t ht
  obtain rfl := List.mem_singleton.mp ht
  exact ⟨rfl, hk⟩

/-- A form that may be repeated. -/
structure Repeats (F : Layout) : Prop where
  nil : F []
  append : ∀ xs ys, F xs → F ys → F (xs ++ ys)

theorem repeats_any : Repeats any := ⟨trivial, fun _ _ _ _ => trivial⟩

theorem repeats_many : Repeats (many p) :=
  ⟨List.forall_mem_nil _, fun _ _ hx hy => List.forall_mem_append.mpr ⟨hx, hy⟩⟩

end Layout

/-- A token of one kind. -/
abbrev Layout.the (kind : Kind) : Layout := .token (· == kind)

/-- Some token that is read. -/
abbrev Layout.mark : Layout := .token (· != .eof)

/-- A written type as one node. -/
abbrev Layout.type : Layout := .node Kind.isType

/-- An expression as one node. -/
abbrev Layout.expr : Layout := .node Kind.isExpr

/-- Expressions with an operator behind the first operand. -/
def Kind.isOperation (k : Kind) : Bool :=
  [.binaryExpression, .assignmentExpression, .conditionalExpression, .isExpression,
    .asExpression].contains k

/-- An operation as one node. -/
abbrev Layout.operation : Layout := .node Kind.isOperation

/-- An argument behind its name: a variable that it declares behind `out`, or a value. -/
def Layout.passed : Layout := fun row =>
  Layout.andThen (.the .outKw) (.andThen .type .mark) row ∨ Layout.andThen (.opt .mark) .expr row

/-- The form of nodes of a kind. -/
def form : Kind → Layout
  | .argument => .andThen (.opt (.node (· == .nameColon))) .passed
  | .castExpression => .andThen (.the .lParen) (.andThen .type (.andThen (.the .rParen) .expr))
  | .asExpression => .andThen .expr (.andThen (.the .asKw) .type)
  | .defaultExpression =>
    .andThen (.the .defaultKw) (.opt (.andThen (.the .lParen) (.andThen .type (.the .rParen))))
  | .objectCreationExpression => .andThen (.the .newKw) (.andThen (.opt .type) (.andThen
      (.many (· == .arrayRankSpecifier))
      (.many fun k => k == .argumentList || k == .initializerExpression)))
  | _ => .any

namespace Tree

/-- Every node has the form of its kind. -/
def Whole : Tree → Prop := All (fun k cs => form k (bare cs)) fun _ _ => True

theorem whole_token (k : Kind) (text : String) : Whole (.token k text) := all_token.mpr trivial

instance : OfTokens Whole where
  of_token := whole_token

theorem whole_node {k : Kind} {cs : Forest} :
    Whole (.node k cs) ↔ form k (bare cs) ∧ ∀ c ∈ cs, Whole c := all_node

theorem form_of_isTypePart {k : Kind} (hk : isTypePart k = true) (row : Forest) : form k row := by
  unfold form
  split <;> trivial

/-- Nothing is said of the nodes of a type. -/
theorem IsTypeSyntax.whole {t : Tree} (h : IsTypeSyntax t) : Whole t :=
  All.imp (fun _ _ _ hk => form_of_isTypePart hk _) (fun _ _ _ => trivial) h

end Tree

/-! ## Runs -/

namespace Parser

variable {α β : Type} {inside : Bool} {C C' : List Token → Prop} {F G H : Layout} {n : Prop}

/-- The run from `s` to `s'` reads the trees `new`; if there is nothing to complain about,
these are whole and make a row of the form `F`. -/
structure Forming (inside : Bool) (F : Layout) (s s' : ParserState) (new : Forest) : Prop where
  ext : Extends s s' new
  errors : s.errors <:+ s'.errors
  whole : Smooth inside s s' → Each Whole new ∧ F (bare new)

namespace Forming

variable {s s₁ s₂ : ParserState} {f g : Forest}

theorem refl (hF : F []) (s : ParserState) : Forming inside F s s [] :=
  ⟨Extends.refl s, List.suffix_refl _, fun _ => ⟨Each.nil, hF⟩⟩

theorem imp (h : Forming inside F s s₁ f) (hFG : ∀ row, F row → G row) :
    Forming inside G s s₁ f :=
  ⟨h.ext, h.errors, fun hsmooth => (h.whole hsmooth).imp_right (hFG _)⟩

theorem trans (h : Forming inside F s s₁ f) (h' : Forming inside G s₁ s₂ g) :
    Forming inside (F.andThen G) s s₂ (f ++ g) := by
  refine ⟨h.ext.trans h'.ext, h.errors.trans h'.errors, fun hsmooth => ?_⟩
  obtain ⟨hfirst, hsecond⟩ := hsmooth.split h.errors h'.ext h'.errors
  obtain ⟨hf, hfront⟩ := h.whole hfirst
  obtain ⟨hg, hmore⟩ := h'.whole hsecond
  exact ⟨hf.append hg, bare f, bare g, bare_append f g, hfront, hmore⟩

/-- Trivia before a run does not count. -/
theorem behind_trivia (h : Forming inside F (flushTrivia.run s).2 s₁ f) :
    Forming inside F s s₁ (triviaAhead s.rest ++ f) := by
  refine ⟨(extends_flushTrivia s).trans h.ext, h.errors, fun hsmooth => ?_⟩
  obtain ⟨hf, hrow⟩ := h.whole hsmooth
  refine ⟨Each.append (OfTrivia.ahead _) hf, ?_⟩
  rwa [bare_append, bare_triviaAhead, List.nil_append]

theorem opened (h : Forming inside F s s₁ f) (kind : Kind) (first : Nat) :
    Forming inside F (opening s kind first) (opening s₁ kind first) f :=
  ⟨h.ext.opening kind first, h.errors, h.whole⟩

/-- A node around what was read since the start of a run. -/
theorem closed {kind : Kind} {p : Kind → Bool}
    (h : Forming inside (form kind) (opening s kind s.builder.mark) s₁ f) (hkind : p kind = true) :
    Forming inside (.node p) s (finishNode.run s₁).2 [.node kind f] := by
  obtain ⟨hext, hrest⟩ := extends_finishNode h.ext
  have herrors := errors_finishNode s₁
  refine ⟨hext, herrors ▸ h.errors, fun hsmooth => ?_⟩
  rw [Smooth, herrors, hrest] at hsmooth
  obtain ⟨hf, hform⟩ := h.whole hsmooth
  exact ⟨Each.singleton (whole_node.mpr ⟨hform, hf⟩), kind, f, bare_node kind f, hkind⟩

end Forming

/-! ## Readers -/

/-- Seen from `s₀`, running a parser in the state `s` makes trees in a row of a form. -/
abbrev Forms (inside : Bool) (F : Layout) (s₀ : ParserState) (p : Parser α) (s : ParserState) :
    Prop :=
  ∃ new, Forming inside F s₀ (p.run s).2 new

theorem Forms.run_bind {s₀ s : ParserState} {p : Parser α} {f : α → Parser β}
    (h : Forms inside F s₀ (f (p.run s).1) (p.run s).2) : Forms inside F s₀ (p >>= f) s := h

theorem Forms.mark {s₀ s : ParserState} {f : Nat → Parser β}
    (h : Forms inside F s₀ (f (flushTrivia.run s).2.builder.mark) (flushTrivia.run s).2) :
    Forms inside F s₀ (mark >>= f) s := h

theorem Forms.ask {s₀ s : ParserState} {question : List Token → α} {f : α → Parser β}
    (h : Forms inside F s₀ (f (question s.rest)) s) : Forms inside F s₀ (ask question >>= f) s := h

theorem Forms.congr {s₀ s s' : ParserState} {p q : Parser α} (heq : (p.run s).2 = (q.run s').2)
    (h : Forms inside F s₀ q s') : Forms inside F s₀ p s := by
  obtain ⟨new, hnew⟩ := h
  exact ⟨new, heq ▸ hnew⟩

/-- The runs of a parser make whole trees in a row of a form, if the tokens ahead are as `C`
says and there is nothing to complain about. -/
def FormsIf (inside : Bool) (C : List Token → Prop) (F : Layout) (p : Parser α) : Prop :=
  ∀ s, Underway s → C s.rest → Forms inside F s p s

namespace FormsIf

variable {p q : Parser α} {f : α → Parser β}

theorem weaken (h : FormsIf inside C' F p) (hC : ∀ ts, C ts → C' ts) : FormsIf inside C F p :=
  fun s hs hc => h s hs (hC _ hc)

theorem under (h : FormsIf inside (fun _ => True) F p) : FormsIf inside C F p :=
  h.weaken fun _ _ => trivial

theorem imp (h : FormsIf inside C F p) (hFG : ∀ row, F row → G row) : FormsIf inside C G p :=
  fun s hs hc => (h s hs hc).imp fun _ hnew => hnew.imp hFG

theorem free (h : FormsIf inside C F p) : FormsIf inside C .any p := h.imp fun _ _ => trivial

/-- Outside of brackets less is known. -/
theorem within (h : FormsIf false C F p) : FormsIf inside C F p := fun s hs hc =>
  (h s hs hc).imp fun _ hnew => ⟨hnew.ext, hnew.errors, fun hsmooth => hnew.whole ⟨hsmooth.1, nofun⟩⟩

/-- What a parser reads in runs without a complaint. -/
theorem of_clean (hneat : NeatIf inside n C p)
    (h : ∀ s, Underway s → C s.rest → Clean s p s fun _ new _ => Each Whole new ∧ F (bare new)) :
    FormsIf inside C F p := by
  intro s hs hc
  obtain ⟨new, hnew⟩ := hneat s hs.sound hs.ended hc
  refine ⟨new, hnew.ext, hnew.errors, fun hsmooth => ?_⟩
  obtain ⟨more, hext, hmore⟩ := h s hs hc hsmooth.1
  rwa [hnew.ext.unique hext]

theorem of_reads (hneat : NeatIf inside n C p) (h : ReadsIf C (Each Whole) p) :
    FormsIf inside C .any p :=
  of_clean hneat fun s hs hc _ => (h s hs.sound hc).mono fun _ _ _ hnew => ⟨hnew, trivial⟩

theorem pure_of (hF : F []) (a : α) : FormsIf inside C F (Pure.pure a : Parser α) :=
  fun s _ _ => ⟨[], .refl hF s⟩

theorem pure (a : α) : FormsIf inside C .any (Pure.pure a : Parser α) := pure_of trivial a

/-- What follows a parser knows how it leaves the tokens ahead. -/
theorem seq_leaves (hp : FormsIf inside C F p) (hleaves : Leaves C C' p)
    (hf : ∀ a, FormsIf inside C' G (f a)) : FormsIf inside C (F.andThen G) (p >>= f) := by
  intro s hs hc
  obtain ⟨new, hnew⟩ := hp s hs hc
  obtain ⟨more, hmore⟩ := hf (p.run s).1 (p.run s).2 (hnew.ext.underway hs) (hleaves s hc).2
  exact ⟨new ++ more, hnew.trans hmore⟩

theorem seq (hp : FormsIf inside C F p) (hf : ∀ a, FormsIf inside (fun _ => True) G (f a)) :
    FormsIf inside C (F.andThen G) (p >>= f) := by
  intro s hs hc
  obtain ⟨new, hnew⟩ := hp s hs hc
  obtain ⟨more, hmore⟩ := hf (p.run s).1 (p.run s).2 (hnew.ext.underway hs) trivial
  exact ⟨new ++ more, hnew.trans hmore⟩

/-- A parser and what follows, where nothing is said of the row. -/
theorem bind (hp : FormsIf inside C F p) (hf : ∀ a, FormsIf inside (fun _ => True) G (f a)) :
    FormsIf inside C .any (p >>= f) := (seq hp hf).free

theorem get_bind {f : ParserState → Parser β} (hf : ∀ s, FormsIf inside C F (f s)) :
    FormsIf inside C F (get >>= f) := fun s => hf s s

/-- What follows a question knows the answer. -/
theorem ask_bind {question : List Token → α}
    (hf : ∀ a, FormsIf inside (fun ts => C ts ∧ question ts = a) F (f a)) :
    FormsIf inside C F (ask question >>= f) := fun s hs hc => hf _ s hs ⟨hc, rfl⟩

theorem ask (question : List Token → α) : FormsIf inside C .any (ask question) :=
  fun s _ _ => ⟨[], .refl trivial s⟩

theorem ite {c : Prop} [Decidable c] (hp : c → FormsIf inside C F p)
    (hq : ¬c → FormsIf inside C F q) : FormsIf inside C F (if c then p else q) := by
  split
  · exact hp ‹_›
  · exact hq ‹_›

/-- A part that may be left out before another. -/
theorem opt {c : Prop} [Decidable c] {p : Parser Unit} {f : Unit → Parser β}
    (hp : c → FormsIf inside C F p) (hf : ∀ u, FormsIf inside (fun _ => True) G (f u)) :
    FormsIf inside C (.andThen (.opt F) G) (if c then p >>= f else f ()) := by
  refine ite (fun hc => (seq (hp hc) hf).imp ?_) fun _ => (hf ()).under.imp ?_
  · rintro row ⟨front, more, rfl, hfront, hmore⟩
    exact ⟨front, more, rfl, .inr hfront, hmore⟩
  · intro row hrow
    exact ⟨[], row, rfl, .inl rfl, hrow⟩

theorem opt_any {c : Prop} [Decidable c] {p : Parser Unit} {f : Unit → Parser β}
    (hp : c → FormsIf inside C F p) (hf : ∀ u, FormsIf inside (fun _ => True) G (f u)) :
    FormsIf inside C .any (if c then p >>= f else f ()) := (opt hp hf).free

/-- Where there is a complaint, any form will do. -/
theorem complain (message : String) : FormsIf inside C F (complain message) := by
  intro s hs _
  unfold Forms
  rw [run_complain message hs.ended]
  refine ⟨[], .of_same rfl rfl rfl, List.suffix_cons _ _, fun hsmooth => ?_⟩
  exact absurd (congrArg List.length hsmooth.1) (Nat.succ_ne_self _)

theorem bump_any : FormsIf inside C .any bump := by
  intro s _ _
  by_cases heof : Lookahead.kind s.rest = .eof
  · refine ⟨triviaAhead s.rest, ?_, by simp [errors_bump], fun _ => ⟨OfTrivia.ahead _, trivial⟩⟩
    rw [bump_at_eof heof]
    exact extends_flushTrivia s
  · obtain ⟨new, hext, t, -, -, rfl⟩ := yields_bump heof
    refine ⟨_, hext, by simp [errors_bump], fun _ => ⟨?_, trivial⟩⟩
    exact Each.append (OfTrivia.ahead _) (Each.singleton (whole_token _ _))

theorem bump {p : Kind → Bool} (hC : ∀ ts, C ts → p (Lookahead.kind ts) = true)
    (heof : p .eof = false) : FormsIf inside C (.token p) Parser.bump := by
  intro s _ hc
  have hp := hC _ hc
  have hne : Lookahead.kind s.rest ≠ .eof := by
    intro hkind
    rw [hkind, heof] at hp
    cases hp
  obtain ⟨new, hext, t, hrest, hkind, rfl⟩ := yields_bump hne
  refine ⟨_, hext, by simp [errors_bump], fun _ => ⟨?_, t.kind, t.text, ?_, hkind ▸ hp⟩⟩
  · exact Each.append (OfTrivia.ahead _) (Each.singleton (whole_token _ _))
  · exact bare_behind (not_isTrivia_of_significant hrest) s.rest

theorem bump_the {k : Kind} (hC : ∀ ts, C ts → Lookahead.kind ts = k) (hk : k ≠ .eof) :
    FormsIf inside C (.the k) Parser.bump :=
  bump (fun ts hts => beq_iff_eq.mpr (hC ts hts)) (beq_eq_false_iff_ne.mpr hk.symm)

/-- Inside brackets there is always a token to take. -/
theorem bump_inside : FormsIf true C .mark Parser.bump := by
  intro s hs hc
  by_cases heof : Lookahead.kind s.rest = .eof
  · have hany : FormsIf true C .any Parser.bump := bump_any
    obtain ⟨new, hext, herrors, -⟩ := hany s hs hc
    refine ⟨new, hext, herrors, fun hsmooth => ?_⟩
    have hne := hsmooth.2 rfl
    rw [bump_at_eof heof, rest_flushTrivia, kind_significant] at hne
    exact absurd heof hne
  · have hbump : FormsIf true (fun ts => Lookahead.kind ts ≠ .eof) .mark Parser.bump :=
      bump (fun _ hts => bne_iff_ne.mpr hts) rfl
    exact hbump s hs heof

/-- A node whose body makes the row of its kind. -/
theorem node_if {kind : Kind} {body : Parser Unit} {p : Kind → Bool} (hC : Steady C)
    (hbody : FormsIf inside C (form kind) body) (hkind : p kind = true) :
    FormsIf inside C (.node p) (Parser.node kind body) := by
  intro s hs hc
  have hrest := rest_flushTrivia s
  have hflush := (extends_flushTrivia s).underway hs
  have hahead : C (flushTrivia.run s).2.rest := hrest ▸ hC _ hc
  have hopen : Underway (opening (flushTrivia.run s).2 kind (flushTrivia.run s).2.builder.mark) :=
    ⟨sound_opening (Extends.refl _) kind, hflush.ended⟩
  obtain ⟨new, hnew⟩ := hbody _ hopen hahead
  exact ⟨_, (hnew.closed hkind).behind_trivia⟩

theorem node {kind : Kind} {body : Parser Unit} {p : Kind → Bool}
    (hbody : FormsIf inside (fun _ => True) (form kind) body) (hkind : p kind = true) :
    FormsIf inside C (.node p) (Parser.node kind body) :=
  (node_if (fun _ => id) hbody hkind).under

/-- A node where nothing is said of the row. -/
theorem node_any {kind : Kind} {body : Parser Unit}
    (hbody : FormsIf inside (fun _ => True) (form kind) body) :
    FormsIf inside C .any (Parser.node kind body) :=
  (node (p := fun _ => true) hbody rfl).free

/-! ### Single tokens -/

theorem require {kind : Kind} (hkind : kind ≠ .eof) (message : String) :
    FormsIf inside C (.the kind) (require kind message) := by
  refine of_clean (n := True) (NeatIf.require hkind message) fun s hs _ => ?_
  intro hclean
  refine (yields_require message (kind_of_require hs.ended hclean) hkind).mono ?_
  rintro - new rest ⟨t, hrest, rfl, rfl⟩
  refine ⟨Each.append (OfTrivia.ahead _) (Each.singleton (whole_token _ _)), t.kind, t.text, ?_,
    beq_self_eq_true _⟩
  exact bare_behind (not_isTrivia_of_significant hrest) s.rest

/-- What follows a token that is read where it stands ahead. -/
theorem eat_bind {kind : Kind} (hkind : kind ≠ .eof) {f : Bool → Parser β}
    (htaken : FormsIf inside (fun _ => True) F (f true)) (hmissing : FormsIf inside C G (f false))
    (htoken : ∀ row, Layout.andThen (.the kind) F row → H row) (hnone : ∀ row, G row → H row) :
    FormsIf inside C H (Parser.eat kind >>= f) := by
  intro s hs hc
  unfold Forms
  rw [run_eat_bind]
  split
  case isTrue hat =>
    have hbump : FormsIf inside (fun ts => Lookahead.kind ts = kind)
        (.andThen (.the kind) F) (Parser.bump >>= fun _ => f true) :=
      (bump_the (fun _ => id) hkind).seq fun _ => htaken
    exact hbump.imp htoken s hs (eq_of_beq hat)
  case isFalse => exact hmissing.imp hnone s hs hc

theorem eat (kind : Kind) : FormsIf inside C .any (eat kind) :=
  ask_bind fun _ => ite (fun _ => bump_any.bind fun _ => pure _) fun _ => pure _

theorem expect (kind : Kind) (message : String) : FormsIf inside C .any (expect kind message) :=
  ask_bind fun _ => ite (fun _ => bump_any.bind fun _ => pure _) fun _ =>
    (complain (F := .any) message).bind fun _ => pure _

theorem skip : FormsIf inside C .any skip :=
  ask_bind fun _ => ite (fun _ => pure _) fun _ => bump_any

/-- The reader of brackets sees to it that a token stands behind what is inside them. -/
theorem closed_by {closing : Kind} (hp : FormsIf true C F p) (hclosing : closing ≠ .eof)
    (message : String) :
    FormsIf false C (F.andThen (.the closing)) (p >>= fun _ => Parser.require closing message) := by
  intro s hs hc
  obtain ⟨new, hnew⟩ := hp s hs hc
  have hs' := hnew.ext.underway hs
  have hrequire : FormsIf false (fun _ => True) (.the closing)
      (Parser.require closing message) := require hclosing message
  obtain ⟨more, hmore⟩ := hrequire (p.run s).2 hs' trivial
  refine ⟨new ++ more, hnew.ext.trans hmore.ext, hnew.errors.trans hmore.errors, fun hsmooth => ?_⟩
  obtain ⟨-, hsecond⟩ := hsmooth.split hnew.errors hmore.ext hmore.errors
  have hkind : Lookahead.kind (p.run s).2.rest = closing := kind_of_require hs'.ended hsecond.1
  have houtside : Forming false F s (p.run s).2 new :=
    ⟨hnew.ext, hnew.errors, fun hsmooth => hnew.whole ⟨hsmooth.1, fun _ => hkind ▸ hclosing⟩⟩
  exact (houtside.trans hmore).whole hsmooth

/-! ### Repetition -/

theorem loopUpTo {step : Parser Bool} (hF : F.Repeats)
    (h : FormsIf inside (fun _ => True) F step) (count : Nat) :
    FormsIf inside (fun _ => True) F (loopUpTo step count) := by
  induction count with
  | zero => exact pure_of hF.nil _
  | succ count ih =>
      refine (h.seq fun _ => ite (fun _ => ih) fun _ => pure_of hF.nil _).imp ?_
      rintro row ⟨front, more, rfl, hfront, hmore⟩
      exact hF.append _ _ hfront hmore

theorem loop {step : Parser Bool} (hF : F.Repeats) (h : FormsIf inside (fun _ => True) F step) :
    FormsIf inside C F (loop step) := get_bind fun _ => (loopUpTo hF h _).under

theorem untilAny {kinds : List Kind} {body : Parser Unit}
    (h : FormsIf inside (fun _ => True) F body) : FormsIf inside C .any (untilAny kinds body) :=
  loop Layout.repeats_any (ask_bind fun _ => ite (fun _ => pure _) fun _ => h.under.bind fun _ => pure _)

theorem whileAhead_of {question : List Token → Bool} {body : Parser Unit} (hF : F.Repeats)
    (h : FormsIf inside (fun ts => question ts = true) F body) :
    FormsIf inside C F (whileAhead question body) := by
  refine loop hF (ask_bind fun a => ite (fun ha => ?_) fun _ => pure_of hF.nil _)
  refine ((h.weaken ?_).seq fun _ => pure_of (F := (· = [])) rfl _).imp ?_
  · rintro ts ⟨-, hts⟩
    exact hts.trans ha
  · rintro row ⟨front, more, rfl, hfront, rfl⟩
    rwa [List.append_nil]

theorem whileAhead {question : List Token → Bool} {body : Parser Unit}
    (h : FormsIf inside (fun _ => True) F body) :
    FormsIf inside C .any (whileAhead question body) :=
  whileAhead_of Layout.repeats_any h.under.free

theorem separated {item : Parser Unit} (h : FormsIf inside (fun _ => True) F item) :
    FormsIf inside C .any (separated item) :=
  loop Layout.repeats_any (h.bind fun _ => eat _)

theorem separatedUntil {kinds : List Kind} {item : Parser Unit}
    (h : FormsIf inside (fun _ => True) F item) :
    FormsIf inside C .any (separatedUntil kinds item) :=
  loop Layout.repeats_any (ask_bind fun _ => ite (fun _ => pure _) fun _ =>
    h.under.bind fun _ => eat _)

theorem skipTo (kinds : List Kind) : FormsIf inside C .any (skipTo kinds) := untilAny bump_any

end FormsIf

/-! ## Readers that open a node at a mark -/

/-- What `FormsIf` says, of all that is read since a mark; the row that was read since the
mark already has the form `F`. -/
def FormsFrom (inside : Bool) (C : List Token → Prop) (F G : Layout) (p : Nat → Parser α) : Prop :=
  ∀ s₀ s front, Underway s₀ → Forming inside F s₀ s front → C s.rest →
    Forms inside G s₀ (p s₀.builder.mark) s

/-- A node around all that was read since a state. -/
theorem forms_nodeFrom {s₀ s : ParserState} {front all : Forest} {kind : Kind} {body : Parser Unit}
    {p : Kind → Bool} (hs : Underway s₀) (hext : Extends s₀ s front)
    (hall : Forming inside (form kind) (opening s₀ kind s₀.builder.mark)
      (body.run (opening s kind s₀.builder.mark)).2 all) (hkind : p kind = true) :
    Forms inside (.node p) s₀ (nodeFrom s₀.builder.mark kind body) s := by
  unfold Forms
  rw [run_nodeFrom_of_admits (hext.admits hs.sound)]
  exact ⟨_, hall.closed hkind⟩

namespace FormsFrom

variable {p q : Nat → Parser α} {f : Nat → α → Parser β}

theorem imp (h : FormsFrom inside C F G p) (hGH : ∀ row, G row → H row) :
    FormsFrom inside C F H p :=
  fun s₀ s front hs hfront hc => (h s₀ s front hs hfront hc).imp fun _ hnew => hnew.imp hGH

theorem free (h : FormsFrom inside C F G p) : FormsFrom inside C F .any p := h.imp fun _ _ => trivial

/-- A parser that knows of no mark. -/
theorem of_forms {p : Parser α} (h : FormsIf inside C G p) :
    FormsFrom inside C F (F.andThen G) fun _ => p := by
  intro s₀ s front hs hfront hc
  obtain ⟨new, hnew⟩ := h s (hfront.ext.underway hs) hc
  exact ⟨front ++ new, hfront.trans hnew⟩

/-- The first parser behind a mark. -/
theorem first {p : Parser α} (h : FormsIf inside C G p) :
    FormsFrom inside C (· = []) G fun _ => p := by
  refine (of_forms h).imp ?_
  rintro row ⟨front, more, rfl, rfl, hmore⟩
  rwa [List.nil_append]

theorem pure (a : α) : FormsFrom inside C F F fun _ => (Pure.pure a : Parser α) :=
  fun _ _ front _ hfront _ => ⟨front, hfront⟩

theorem bind (hp : FormsFrom inside C F G p)
    (hf : ∀ a, FormsFrom inside (fun _ => True) G H (f · a)) :
    FormsFrom inside C F H fun start => p start >>= f start := by
  intro s₀ s front hs hfront hc
  obtain ⟨new, hnew⟩ := hp s₀ s front hs hfront hc
  exact hf _ s₀ _ new hs hnew trivial

theorem grownSince : FormsFrom inside C F F grownSince :=
  fun _ _ front _ hfront _ => ⟨front, hfront⟩

theorem ask_bind {question : List Token → α}
    (hf : ∀ a, FormsFrom inside (fun ts => C ts ∧ question ts = a) F G (f · a)) :
    FormsFrom inside C F G fun start => ask question >>= f start :=
  fun s₀ s front hs hfront hc => hf _ s₀ s front hs hfront ⟨hc, rfl⟩

theorem ite {c : Prop} [Decidable c] (hp : c → FormsFrom inside C F G p)
    (hq : ¬c → FormsFrom inside C F G q) :
    FormsFrom inside C F G fun start => if c then p start else q start := by
  split
  · exact hp ‹_›
  · exact hq ‹_›

/-- A step of a loop that asks for another one. -/
theorem andContinue {p : Nat → Parser Unit} (h : FormsFrom inside C F G p) :
    FormsFrom inside C F G fun start => p start >>= fun _ => Pure.pure true :=
  h.bind fun _ => pure true

/-- A node with all that was read since the mark. -/
theorem nodeFrom {kind : Kind} {body : Parser Unit} {p : Kind → Bool}
    (hbody : FormsIf inside C G body) (hform : ∀ row, F.andThen G row → form kind row)
    (hkind : p kind = true) :
    FormsFrom inside C F (.node p) fun start => nodeFrom start kind body := by
  intro s₀ s front hs hfront hc
  have hopen : Underway (opening s kind s₀.builder.mark) :=
    ⟨sound_opening hfront.ext kind, (hfront.ext.underway hs).ended⟩
  obtain ⟨more, hmore⟩ := hbody _ hopen hc
  have hall := (hfront.opened kind s₀.builder.mark).trans hmore
  exact forms_nodeFrom hs hfront.ext (hall.imp hform) hkind

theorem loopUpTo {step : Nat → Parser Bool} (h : FormsFrom inside (fun _ => True) F F step)
    (count : Nat) : FormsFrom inside (fun _ => True) F F fun start => loopUpTo (step start) count := by
  induction count with
  | zero => exact pure _
  | succ count ih => exact h.bind fun _ => ite (fun _ => ih) fun _ => pure _

theorem loop {step : Nat → Parser Bool} (h : FormsFrom inside (fun _ => True) F F step) :
    FormsFrom inside C F F fun start => loop (step start) :=
  fun s₀ s front hs hfront _ => loopUpTo h _ s₀ s front hs hfront trivial

end FormsFrom

/-- A reader that starts with a mark has nothing behind it yet. -/
theorem FormsIf.mark_bind {f : Nat → Parser α} (hf : FormsFrom inside (fun _ => True) (· = []) F f) :
    FormsIf inside C F (mark >>= f) := by
  intro s hs _
  have hstart : Forming inside (· = []) (flushTrivia.run s).2 (flushTrivia.run s).2 [] :=
    .refl (F := (· = [])) rfl _
  obtain ⟨new, hnew⟩ := hf _ _ [] ((extends_flushTrivia s).underway hs) hstart trivial
  exact ⟨_, hnew.behind_trivia⟩

end Parser

end CSharpKit.Syntax
