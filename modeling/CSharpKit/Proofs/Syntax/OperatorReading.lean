import CSharpKit.Proofs.Syntax.Grouping
import CSharpKit.Proofs.Syntax.Scanning
import CSharpKit.Proofs.Syntax.TypeTrees
import CSharpKit.Proofs.Syntax.Recursion

/-!
# Operators as they are read

Where the leaves of a grouping are ahead that respects its operators, the reader of
expressions makes its tree. The left side of the grouping is read first, and the loop
over operators takes the joins on that side one by one, from the innermost to the root;
each time the operator that follows decides which join is the last one.
-/

namespace CSharpKit.Syntax

open Tree CSharpKit.Syntax.Parser
open Lookahead (Binding headKind? significant followsGenericName)

variable {ts us rest mid : List Token} {e : Grouping} {op : Operator} {k : Kind}

/-! ## What stands between operands -/

/-- The token ahead is an operator, or the text ends. -/
def AtSeam (ts : List Token) : Prop :=
  ∃ k, headKind? (significant ts) = some k ∧ (k = .eof ∨ (Binding.ofKind? k).isSome = true)

/-- Tokens that go on with an operand. -/
def operandKinds : List Kind := [.lParen, .identifier, .arrow, .colonColon, .dot, .questionDot,
  .lBracket, .plusPlus, .minusMinus, .bang]

/-- Tokens that go on with an operand or mean something else behind one. -/
def partKinds : List Kind := operandKinds ++ [.question, .isKw, .asKw]

theorem not_part_of_seam (h : k = .eof ∨ (Binding.ofKind? k).isSome = true) :
    k ∉ partKinds ∧ Lookahead.opensOperandOnly k = false := by
  rcases h with rfl | h
  · decide
  · refine ⟨fun hk => ?_, by simp [Lookahead.opensOperandOnly, h]⟩
    have hnone : ∀ k ∈ partKinds, (Binding.ofKind? k).isSome = false := by decide
    rw [hnone k hk] at h
    cases h

/-- No operator ahead binds as tight as a power. -/
def Loosens (power : Nat) (ts : List Token) : Prop :=
  ∀ binding ∈ Lookahead.binding? ts, binding.left < power

theorem Loosens.mono {power power' : Nat} (h : Loosens power ts) (hle : power ≤ power') :
    Loosens power' ts := fun binding hbinding => Nat.lt_of_lt_of_le (h binding hbinding) hle

/-- Behind a `>` stands nothing that may follow a generic name. -/
def Comparing (ts : List Token) : Prop := ∀ t more, t :: more <:+ ts → t.kind = .greater →
  ∃ k, headKind? (significant more) = some k ∧ followsGenericName k = false

theorem Comparing.of_suffix (h : Comparing ts) (hus : us <:+ ts) : Comparing us :=
  fun t more hmore => h t more (hmore.trans hus)

theorem Comparing.cons {t : Token} (h : Comparing ts) (ht : t.kind = .greater →
    ∃ k, headKind? (significant ts) = some k ∧ followsGenericName k = false) :
    Comparing (t :: ts) := by
  intro t' more hmore hgreater
  rcases List.suffix_cons_iff.mp hmore with heq | hmore
  · obtain ⟨rfl, rfl⟩ := List.cons.inj heq
    exact ht hgreater
  · exact h t' more hmore hgreater

/-- Where `>` only compares, no name takes type arguments. -/
theorem Comparing.not_atGenericName (h : Comparing ts) : Lookahead.atGenericName ts = false := by
  have hless : Lookahead.dropSignificant 1 ts <:+ ts :=
    (Lookahead.next_suffix _).trans ((List.tail_suffix _).trans (significant_suffix ts))
  unfold Lookahead.atGenericName
  simp only [Bool.and_eq_false_imp]
  intro _
  cases hscan : Lookahead.scanTypeArguments Lookahead.scanType (Lookahead.dropSignificant 1 ts) with
  | none => rfl
  | some rest =>
      obtain ⟨t, hgreater, ht⟩ :=
        Lookahead.greater_of_scanSlots Lookahead.goesForward_scanType hscan
      obtain ⟨k, hk, hfollows⟩ := h t rest (ht.trans ((Lookahead.next_suffix _).trans
        ((List.tail_suffix _).trans hless))) hgreater
      simp [hk, hfollows]

/-! ## Trees -/

theorem Grouping.opens (e : Grouping) : Opens .identifier e.node.tree := by
  induction e with
  | operand name => exact (Opens.token _ _).node _
  | join left op right ih => exact ih.node _

/-- The leaves of a join: what is on the left, the operator in blanks, what is on the right. -/
theorem spells_join {left right : Grouping} :
    Spells [(Grouping.join left op right).node.tree] ts rest ↔ ∃ ts₁ ts₂,
      Spells [left.node.tree] ts ts₁ ∧ Spells (Build.space :: op.tokens) ts₁ ts₂ ∧
        Spells (Build.space :: [right.node.tree]) ts₂ rest := by
  have hchildren : (Grouping.join left op right).node.tree = .node op.binding.node
      ([left.node.tree] ++ (Build.space :: op.tokens) ++ [Build.space, right.node.tree]) := by
    simp [Grouping.node, Node.tree]
  rw [hchildren, spells_node, List.append_assoc, spells_append]
  constructor
  · rintro ⟨ts₁, hleft, hmore⟩
    obtain ⟨ts₂, hop, hright⟩ := spells_append.mp hmore
    exact ⟨ts₁, ts₂, hleft, hop, hright⟩
  · rintro ⟨ts₁, ts₂, hleft, hop, hright⟩
    exact ⟨ts₁, hleft, spells_append.mpr ⟨ts₂, hop, hright⟩⟩

theorem spells_space {f : Forest} (h : Spells (Build.space :: f) ts rest) :
    ∃ t more, ts = t :: more ∧ t.kind = .whitespace ∧ Spells f more rest := by
  obtain ⟨mid, hspace, hmore⟩ := spells_cons.mp h
  obtain ⟨t, rfl, htree⟩ := spells_token.mp hspace
  exact ⟨t, mid, rfl, (Tree.token.inj htree).1, hmore⟩

theorem headKind?_cons {t : Token} (h : t.kind.isTrivia = false) :
    headKind? (significant (t :: ts)) = some t.kind := by
  simp [significant, Token.isTrivia, h, headKind?]

theorem significant_of_space {t : Token} (h : t.kind = .whitespace) :
    significant (t :: ts) = significant ts := by
  simp [significant, Token.isTrivia, h, Kind.isTrivia]

/-- The kinds of the token at the seam before a right operand. -/
theorem headKind?_of_operand (h : Spells (Build.space :: [e.node.tree]) ts rest) :
    headKind? (significant ts) = some .identifier := by
  obtain ⟨t, more, rfl, ht, he⟩ := spells_space h
  rw [significant_of_space ht]
  exact headKind?_of_kind (e.opens.kind rfl he) (by decide)

/-- The tokens of an operator are ahead, and these behind it. -/
inductive OperatorAhead : Operator → List Token → List Token → Prop
  | mark {t : Token} {binding : Binding} {rest : List Token}
      (h : Binding.ofKind? t.kind = some binding) :
      OperatorAhead (.mark t.kind binding h) (t :: rest) rest
  | shiftRight {t t' : Token} {rest : List Token} (h : t.kind = .greater)
      (h' : t'.kind = .greater) : OperatorAhead .shiftRight (t :: t' :: rest) rest
  | shiftRightAssign {t t' : Token} {rest : List Token} (h : t.kind = .greater)
      (h' : t'.kind = .greaterEq) : OperatorAhead .shiftRightAssign (t :: t' :: rest) rest

theorem operatorAhead_of_spells {rest : List Token} (h : Spells op.tokens ts rest) :
    OperatorAhead op ts rest := by
  cases op with
  | mark k binding hk =>
      obtain ⟨t, rfl, htree⟩ := spells_token.mp h
      obtain rfl := (Tree.token.inj htree).1
      exact .mark hk
  | shiftRight =>
      obtain ⟨mid, hfirst, hsecond⟩ := spells_cons.mp h
      obtain ⟨t, rfl, htree⟩ := spells_token.mp hfirst
      obtain ⟨t', rfl, htree'⟩ := spells_token.mp hsecond
      exact .shiftRight (Tree.token.inj htree).1 (Tree.token.inj htree').1
  | shiftRightAssign =>
      obtain ⟨mid, hfirst, hsecond⟩ := spells_cons.mp h
      obtain ⟨t, rfl, htree⟩ := spells_token.mp hfirst
      obtain ⟨t', rfl, htree'⟩ := spells_token.mp hsecond
      exact .shiftRightAssign (Tree.token.inj htree).1 (Tree.token.inj htree').1

theorem isPlain_of_isSome (h : (Binding.ofKind? k).isSome = true) : IsPlain k := by
  unfold Binding.ofKind? at h
  split at h
  all_goals first | exact ⟨rfl, by decide⟩ | cases h

theorem OperatorAhead.isSome_headKind? {rest : List Token} (h : OperatorAhead op ts rest) :
    ∃ k, headKind? ts = some k ∧ op.kinds.head? = some k ∧ (Binding.ofKind? k).isSome = true := by
  cases h with
  | mark h => exact ⟨_, rfl, rfl, by rw [h]; rfl⟩
  | shiftRight h | shiftRightAssign h => exact ⟨.greater, congrArg some h, rfl, rfl⟩

/-- The operator ahead is known by its tokens, since what follows is no second half of a shift. -/
theorem OperatorAhead.binding? {rest : List Token} (h : OperatorAhead op ts rest)
    (hus : Lookahead.significant us = ts) (hrest : headKind? rest = some k)
    (hk : k ≠ .greater ∧ k ≠ .greaterEq) :
    Lookahead.binding? us = some op.binding ∧
      (Lookahead.shiftTail? us).isSome = (op.kinds.length == 2) := by
  cases h with
  | @mark t binding rest hbinding =>
      obtain ⟨w, more, rfl⟩ := List.exists_cons_of_ne_nil (l := rest) (by rintro rfl; cases hrest)
      obtain rfl : w.kind = k := Option.some.inj hrest
      have hnone : Lookahead.shiftTail? us = none := by
        simp [Lookahead.shiftTail?, hus, hk]
      have hkind : Lookahead.kind us = t.kind := by simp [Lookahead.kind, hus, headKind?]
      simp [Lookahead.binding?, hnone, hkind, hbinding, Operator.binding, Operator.kinds]
  | shiftRight h h' | shiftRightAssign h h' =>
      simp [Lookahead.binding?, Lookahead.shiftTail?, hus, h, h', Operator.binding, Operator.kinds]

/-- The tokens of an operator behind trivia. -/
theorem operatorAhead_of_gap {g : Forest} (hg : IsGap g) (h : Spells (g ++ op.tokens) ts mid) :
    OperatorAhead op (significant ts) mid := by
  obtain ⟨us, hgap, hop⟩ := spells_append.mp h
  have hahead := operatorAhead_of_spells hop
  obtain ⟨k, hk, -, hsome⟩ := hahead.isSome_headKind?
  obtain ⟨t, more, rfl⟩ := List.exists_cons_of_ne_nil (l := us) (by rintro rfl; cases hk)
  obtain rfl : t.kind = k := Option.some.inj hk
  rwa [(triviaAhead_of_gap hg hgap ⟨t, more, rfl, (isPlain_of_isSome hsome).1⟩).2]

theorem atSeam_of_tokens {g : Forest} (hg : IsGap g) (h : Spells (g ++ op.tokens) ts mid)
    (hmid : headKind? mid = some k) (hk : k ≠ .greater ∧ k ≠ .greaterEq) :
    AtSeam ts ∧ Lookahead.binding? ts = some op.binding ∧
      (Lookahead.shiftTail? ts).isSome = (op.kinds.length == 2) := by
  have hahead := operatorAhead_of_gap hg h
  obtain ⟨k', hk', -, hsome⟩ := hahead.isSome_headKind?
  exact ⟨⟨k', hk', .inr hsome⟩, hahead.binding? rfl hmid hk⟩

theorem atSeam_of_operator {right : Grouping} (h : Spells (Build.space :: op.tokens) ts mid)
    (hright : Spells (Build.space :: [right.node.tree]) mid rest) :
    AtSeam ts ∧ Lookahead.binding? ts = some op.binding ∧
      (Lookahead.shiftTail? ts).isSome = (op.kinds.length == 2) := by
  obtain ⟨w, more, rfl, hw, -⟩ := spells_space hright
  exact atSeam_of_tokens isGap_space h (congrArg some hw) (by decide)

/-- Operators between operands do not look like the end of type arguments. -/
theorem comparing_of_spells (h : Spells [e.node.tree] ts rest) (hrest : Comparing rest) :
    Comparing ts := by
  have hother {k : Kind} {t : Token} {us : List Token} (ht : t.kind = k) (hk : k ≠ .greater)
      (hus : Comparing us) : Comparing (t :: us) :=
    hus.cons fun hgreater => absurd (ht.symm.trans hgreater) hk
  induction e generalizing ts rest with
  | operand name =>
      obtain ⟨t, rfl, htree⟩ := spells_token.mp (spells_node.mp h)
      exact hother (Tree.token.inj htree).1 (by decide) hrest
  | join left op right ihleft ihright =>
      obtain ⟨ts₁, ts₂, hleft, hop, hright⟩ := spells_join.mp h
      have hnext := headKind?_of_operand hright
      obtain ⟨w, us, rfl, hw, hoperand⟩ := spells_space hright
      have hbehind := hother hw (by decide) (ihright hoperand hrest)
      obtain ⟨w', vs, rfl, hw', hop⟩ := spells_space hop
      refine ihleft hleft (hother hw' (by decide) ?_)
      have hlast {t : Token} : Comparing (t :: w :: us) := hbehind.cons fun _ => ⟨_, hnext, rfl⟩
      cases operatorAhead_of_spells hop with
      | mark => exact hlast
      | shiftRight _ hsecond | shiftRightAssign _ hsecond =>
          exact hlast.cons fun _ => ⟨_, (headKind?_cons (by rw [hsecond]; rfl)).trans
            (congrArg some hsecond), rfl⟩

/-! ## Operands -/

namespace Grammar

variable {s s' : ParserState} {power : Nat}

theorem run_identifierName {name : String}
    (h : Spells [(Build.identifierName name).tree] s.rest rest) :
    (simpleName type false).run s = ((), reading s [(Build.identifierName name).tree] rest) := by
  have hopens : Opens .identifier (Build.identifierName name).tree := (Opens.token _ _).node _
  have hrun : (simpleName type false).run s =
      (node .identifierName (require .identifier "expected name")).run s := rfl
  have hrequire := run_require (s := opening s .identifierName s.builder.mark)
    (terminal_token .identifier name) ⟨rfl, by decide⟩ (spells_node.mp h) "expected name"
  rw [hrun]
  exact run_node isGap_nil (spells_nil.mpr rfl) (hopens.solid rfl h) hrequire

/-- A name is an operand by itself if no type arguments follow, and nothing that goes on with it. -/
theorem run_unary_name (rules : Rules) {name : String}
    (h : Spells [(Build.identifierName name).tree] s.rest rest)
    (hk : headKind? (significant rest) = some k) (hparts : k ∉ operandKinds)
    (hoperand : Lookahead.opensOperandOnly k = false)
    (hgeneric : Lookahead.atGenericName s.rest = false) :
    (unary rules).run s = ((), reading s [(Build.identifierName name).tree] rest) := by
  have hopens : Opens .identifier (Build.identifierName name).tree := (Opens.token _ _).node _
  have hkind : Lookahead.kind s.rest = .identifier := hopens.kind rfl h
  have hnext : Lookahead.kindAt? 1 s.rest = some k := by
    obtain ⟨mid, hmid, hnext⟩ := kindAt?_one_of_node isGap_nil rfl h
    obtain rfl := spells_nil.mp hmid
    rw [hnext, hk]
  have hrest : Lookahead.kind rest = k := kind_of_headKind? hk
  simp only [operandKinds, List.mem_cons, List.not_mem_nil, or_false, not_or] at hparts
  have hmark : mark.run s = (s.builder.mark, s) :=
    run_mark_of_gap isGap_nil (spells_nil.mpr rfl) (hopens.solid rfl h)
  have hprimary : (primary rules).run s =
      ((), reading s [(Build.identifierName name).tree] rest) := by
    rw [primary, peek, run_ask_bind, hkind]
    show (afterIdentifier rules).run s = _
    simp only [afterIdentifier, isAtNth, run_ask_bind, hnext]
    rw [if_neg (by simp [hparts])]
    simp only [run_ask_bind, hnext]
    rw [if_neg (by simp [hparts])]
    simp only [run_ask_bind, hnext]
    rw [if_neg (by simp [hparts])]
    simp only [run_ask_bind, hnext]
    rw [if_neg (by simp [hparts]), expressionName, run_ask_bind, hgeneric]
    exact run_identifierName h
  have hpostfix : (postfixPart rules s.builder.mark).run
      (reading s [(Build.identifierName name).tree] rest) =
        (false, reading s [(Build.identifierName name).tree] rest) := by
    rw [postfixPart, peek, run_ask_bind, rest_reading, hrest]
    split <;> first | rfl | simp_all
  rw [unary, peek, run_ask_bind, hkind]
  simp only [run_ask_bind, hnext, Option.any_some, hoperand, Bool.and_false]
  rw [if_neg (by decide), operand, run_bind hmark, run_bind hprimary, run_bind run_grownSince,
    if_pos rfl]
  exact (LoopEnds.last hpostfix).run

/-- A name before an operator is an operand by itself. -/
theorem run_unary_operand {rules : Rules} {name : String}
    (h : Spells [(Build.identifierName name).tree] s.rest rest) (hseam : AtSeam rest)
    (hcomparing : Comparing s.rest) :
    (unary rules).run s = ((), reading s [(Build.identifierName name).tree] rest) := by
  obtain ⟨k, hk, hseam⟩ := hseam
  obtain ⟨hparts, hoperand⟩ := not_part_of_seam hseam
  exact run_unary_name _ h hk (fun hmem => hparts (List.mem_append_left _ hmem)) hoperand
    hcomparing.not_atGenericName

/-! ## Joins -/

theorem run_take {text : String} (h : Spells [.token k text] s.rest rest) :
    take.run s = ((), reading s [.token k text] rest) := by
  obtain ⟨t, hts, htree⟩ := spells_token.mp h
  show ((), (take.run s).2) = _
  rw [take_run, hts, ← htree]
  rfl

/-- The tokens of an operator are read together. -/
theorem run_operatorTokens {g : Forest} (hg : IsGap g)
    (h : Spells (g ++ op.tokens) s.rest rest) :
    (bump >>= fun _ => if op.kinds.length == 2 then take else pure ()).run s =
      ((), reading s (g ++ op.tokens) rest) := by
  have hterminal (k : Kind) (text : String) : Terminal k (g ++ [.token k text]) :=
    ⟨g, text, hg, rfl⟩
  cases op with
  | mark k binding hk =>
      rw [run_bind (run_bump (hterminal k _) (isPlain_of_isSome (by rw [hk]; rfl)) h)]
      rfl
  | shiftRight | shiftRightAssign =>
      rw [Operator.tokens, Operator.kinds, List.map_cons, List.map_singleton,
        ← List.singleton_append, ← List.append_assoc] at h
      obtain ⟨mid, hfirst, hsecond⟩ := spells_append.mp h
      rw [run_bind (run_bump (hterminal .greater _) ⟨rfl, by decide⟩ hfirst)]
      exact (run_take hsecond).trans (by rw [reading_reading, List.append_assoc]; rfl)

theorem run_infixPart {rules : Rules} {start : Nat} (h : AtSeam s.rest) :
    (infixPart rules power start).run s = (binaryPart rules power start).run s := by
  obtain ⟨k, hk, hseam⟩ := h
  have hparts := (not_part_of_seam hseam).1
  rw [infixPart, peek, run_ask_bind, kind_of_headKind? hk]
  split <;> first | rfl | exact absurd (by decide) hparts

/-- An operator that binds looser than asked ends the loop. -/
theorem run_infixPart_of_loosens {rules : Rules} {start : Nat} (hseam : AtSeam s.rest)
    (h : Loosens power s.rest) : (infixPart rules power start).run s = (false, s) := by
  rw [run_infixPart hseam, binaryPart, run_ask_bind]
  cases hbinding : Lookahead.binding? s.rest with
  | none => rfl
  | some binding =>
      simp only
      rw [if_pos (h binding hbinding)]
      rfl

theorem sound_opening_reading {f : Forest} {kind : Kind} :
    Sound (opening (reading s f rest) kind s.builder.mark) := by
  have hmark : s.builder.mark ≤ (reading s f rest).builder.mark :=
    mark_reading ▸ Nat.le_add_right ..
  simp only [Sound, Builder.admits, Parser.opening, Builder.mark, List.head?_cons,
    Option.all_some, Nat.le_refl, decide_true, Bool.true_and]
  exact decide_eq_true hmark

/-- An operator takes the tree since the mark as its left operand, and what the rule for its
right operand reads. -/
theorem run_infixPart_of_tokens {rules : Rules} (left : Tree) {g right : Forest}
    (hs : Sound s) (hpower : power ≤ op.binding.left) (hg : IsGap g)
    (hop : Spells (g ++ op.tokens) ts mid) (hmid : headKind? mid = some k)
    (hk : k ≠ .greater ∧ k ≠ .greaterEq)
    (hread : ∀ s : ParserState, Sound s → s.rest = mid →
      (rules (.expression op.binding.right)).run s = ((), reading s right rest)) :
    (infixPart rules power s.builder.mark).run (reading s [left] ts) =
      (true, reading s [.node op.binding.node (left :: (g ++ op.tokens ++ right))] rest) := by
  obtain ⟨hseam, hbinding, hshift⟩ := atSeam_of_tokens hg hop hmid hk
  have hbody : (bump >>= fun _ => (if op.kinds.length == 2 then take else pure ()) >>= fun _ =>
      rules (.expression op.binding.right)).run
        (opening (reading s [left] ts) op.binding.node s.builder.mark) = ((), opening
          (reading s ([left] ++ (g ++ op.tokens ++ right)) rest) op.binding.node
            s.builder.mark) := by
    have htokens := run_operatorTokens hg
      (s := opening (reading s [left] ts) op.binding.node s.builder.mark) hop
    rw [← bind_assoc, run_bind htokens, reading_opening, reading_reading,
      hread _ sound_opening_reading rfl, reading_opening, reading_reading, List.append_assoc]
  have hnode := run_nodeFrom hs hbody
  rw [run_infixPart hseam, binaryPart, run_ask_bind, rest_reading, hbinding]
  simp only
  rw [if_neg (Nat.not_lt_of_le hpower), run_ask_bind, rest_reading, hshift]
  have hrun : (do
      nodeFrom s.builder.mark op.binding.node do
        bump
        if (op.kinds.length == 2) = true then take
        rules (.expression op.binding.right)
      return true : Parser Bool).run (reading s [left] ts) =
        (nodeFrom s.builder.mark op.binding.node (bump >>= fun _ =>
          (if op.kinds.length == 2 then take else pure ()) >>= fun _ =>
            rules (.expression op.binding.right)) >>= fun _ => pure true).run
              (reading s [left] ts) := by
    cases op.kinds.length == 2 <;> rfl
  exact hrun.trans (run_bind hnode)

theorem run_infixPart_of_operator {rules : Rules} (left : Grouping) {right : Grouping}
    (hs : Sound s) (hpower : power ≤ op.binding.left)
    (hop : Spells (Build.space :: op.tokens) ts mid)
    (hright : Spells (Build.space :: [right.node.tree]) mid rest)
    (hread : ∀ s : ParserState, Sound s → s.rest = mid →
      (rules (.expression op.binding.right)).run s =
        ((), reading s [Build.space, right.node.tree] rest)) :
    (infixPart rules power s.builder.mark).run (reading s [left.node.tree] ts) =
      (true, reading s [(Grouping.join left op right).node.tree] rest) := by
  obtain ⟨w, more, rfl, hw, -⟩ := spells_space hright
  have hrun := run_infixPart_of_tokens left.node.tree hs hpower isGap_space hop
    (congrArg some hw) (by decide) hread
  simpa only [Grouping.node, Node.tree, List.singleton_append, List.cons_append,
    List.nil_append] using hrun

/-! ## Groupings -/

/-- What stands behind a grouping does not go on with an operand on its right side. -/
def EndsBefore (e : Grouping) (ts : List Token) : Prop :=
  ∀ inner ∈ e.root?, Loosens inner.binding.right ts

theorem run_mark_grouping (h : Spells [e.node.tree] s.rest rest) :
    mark.run s = (s.builder.mark, s) :=
  run_mark_of_gap isGap_nil (spells_nil.mpr rfl) (e.opens.solid rfl h)

theorem run_expressionAbove_operand {s' : ParserState} {name : String}
    (h : Spells [(Build.identifierName name).tree] s.rest rest) (hseam : AtSeam rest)
    (hcomparing : Comparing s.rest) (hend : LoopEnds (infixPart whole power s.builder.mark)
      (reading s [(Build.identifierName name).tree] rest) s') :
    (expressionAbove whole power).run s = ((), s') := by
  have hunary : (whole .unary).run s = ((), reading s [(Build.identifierName name).tree] rest) :=
    (whole_run .unary s).trans (run_unary_operand h hseam hcomparing)
  rw [expressionAbove, run_bind (run_mark_grouping (e := .operand name) h), run_bind hunary,
    run_bind run_grownSince, if_pos rfl]
  exact hend.run

/-- The blank before a right operand stays outside of it. -/
theorem run_expression_of_space {s' : ParserState} (hspace : Spells [Build.space] s.rest mid)
    (h : Spells [e.node.tree] mid rest)
    (hrun : (expressionAbove whole power).run (reading s [Build.space] mid) = ((), s')) :
    (whole (.expression power)).run s = ((), s') := by
  rw [whole_run]
  show (expressionAbove whole power).run s = _
  rw [← hrun, expressionAbove, run_bind (run_mark_of_gap isGap_space hspace (e.opens.solid rfl h)),
    run_bind (run_mark_grouping (s := reading s [Build.space] mid) h)]

/-- A reader of expressions reads the left side of a grouping, and its loop goes on behind it. -/
theorem run_expressionAbove {s' : ParserState} (he : e.Respects) (hs : Sound s)
    (hpower : ∀ inner ∈ e.root?, power ≤ inner.power) (h : Spells [e.node.tree] s.rest rest)
    (hseam : AtSeam rest) (hends : EndsBefore e rest) (hcomparing : Comparing s.rest)
    (hend : LoopEnds (infixPart whole power s.builder.mark) (reading s [e.node.tree] rest) s') :
    (expressionAbove whole power).run s = ((), s') := by
  induction e generalizing s rest power s' with
  | operand name => exact run_expressionAbove_operand h hseam hcomparing hend
  | join left op right ihleft ihright =>
      obtain ⟨hleftRespects, hrightRespects, hstandsLeft, hstandsRight⟩ := he
      obtain ⟨ts₁, ts₂, hleft, hop, hright⟩ := spells_join.mp h
      obtain ⟨hseam₁, hbinding, -⟩ := atSeam_of_operator hop hright
      have hsuffix : ts₂ <:+ s.rest := hop.suffix.trans hleft.suffix
      have hread : ∀ s : ParserState, Sound s → s.rest = ts₂ →
          (whole (.expression op.binding.right)).run s =
            ((), reading s [Build.space, right.node.tree] rest) := by
        rintro s hs rfl
        obtain ⟨mid, hspace, hoperand⟩ := spells_cons.mp hright
        have hlast : LoopEnds (infixPart whole op.binding.right
            (reading s [Build.space] mid).builder.mark)
              (reading (reading s [Build.space] mid) [right.node.tree] rest) _ :=
          LoopEnds.last (run_infixPart_of_loosens hseam (hends op rfl))
        have hrun := ihright hrightRespects (sound_reading hs) ?_ hoperand hseam ?_ ?_ hlast
        · rw [run_expression_of_space hspace hoperand hrun, reading_reading, List.singleton_append]
        · exact fun inner hinner => Operator.standsRight_iff.mp (hstandsRight inner hinner)
        · intro inner hinner
          refine (hends op rfl).mono ?_
          have hle := Operator.standsRight_iff.mp (hstandsRight inner hinner)
          have hright := Operator.right_eq inner
          omega
        · exact hcomparing.of_suffix (hspace.suffix.trans hsuffix)
      have hstep := run_infixPart_of_operator left hs (hpower op rfl) hop hright hread
      refine ihleft hleftRespects hs ?_ hleft hseam₁ ?_ hcomparing (LoopEnds.next hstep ?_ hend)
      · intro inner hinner
        have hop := hpower op rfl
        rcases hstandsLeft inner hinner with hlt | ⟨heq, -⟩ <;> omega
      · intro inner hinner binding hb
        obtain rfl := Option.some.inj (hbinding.symm.trans hb)
        exact Operator.standsLeft_iff.mp (hstandsLeft inner hinner)
      · have hlength := hop.length
        have hlength' := hright.length
        simp [forestLeaves, Build.space, leaves] at hlength hlength'
        simp only [rest_reading]
        omega

end Grammar

/-! ## Texts -/

/-- Behind the last operand the text ends. -/
theorem loosens_of_eof {last : Token} (h : last.kind = .eof) (power : Nat) :
    Loosens power [last] := by
  have htrivia : last.isTrivia = false := by rw [Token.isTrivia, h]; rfl
  have hnone : Lookahead.binding? [last] = none := by
    simp [Lookahead.binding?, Lookahead.shiftTail?, significant, htrivia, Lookahead.kind,
      headKind?, h, Binding.ofKind?]
  intro binding hbinding
  rw [hnone] at hbinding
  cases hbinding

theorem comparing_of_eof {last : Token} (h : last.kind = .eof) : Comparing [last] := by
  intro t more hsuffix hgreater
  obtain rfl : t = last := List.mem_singleton.mp (hsuffix.subset List.mem_cons_self)
  exact absurd (h.symm.trans hgreater) (by decide)

/-- A text is read as the grouping whose leaves it has, if that respects its operators. -/
theorem parseExpression_of_grouping {text : String} (he : e.Respects)
    (h : (Token.contents text).map Token.leaf = e.node.tree.leaves) :
    parseExpression text = .ok e.node := by
  obtain ⟨last, hlex, hlast, -⟩ := Token.lex_eq_contents text
  have hspells : Spells [e.node.tree] (openFile text).rest [last] :=
    ⟨Token.contents text, hlex, by rw [h]; simp [forestLeaves]⟩
  have hseam : AtSeam [last] :=
    ⟨.eof, by rw [headKind?_cons (by rw [hlast]; rfl), hlast], .inl rfl⟩
  have hend : LoopEnds (Grammar.infixPart Grammar.whole 0 (openFile text).builder.mark)
      (reading (openFile text) [e.node.tree] [last]) (reading (openFile text) [e.node.tree] [last]) :=
    LoopEnds.last (Grammar.run_infixPart_of_loosens hseam (loosens_of_eof hlast 0))
  have hrun := Grammar.run_expressionAbove he (sound_openFile text) (fun _ _ => Nat.zero_le _)
    hspells hseam (fun _ _ => loosens_of_eof hlast _)
    (comparing_of_spells hspells (comparing_of_eof hlast)) hend
  have hread : (Grammar.within (nestingBound (Token.lex text)) (.expression 0)).run (openFile text) =
      ((), reading (openFile text) [e.node.tree] [last]) := by
    have hrest : (openFile text).rest = Token.lex text := rfl
    rw [← hrest, ← Grammar.whole_eq_within, Grammar.whole_run]
    exact hrun
  rw [parseExpression]
  exact parseFragment_of_run (kind_of_eof hlast) rfl hread

end CSharpKit.Syntax
