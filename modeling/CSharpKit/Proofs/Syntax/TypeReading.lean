import CSharpKit.Proofs.Syntax.ReadingRules
import CSharpKit.Syntax.Grammar.Types

/-!
# What the readers of types read

All that the readers of names and types hand to the builder is type syntax, and
where a type may start they read exactly one node, which writes a type.
-/

namespace CSharpKit.Syntax

open Tree CSharpKit.Syntax.Parser

/-! ## Lookahead -/

namespace Lookahead

@[simp] theorem dropSignificant_significant (n : Nat) (ts : List Token) :
    dropSignificant n (significant ts) = dropSignificant n ts := by
  induction n with
  | zero => simp [dropSignificant]
  | succ n ih => simp [dropSignificant, ih]

@[simp] theorem kindAt?_significant (n : Nat) (ts : List Token) :
    kindAt? n (significant ts) = kindAt? n ts := by
  simp [kindAt?]

/-- The token at place one is the next one behind the first. -/
theorem kind_of_kindAt?_one {ts rest : List Token} {t : Token} {k : Kind}
    (hts : significant ts = t :: rest) (h : kindAt? 1 ts = some k) : kind rest = k := by
  simp only [kindAt?, dropSignificant, next, hts, List.tail_cons] at h
  simp [kind, h]

@[simp] theorem atType_significant (ts : List Token) : atType (significant ts) = atType ts := by
  simp [atType]

@[simp] theorem text_significant (ts : List Token) : text (significant ts) = text ts := by
  simp [text]

@[simp] theorem atModifier_significant (ts : List Token) :
    atModifier (significant ts) = atModifier ts := by
  simp [atModifier]

theorem ne_eof_of_atModifier {ts : List Token} (h : atModifier ts = true) : kind ts ≠ .eof := by
  intro heof
  simp [atModifier, heof, Kind.isModifier] at h

end Lookahead

instance : OfTrivia IsTypeSyntax where
  of_trivia k s hk := by simp [IsTypeSyntax, isTypeToken, hk]

theorem isTypeSyntax_token {k : Kind} (hk : isTypeToken k = true) (s : String) :
    IsTypeSyntax (.token k s) := all_token.mpr hk

theorem isTypeSyntax_node {k : Kind} {cs : Forest} (hk : isTypePart k = true)
    (hcs : Each IsTypeSyntax cs) : IsTypeSyntax (.node k cs) := all_node.mpr ⟨hk, hcs⟩

/-- Exactly one tree, a node that writes a type. -/
def IsTypeNode (ts : Forest) : Prop :=
  ∃ k cs, ts = [.node k cs] ∧ k.isType = true ∧ (k = .genericName → HasToken cs) ∧
    Each IsTypeSyntax cs

theorem IsTypeNode.each {ts : Forest} (h : IsTypeNode ts) : Each IsTypeSyntax ts := by
  obtain ⟨k, cs, rfl, hk, -, hcs⟩ := h
  exact Each.singleton (isTypeSyntax_node (by simp [isTypePart, hk]) hcs)

theorem IsTypeNode.of_children {k : Kind} {front more : Forest}
    (hk : (k.isType && k != .genericName) = true) (hfront : Each IsTypeSyntax front)
    (hmore : Each IsTypeSyntax more) : IsTypeNode [.node k (front ++ more)] := by
  simp only [Bool.and_eq_true, bne_iff_ne] at hk
  exact ⟨k, front ++ more, rfl, hk.1, fun heq => absurd heq hk.2, hfront.append hmore⟩

namespace Grammar

variable {inner : Parser Unit}

/-- Before a token, `leaf` reads the trivia and makes a node of the token. -/
theorem yields_leaf {s : ParserState} (kind : Kind) (h : Lookahead.kind s.rest ≠ .eof) :
    Yields (leaf kind) s fun _ new rest => ∃ t, Lookahead.significant s.rest = t :: rest ∧
      t.kind = Lookahead.kind s.rest ∧ new = triviaAhead s.rest ++ [.node kind [t.tree]] := by
  have hrest : (flushTrivia.run s).2.rest = Lookahead.significant s.rest := rest_flushTrivia s
  refine (Yields.node (yields_bump ?_)).mono ?_
  · simpa [opening, hrest] using h
  · rintro - new rest ⟨cs, rfl, t, hts, hkind, rfl⟩
    simp only [opening, hrest, significant_significant, kind_significant] at hts hkind
    refine ⟨t, hts, hkind, ?_⟩
    simp [opening, hrest]

/-- The alias of a name and `::`. -/
theorem readsIf_alias {more : Parser Unit} (hmore : Reads IsTypeSyntax more) :
    ReadsIf (fun ts => Lookahead.kind ts = .identifier ∧ Lookahead.kindAt? 1 ts = some .colonColon)
      (Each IsTypeSyntax) (leaf .identifierName >>= fun _ => bump >>= fun _ => more) := by
  rintro s hs ⟨hkind, hnext⟩
  refine (yields_leaf .identifierName (by simp [hkind])).seq fun _ new s' hext h => ?_
  obtain ⟨t, hts, ht, rfl⟩ := h
  have hcolons : Lookahead.kind s'.rest = .colonColon := Lookahead.kind_of_kindAt?_one hts hnext
  have hleaf : Each IsTypeSyntax (triviaAhead s.rest ++ [.node .identifierName [t.tree]]) := by
    refine (OfTrivia.ahead _).append (Each.singleton (isTypeSyntax_node rfl (Each.singleton ?_)))
    exact isTypeSyntax_token (by rw [ht, hkind]; rfl) _
  have hrest : ReadsIf (fun ts => Lookahead.kind ts = .colonColon) (Each IsTypeSyntax)
      (bump >>= fun _ => more) :=
    ReadsIf.bind (ReadsIf.bump fun ts s hts => isTypeSyntax_token (by rw [hts]; rfl) s) fun _ => hmore
  exact (hrest s' (hext.sound hs) hcolons).mono fun _ more _ hmore => hleaf.append hmore

theorem reads_typeArgumentList (hinner : Reads IsTypeSyntax inner) :
    Reads IsTypeSyntax (typeArgumentList inner) := by
  have hcomma : Reads IsTypeSyntax (eat .comma) := Reads.eat_of (isTypeSyntax_token rfl)
  refine Reads.node (P := IsTypeSyntax) ?_ fun cs hcs => isTypeSyntax_node rfl hcs
  refine (Reads.require_of (isTypeSyntax_token rfl) _).bind fun _ => ?_
  refine ReadsIf.bind (Reads.loop ?_) fun _ => Reads.require_of (isTypeSyntax_token rfl) _
  refine (Reads.isAtAny _).bind fun _ => Reads.ite (ReadsIf.pure _) ?_
  exact hcomma.bind fun _ => Reads.ite (ReadsIf.pure _) (hinner.bind fun _ => hcomma)

/-- A segment of a name is one node. -/
theorem yields_simpleName (hinner : Reads IsTypeSyntax inner) (generic : Bool) (s : ParserState) :
    Yields (simpleName inner generic) s fun _ new _ =>
      ∃ more, new = triviaAhead s.rest ++ more ∧ IsTypeNode more := by
  refine Yields.ask (Yields.ask ?_)
  split
  case isTrue h =>
    have hkind : Lookahead.kind s.rest = .identifier := by
      simp only [Bool.and_eq_true, beq_iff_eq] at h
      exact h.1.2
    have hbody : ReadsIf (fun ts => Lookahead.kind ts = .identifier)
        (fun new => Each IsTypeSyntax new ∧ HasToken new) (bump >>= fun _ => typeArgumentList inner) :=
      ReadsIf.token_bind (ReadsIf.bump_token (fun ts s hts => isTypeSyntax_token (by rw [hts]; rfl) s)
        fun ts hts => by simp [hts]) fun _ => reads_typeArgumentList hinner
    refine (ReadsIf.yields_node hbody (by simpa using hkind)).mono ?_
    rintro - new rest ⟨cs, rfl, hcs, htoken⟩
    exact ⟨_, rfl, .genericName, cs, rfl, rfl, fun _ => htoken, hcs⟩
  case isFalse =>
    have hbody : Reads IsTypeSyntax (require .identifier "expected name") :=
      Reads.require_of (isTypeSyntax_token rfl) _
    refine (ReadsIf.yields_node hbody trivial).mono ?_
    rintro - new rest ⟨cs, rfl, hcs⟩
    exact ⟨_, rfl, .identifierName, cs, rfl, rfl, by simp, hcs⟩

theorem reads_simpleName (hinner : Reads IsTypeSyntax inner) (generic : Bool) :
    Reads IsTypeSyntax (simpleName inner generic) := by
  intro s _ _
  refine (yields_simpleName hinner generic s).mono ?_
  rintro - new rest ⟨more, rfl, hmore⟩
  exact (OfTrivia.ahead _).append hmore.each

theorem readsFrom_nameHead (hinner : Reads IsTypeSyntax inner) (generic : Bool) :
    ReadsFrom Ready (· = []) IsTypeNode (nameHead inner · generic) := by
  refine ReadsFrom.ask_bind fun a => ReadsFrom.ask_bind fun b => ReadsFrom.ite (fun h => ?_) fun _ => ?_
  · have hbody := (readsIf_alias (reads_simpleName hinner generic))
    refine ReadsFrom.weaken (ReadsFrom.nodeFrom hbody ?_) ?_
    · rintro front more rfl hmore
      exact IsTypeNode.of_children rfl Each.nil hmore
    · rintro ts ⟨⟨-, rfl⟩, rfl⟩
      simpa using h
  · exact ReadsFrom.of_ready (fun _ hts => hts.1.1) fun s _ _ => yields_simpleName hinner generic s

theorem readsFrom_qualifiedName (hinner : Reads IsTypeSyntax inner) (generic : Bool) :
    ReadsFrom (fun ts => atSegment ts = true) IsTypeNode IsTypeNode fun start =>
      nodeFrom start .qualifiedName (bump >>= fun _ => simpleName inner generic) := by
  refine ReadsFrom.nodeFrom (G := Each IsTypeSyntax) (ReadsIf.bind (ReadsIf.bump ?_) fun _ => ?_) ?_
  · intro ts s hts
    have hdot : Lookahead.kind ts = .dot := by
      simp only [atSegment, Bool.and_eq_true, beq_iff_eq] at hts
      exact hts.1
    exact isTypeSyntax_token (by rw [hdot]; rfl) s
  · exact reads_simpleName hinner generic
  · intro front more hfront hmore
    exact IsTypeNode.of_children rfl hfront.each hmore

/-- A name is one node. -/
theorem yields_name (hinner : Reads IsTypeSyntax inner) (generic : Bool) {s : ParserState}
    (hs : Sound s) : Yields (name inner generic) s fun _ new _ =>
      ∃ more, new = triviaAhead s.rest ++ more ∧ IsTypeNode more :=
  yields_mark_bind
    (ReadsFrom.bind (readsFrom_nameHead hinner generic) fun _ =>
      ReadsFrom.whileAhead (readsFrom_qualifiedName hinner generic))
    hs (triviaAhead_significant _)

theorem reads_name (hinner : Reads IsTypeSyntax inner) (generic : Bool) :
    Reads IsTypeSyntax (name inner generic) := by
  intro s hs _
  refine (yields_name hinner generic hs).mono ?_
  rintro - new rest ⟨more, rfl, hmore⟩
  exact (OfTrivia.ahead _).append hmore.each

theorem readsIf_rankSpecifier :
    ReadsIf (fun ts => Lookahead.kind ts = .lBracket) (Each IsTypeSyntax) rankSpecifier := by
  refine ReadsIf.node (G := Each IsTypeSyntax) ?_ (by simp) fun cs hcs => isTypeSyntax_node rfl hcs
  refine ReadsIf.bind (ReadsIf.bump fun ts s hts => isTypeSyntax_token (by rw [hts]; rfl) s) fun _ => ?_
  refine ReadsIf.bind (Reads.loop (Reads.eat_of (isTypeSyntax_token rfl))) fun _ => ?_
  exact Reads.require_of (isTypeSyntax_token rfl) _

theorem reads_rankSpecifiers : Reads IsTypeSyntax rankSpecifiers :=
  Reads.whileAhead_of (readsIf_rankSpecifier.weaken fun _ h => by simpa using h)

/-- A suffix turns one type into another. -/
theorem readsFrom_typeSuffix : ReadsFrom (fun _ => True) IsTypeNode IsTypeNode typeSuffix := by
  refine ReadsFrom.ask_bind fun k => ?_
  have hnullable : ReadsFrom (fun ts => Lookahead.kind ts = .question) IsTypeNode IsTypeNode
      fun start => nodeFrom start .nullableType bump := by
    refine ReadsFrom.nodeFrom (ReadsIf.bump (P := IsTypeSyntax) fun ts s hts => ?_) ?_
    · exact isTypeSyntax_token (by rw [hts]; rfl) s
    · exact fun front more hfront hmore => IsTypeNode.of_children rfl hfront.each hmore
  have harray : ReadsFrom (fun _ => True) IsTypeNode IsTypeNode fun start =>
      nodeFrom start .arrayType rankSpecifiers :=
    ReadsFrom.nodeFrom reads_rankSpecifiers fun front more hfront hmore =>
      IsTypeNode.of_children rfl hfront.each hmore
  intro s₀ s front hs hext hfront hc
  dsimp only
  split
  · exact hnullable.andContinue s₀ s front hs hext hfront hc.2
  · refine Yields.ask (Yields.ask ?_)
    split
    · exact harray.andContinue s₀ s front hs hext hfront trivial
    · exact YieldsFrom.pure hext ⟨hfront, List.suffix_refl _⟩
  · exact YieldsFrom.pure hext ⟨hfront, List.suffix_refl _⟩

theorem readsFrom_typeSuffixes :
    ReadsFrom (fun _ => True) IsTypeNode IsTypeNode fun start => loop (typeSuffix start) :=
  ReadsFrom.loop readsFrom_typeSuffix

theorem yields_leaf_predefinedType {s : ParserState}
    (h : (Lookahead.kind s.rest).isPredefinedType = true ∨ Lookahead.kind s.rest = .voidKw) :
    Yields (leaf .predefinedType) s fun _ new _ =>
      ∃ more, new = triviaAhead s.rest ++ more ∧ IsTypeNode more := by
  have htoken : isTypeToken (Lookahead.kind s.rest) = true := by
    rcases h with h | h
    · simp [isTypeToken, h]
    · simp [isTypeToken, h]
  have hne : Lookahead.kind s.rest ≠ .eof := by
    intro heof
    simp [heof, Kind.isPredefinedType] at h
  refine (yields_leaf .predefinedType hne).mono ?_
  rintro - new rest ⟨t, -, ht, rfl⟩
  refine ⟨_, rfl, .predefinedType, [t.tree], rfl, rfl, by simp,
    Each.singleton (isTypeSyntax_token ?_ _)⟩
  rw [ht]
  exact htoken

/-- Where a type may start, a type is one node. -/
theorem yields_typeWith (hinner : Reads IsTypeSyntax inner) {s : ParserState} (hs : Sound s)
    (h : Lookahead.atType s.rest = true) : Yields (typeWith inner) s fun _ new _ =>
      ∃ more, new = triviaAhead s.rest ++ more ∧ IsTypeNode more := by
  refine yields_mark_bind (C := fun ts => Ready ts ∧ Lookahead.atType ts = true) ?_ hs
    ⟨triviaAhead_significant _, by simpa using h⟩
  refine ReadsFrom.ask_bind fun k => ReadsFrom.ite (fun hk => ?_) fun hk =>
    ReadsFrom.ite (fun _ => ?_) fun hid => ?_
  · refine ReadsFrom.bind (ReadsFrom.of_ready (fun _ hts => hts.1.1) ?_) fun _ =>
      readsFrom_typeSuffixes
    rintro s - ⟨-, rfl⟩
    simp only [Bool.or_eq_true, beq_iff_eq] at hk
    exact yields_leaf_predefinedType hk
  · exact ReadsFrom.bind (ReadsFrom.of_ready (fun _ hts => hts.1.1) fun s hs _ =>
      yields_name hinner true hs) fun _ => readsFrom_typeSuffixes
  · rintro s₀ s front - - - ⟨⟨-, hat⟩, rfl⟩
    simp only [Lookahead.atType, Bool.or_eq_true, beq_iff_eq] at hat
    simp only [Bool.or_eq_true, beq_iff_eq] at hk hid
    tauto

/-- Where no type may start, only a complaint is recorded. -/
theorem yields_typeWith_of_not {s : ParserState} (h : Lookahead.atType s.rest = false) :
    Yields (typeWith inner) s fun _ new rest =>
      new = triviaAhead s.rest ∧ rest = Lookahead.significant s.rest := by
  simp only [Lookahead.atType, Bool.or_eq_false_iff] at h
  refine (yields_mark s).seq fun start new s' _ hmark => Yields.ask ?_
  obtain ⟨rfl, hrest⟩ := hmark
  rw [hrest, kind_significant, if_neg (by simp [h]), if_neg (by simp [h])]
  refine (yields_complain _ s').mono ?_
  rintro - more rest ⟨rfl, rfl⟩
  exact ⟨by simp, hrest⟩

theorem reads_typeWith (hinner : Reads IsTypeSyntax inner) : Reads IsTypeSyntax (typeWith inner) := by
  intro s hs _
  cases h : Lookahead.atType s.rest with
  | true =>
      refine (yields_typeWith hinner hs h).mono ?_
      rintro - new rest ⟨more, rfl, hmore⟩
      exact (OfTrivia.ahead _).append hmore.each
  | false =>
      refine (yields_typeWith_of_not h).mono ?_
      rintro - new rest ⟨rfl, -⟩
      exact OfTrivia.ahead _

theorem reads_typeWithin (depth : Nat) : Reads IsTypeSyntax (typeWithin depth) := by
  induction depth with
  | zero => exact ReadsIf.pure _
  | succ depth ih => exact reads_typeWith ih

theorem reads_type : Reads IsTypeSyntax type := ReadsIf.get_bind fun _ => reads_typeWithin _

theorem yields_type {s : ParserState} (hs : Sound s) (h : Lookahead.atType s.rest = true) :
    Yields type s fun _ new _ => ∃ more, new = triviaAhead s.rest ++ more ∧ IsTypeNode more :=
  Yields.get (yields_typeWith (reads_typeWithin s.rest.length) hs h)

theorem yields_type_of_not {s : ParserState} (h : Lookahead.atType s.rest = false) :
    Yields type s fun _ new rest =>
      new = triviaAhead s.rest ∧ rest = Lookahead.significant s.rest :=
  Yields.get (yields_typeWith_of_not h)

end Grammar

end CSharpKit.Syntax
