import CSharpKit.Proofs.Syntax.BuiltTypes
import CSharpKit.Proofs.Syntax.OperatorReading

/-!
# Declarations as they are built

The declaration of a delegate is put together from types that were read and names. Its text
is cut into its leaves again, and where these are ahead the reader of members makes the same
tree of them, with each blank in the node where it was put.
-/

namespace CSharpKit.Syntax

open Tree Token
open CSharpKit.Syntax.Parser

/-! ## Parameters -/

theorem stands_parameter {t : Tree} (h : Stands [' ', ',', '>'] t) {name : String}
    (hname : IsName name) : Stands [',', ')'] (Build.parameter t name).tree := by
  have hleaves : (Build.parameter t name).tree.leaves =
      t.leaves ++ [(.whitespace, " "), (.identifier, name)] := by
    simp [Build.parameter, Build.space, Node.tree, leaves, forestLeaves]
  have hclosers : ([',', ')'].all (endsBefore .identifier)) = true := by decide +kernel
  obtain ⟨k, text, more, hfirst, hword⟩ := h.opens
  refine ⟨fun rest hrest => ?_, k, text, _, by rw [hleaves, hfirst, List.cons_append], hword⟩
  have hident : CutsOff .identifier name rest :=
    (IsPiece.word hname.isWord).cutsOff fun d hd => List.all_eq_true.mp hclosers d (hrest d hd)
  have hspace : CutsOff .whitespace " " (chars [(.identifier, name)] ++ rest) := by
    refine IsPiece.space.cutsOff fun d hd => ?_
    rw [chars_cons, List.append_assoc,
      List.head?_append_of_ne_nil _ (IsPiece.word hname.isWord).ne_empty] at hd
    exact (hname.isWord.endsBefore hd).1
  rw [hleaves]
  exact .append (h.found _ fun d hd => Option.some.inj hd ▸ List.mem_cons_self)
    (.cons hspace (.cons hident (.nil rest)))

namespace Grammar

variable (rules : Rules) {s : ParserState} {t : Tree} {g f : Forest} {ts rest : List Token}

theorem run_whileAhead_of_not {question : List Token → Bool} {body : Parser Unit}
    (h : question s.rest = false) : (whileAhead question body).run s = ((), s) := by
  refine (LoopEnds.last ?_).run
  rw [run_ask_bind, h]
  rfl

theorem run_expect {k : Kind} (hf : Terminal k f) (hk : IsPlain k) (h : Spells f s.rest rest)
    (message : String) : (expect k message).run s = (true, reading s f rest) := by
  have hrun : (expect k message).run s = (if (Lookahead.kind s.rest == k) = true
      then bump >>= fun _ => pure true
      else complain message >>= fun _ => pure false : Parser Bool).run s := rfl
  rw [hrun, if_pos (by simp [hf.kind hk.1 h]), run_bind (run_bump hf hk h)]
  rfl

theorem terminal_name (name : String) :
    Terminal .identifier [Build.space, .token .identifier name] := ⟨[Build.space], name, isGap_space, rfl⟩

/-- A parameter with a type and a name. -/
theorem run_parameter {name : String} (ht : TypeTree t) (hg : IsGap g)
    (h : Spells (g ++ [(Build.parameter t name).tree]) s.rest rest) (hrest : Lookahead.kind rest ≠ .eq) :
    (parameter rules false).run s = ((), reading s (g ++ [(Build.parameter t name).tree]) rest) := by
  have hkinds : ∀ k : Kind, opensType k = true → k ≠ .lBracket ∧
      parameterModifiers.contains k = false := by
    intro k hk
    cases k <;> first | exact absurd hk (by decide) | exact ⟨by decide, rfl⟩
  obtain ⟨k, hk, hopens⟩ := ht.opens
  have hplain := isPlain_of_opensType hk
  obtain ⟨mid, hgap, hnode⟩ := spells_append.mp h
  have hsolid : Solid mid := (hopens.node _).solid hplain.1 hnode
  obtain ⟨ts, htype, hname⟩ := spells_cons.mp (spells_node.mp hnode)
  have hkind : Lookahead.kind mid = k := hopens.kind hplain.1 htype
  have hident : Lookahead.kind ts = .identifier := (terminal_name name).kind rfl hname
  refine run_node hg hgap hsolid ?_
  generalize hm : (reading s g mid).builder.mark = m
  have hsound : Sound (opening (reading s g mid) .parameter m) := hm ▸ sound_opening (Extends.refl _) _
  have hends : EndsType ts := by
    rw [EndsType, hident]
    decide
  have htype := run_type (s := opening (reading s g mid) .parameter m) ht hsound isGap_nil htype hends
  have hattributes : attributeLists.run (opening (reading s g mid) .parameter m) =
      ((), opening (reading s g mid) .parameter m) :=
    run_whileAhead_of_not (by
      show (Lookahead.kind mid == .lBracket) = false
      simp [hkind, (hkinds k hk).1])
  have hmodifiers : parameterModifiers.contains
      (Lookahead.kind (opening (reading s g mid) .parameter m).rest) = false :=
    hkind ▸ (hkinds k hk).2
  rw [run_bind hattributes, isAtAny, run_ask_bind, hmodifiers, if_neg (by decide)]
  -- The type is not left out, whatever comes behind the name.
  simp only [isAt, isAtNth, run_ask_bind, Bool.false_and, Bool.false_eq_true, if_false]
  rw [run_bind htype, run_bind (run_require (terminal_name name) ⟨rfl, by decide⟩ hname _),
    run_ask_bind, rest_reading, if_neg (by simpa using hrest)]
  simp [Build.parameter]
  rfl

/-- One item of a list in parentheses; `false` behind the last one. -/
def parenthesized (item : Parser Unit) : Parser Bool := do
  if ← isAtAny [.rParen, .eof] then
    return false
  else
    item
    eat .comma

/-- A parser reads a tree that opens like a type, in front of any token but `=`. -/
def ReadsItem (item : Parser Unit) (t : Tree) : Prop :=
  (∃ k, opensType k = true ∧ Opens k t) ∧
    ∀ {s : ParserState} {g : Forest} {rest : List Token}, IsGap g → Spells (g ++ [t]) s.rest rest →
      Lookahead.kind rest ≠ .eq → item.run s = ((), reading s (g ++ [t]) rest)

theorem run_parenthesized {item : Parser Unit} (ht : ReadsItem item t) (hg : IsGap g)
    (h : Spells (g ++ [t]) s.rest rest) (hrest : Lookahead.kind rest ≠ .eq) :
    (parenthesized item).run s = (eat .comma).run (reading s (g ++ [t]) rest) := by
  have hkinds : ∀ k : Kind, opensType k = true → [Kind.rParen, .eof].contains k = false := by
    intro k hk
    cases k <;> first | exact absurd hk (by decide) | rfl
  obtain ⟨⟨k, hk, hopens⟩, hrun⟩ := ht
  have hkind : Lookahead.kind s.rest = k := hopens.kind_of_gap (isPlain_of_opensType hk).1 hg h
  rw [parenthesized, isAtAny, run_ask_bind, hkind, hkinds k hk, if_neg (by decide),
    run_bind (hrun hg h hrest)]

/-- Items with commas between them are read up to a closing parenthesis. -/
theorem loopEnds_commaSeparated {item : Parser Unit} {items : Forest} (hg : IsGap g)
    (hne : items ≠ []) (hitems : ∀ t ∈ items, ReadsItem item t)
    (h : Spells (g ++ Build.commaSeparated items) s.rest rest)
    (hrest : Lookahead.kind rest = .rParen) :
    LoopEnds (parenthesized item) s (reading s (g ++ Build.commaSeparated items) rest) := by
  induction items generalizing s g with
  | nil => exact absurd rfl hne
  | cons t items ih =>
      have ht := hitems t List.mem_cons_self
      cases items with
      | nil =>
          refine LoopEnds.last ?_
          rw [run_parenthesized ht hg h (by rw [hrest]; decide)]
          exact run_eat_of_not (by rw [rest_reading, hrest]; decide)
      | cons u items =>
          have hsplit : g ++ Build.commaSeparated (t :: u :: items) = (g ++ [t]) ++
              ([.token .comma ","] ++ ([Build.space] ++ Build.commaSeparated (u :: items))) := by
            simp [Build.commaSeparated]
          rw [hsplit] at h ⊢
          obtain ⟨ts₁, hitem, hmore⟩ := spells_append.mp h
          obtain ⟨ts₂, hcomma, hmore⟩ := spells_append.mp hmore
          have hterminal := terminal_token .comma ","
          have hkind : Lookahead.kind ts₁ = .comma := hterminal.kind rfl hcomma
          have hrun := run_parenthesized ht hg hitem (by rw [hkind]; decide)
          rw [run_eat (s := reading s (g ++ [t]) ts₁) hterminal ⟨rfl, by decide⟩ hcomma,
            reading_reading] at hrun
          have hlength := hitem.length
          have hlength' := hcomma.length
          refine LoopEnds.next hrun ?_ ?_
          · simp only [rest_reading, forestLeaves, leaves, List.length_append, List.length_cons] at hlength hlength' ⊢
            omega
          · have hloop := ih (s := reading s (g ++ [t] ++ [.token .comma ","]) ts₂) isGap_space
              (List.cons_ne_nil u items) (fun v hv => hitems v (List.mem_cons_of_mem _ hv)) hmore
            rwa [reading_reading, List.append_assoc (g ++ [t])] at hloop

theorem readsItem_parameter (ht : TypeTree t) (name : String) :
    ReadsItem (parameter rules false) (Build.parameter t name).tree := by
  obtain ⟨k, hk, hopens⟩ := ht.opens
  exact ⟨⟨k, hk, hopens.node _⟩, run_parameter rules ht⟩

theorem loopEnds_parameters {item : Parser Unit} {items : Forest}
    (hitems : ∀ t ∈ items, ReadsItem item t) (h : Spells (Build.commaSeparated items) s.rest rest)
    (hrest : Lookahead.kind rest = .rParen) :
    LoopEnds (parenthesized item) s (reading s (Build.commaSeparated items) rest) := by
  cases items with
  | nil =>
      obtain rfl := spells_nil.mp h
      refine LoopEnds.last ?_
      rw [parenthesized, isAtAny, run_ask_bind, hrest, if_pos (by decide)]
      rfl
  | cons t items => exact loopEnds_commaSeparated isGap_nil (List.cons_ne_nil t items) hitems h hrest

theorem run_parameterList {parameters : Forest}
    (hparameters : ∀ p ∈ parameters, ReadsItem (parameter rules false) p)
    (h : Spells [(Build.parameterList parameters).tree] s.rest rest) :
    (parameterList rules).run s = ((), reading s [(Build.parameterList parameters).tree] rest) := by
  have hopens : Opens .lParen (Build.parameterList parameters).tree := (Opens.token .lParen "(").node _
  obtain ⟨ts₁, hopen, hmore⟩ := spells_cons.mp (spells_node.mp h)
  obtain ⟨ts₂, hinside, hend⟩ := spells_append.mp hmore
  have hclose : Lookahead.kind ts₂ = .rParen := (terminal_token .rParen ")").kind rfl hend
  refine run_node isGap_nil (spells_nil.mpr rfl) (hopens.solid rfl h) ?_
  rw [reading_nil, run_bind (run_expect (s := opening s .parameterList s.builder.mark)
    (terminal_token _ _) ⟨rfl, by decide⟩ hopen _), if_pos rfl]
  refine (run_bind (loopEnds_parameters hparameters hinside hclose).run).trans ?_
  rw [run_require (terminal_token _ _) ⟨rfl, by decide⟩ hend]
  simp [Build.parameterList]

/-! ## Declarations -/

def publicModifier : Tree := .node .modifiers [.token .publicKw "public"]

/-- The modifiers in front of a delegate that is visible everywhere. -/
theorem run_modifiers (h : Spells [publicModifier] s.rest rest)
    (hrest : Lookahead.kind rest = .delegateKw) :
    modifiers.run s = ((), reading s [publicModifier] rest) := by
  have hopens : Opens .publicKw publicModifier := (Opens.token .publicKw "public").node _
  have hkind : Lookahead.kind s.rest = .publicKw := hopens.kind rfl h
  have hat : Lookahead.atModifier s.rest = true := by
    rw [Lookahead.atModifier, hkind]
    rfl
  have hnot : Lookahead.atModifier rest = false := by
    rw [Lookahead.atModifier, hrest]
    rfl
  have htoken := spells_node.mp h
  have hterminal := terminal_token .publicKw "public"
  have hlength := htoken.length
  rw [modifiers, run_ask_bind, hat, if_pos rfl]
  refine run_node isGap_nil (spells_nil.mpr rfl) (hopens.solid rfl h) ?_
  rw [reading_nil]
  have hbump := run_bump (s := opening s .modifiers s.builder.mark) hterminal ⟨rfl, by decide⟩ htoken
  have hends : LoopEnds (do
      if ← ask Lookahead.atModifier then
        bump
        return true
      else
        return false) (reading (opening s .modifiers s.builder.mark) [.token .publicKw "public"] rest)
      (reading (opening s .modifiers s.builder.mark) [.token .publicKw "public"] rest) := by
    refine LoopEnds.last ?_
    rw [run_ask_bind, rest_reading, hnot]
    rfl
  refine (LoopEnds.next ?_ ?_ hends).run
  · rw [run_ask_bind, show (opening s .modifiers s.builder.mark).rest = s.rest from rfl, hat,
      if_pos rfl, run_bind hbump]
    rfl
  · simp only [forestLeaves, leaves, List.length_append, List.length_cons] at hlength
    show rest.length < s.rest.length
    omega

/-- What stands in a delegate behind its modifiers. -/
def delegateTail (t : Tree) (name : String) (parameters : Forest) : Forest :=
  [Build.space, .token .delegateKw "delegate"] ++ ([Build.space, t] ++
    ([Build.space, .token .identifier name] ++
      ([(Build.parameterList parameters).tree] ++ [.token .semicolon ";"])))

theorem terminal_delegate : Terminal .delegateKw [Build.space, .token .delegateKw "delegate"] :=
  ⟨[Build.space], "delegate", isGap_space, rfl⟩

/-- A delegate behind its modifiers. -/
theorem run_delegateDeclaration {name : String} {parameters : Forest} (ht : TypeTree t)
    (hparameters : ∀ p ∈ parameters, ReadsItem (parameter rules false) p) (hs : Sound s)
    (h : Spells (delegateTail t name parameters) ts rest) :
    (delegateDeclaration rules s.builder.mark).run (reading s f ts) =
      ((), reading s [.node .delegateDeclaration (f ++ delegateTail t name parameters)] rest) := by
  obtain ⟨ts₁, hkeyword, hmore⟩ := spells_append.mp h
  obtain ⟨ts₂, htype, hmore⟩ := spells_append.mp hmore
  obtain ⟨ts₃, hname, hmore⟩ := spells_append.mp hmore
  obtain ⟨ts₄, hlist, hend⟩ := spells_append.mp hmore
  have hsemicolon := terminal_token .semicolon ";"
  have hnameKind : Lookahead.kind ts₂ = .identifier := (terminal_name name).kind rfl hname
  have hlistKind : Lookahead.kind ts₃ = .lParen := ((Opens.token .lParen "(").node _).kind rfl hlist
  have hendKind : Lookahead.kind ts₄ = .semicolon := hsemicolon.kind rfl hend
  have hends : EndsType ts₂ := by
    rw [EndsType, hnameKind]
    decide
  have hwhere : Lookahead.atWord "where" ts₄ = false := by
    rw [Lookahead.atWord, hendKind]
    rfl
  refine run_nodeFrom hs ?_
  have hsound : Sound (opening (reading s f ts) .delegateDeclaration s.builder.mark) :=
    sound_opening_reading
  rw [run_bind (run_bump terminal_delegate ⟨rfl, by decide⟩ hkeyword),
    run_bind (run_type ht (sound_reading hsound) isGap_space htype hends),
    run_bind (run_require (terminal_name name) ⟨rfl, by decide⟩ hname _), isAt, run_ask_bind,
    rest_reading, hlistKind, if_neg (by decide)]
  refine (run_bind (run_parameterList rules hparameters hlist)).trans ?_
  refine (run_bind (run_whileAhead_of_not hwhere)).trans ?_
  rw [run_require hsemicolon ⟨rfl, by decide⟩ hend]
  simp [delegateTail]

/-- Where the leaves of the declaration of a delegate are ahead, it is read. -/
theorem run_member {name : String} {parameters : Forest} (ht : TypeTree t)
    (hparameters : ∀ p ∈ parameters, ReadsItem (parameter rules false) p) (hs : Sound s)
    (h : Spells [(Build.delegateDeclaration t name parameters).tree] s.rest rest) :
    (member rules).run s =
      ((), reading s [(Build.delegateDeclaration t name parameters).tree] rest) := by
  have hsplit : (Build.delegateDeclaration t name parameters).tree =
      .node .delegateDeclaration ([publicModifier] ++ delegateTail t name parameters) := rfl
  have hopens : Opens .publicKw (Build.delegateDeclaration t name parameters).tree :=
    ((Opens.token .publicKw "public").node _).node _
  have hkind : Lookahead.kind s.rest = .publicKw := hopens.kind rfl h
  have hsolid : Solid s.rest := hopens.solid rfl h
  have hmark : mark.run s = (s.builder.mark, s) :=
    run_mark_of_gap isGap_nil (spells_nil.mpr rfl) hsolid
  rw [hsplit] at h ⊢
  obtain ⟨ts, hpublic, htail⟩ := spells_append.mp (spells_node.mp h)
  obtain ⟨ts₁, hkeyword, -⟩ := spells_append.mp htail
  have hdelegate : Lookahead.kind ts = .delegateKw := terminal_delegate.kind rfl hkeyword
  have hattributes : attributeLists.run s = ((), s) := run_whileAhead_of_not (by simp [hkind])
  have hfront : declarationFront.run s = ((), reading s [publicModifier] ts) := by
    rw [declarationFront, run_bind hattributes, run_modifiers hpublic hdelegate]
  rw [member, run_bind hmark, run_bind hfront, memberAfter, peek, run_ask_bind, rest_reading, hdelegate]
  exact run_delegateDeclaration rules ht hparameters hs htail

end Grammar

/-! ## Texts of declarations -/

theorem isWord_public : IsWord "public" .publicKw :=
  @IsWord.plain "public" 'p' "ublic".toList rfl (by decide +kernel)
    (List.all_eq_true.mp (by decide +kernel))

theorem isWord_delegate : IsWord "delegate" .delegateKw :=
  @IsWord.plain "delegate" 'd' "elegate".toList rfl (by decide +kernel)
    (List.all_eq_true.mp (by decide +kernel))

theorem leaves_delegateDeclaration (t : Tree) (name : String) (parameters : Forest) :
    (Build.delegateDeclaration t name parameters).tree.leaves =
      [(.publicKw, "public"), (.whitespace, " "), (.delegateKw, "delegate"), (.whitespace, " ")] ++
        (t.leaves ++ ([(.whitespace, " "), (.identifier, name), (.lParen, "(")] ++
          (forestLeaves (Build.commaSeparated parameters) ++ [(.rParen, ")"), (.semicolon, ";")]))) := by
  simp [Build.delegateDeclaration, Build.parameterList, Build.space, Node.tree, leaves, forestLeaves]

theorem found_delegateDeclaration {t : Tree} (ht : Stands [' ', ',', '>'] t) {name : String}
    (hname : IsName name) {parameters : Forest} (h : ∀ p ∈ parameters, Stands [',', ')'] p) :
    Found (Build.delegateDeclaration t name parameters).tree.leaves [] := by
  have hblank : ([' ', '('].all (endsBefore .identifier)) = true := by decide +kernel
  have hword : ∀ {k text rest}, IsWord text k → (∀ d ∈ rest.head?, d ∈ [' ', '(']) →
      CutsOff k text rest := fun {k text rest} hword hrest => (IsPiece.word hword).cutsOff fun d hd => by
    rw [endsBefore_word hword.kind_eq, ← endsBefore_word (.inl rfl)]
    exact List.all_eq_true.mp hblank d (hrest d hd)
  have hparameters : Found (forestLeaves (Build.commaSeparated parameters)) [')', ';'] :=
    Stands.found_commaSeparated h (by decide) (by decide) [';']
  rw [leaves_delegateDeclaration]
  have hclose : Found [(.rParen, ")"), (.semicolon, ";")] [] :=
    .cons (cutsOff_delimiter (c := ')') (by decide) _)
      (.cons (cutsOff_delimiter (c := ';') (by decide) _) (.nil []))
  have hlist := hparameters.append hclose
  have hhead : Found ([(.whitespace, " "), (.identifier, name), (.lParen, "(")] ++
      (forestLeaves (Build.commaSeparated parameters) ++ [(.rParen, ")"), (.semicolon, ";")])) [] := by
    refine .append (.cons (IsPiece.space.cutsOff fun d hd => ?_) (.cons (hword hname.isWord fun d hd => ?_)
      (.cons (cutsOff_delimiter (c := '(') (by decide) _) (.nil _)))) hlist
    · rw [chars_cons, List.append_assoc,
        List.head?_append_of_ne_nil _ (IsPiece.word hname.isWord).ne_empty] at hd
      exact (hname.isWord.endsBefore hd).1
    · exact Option.some.inj hd ▸ by decide
  refine .append (.cons (hword isWord_public fun d hd => ?_) (.cons (IsPiece.space.cutsOff fun d hd => ?_)
    (.cons (hword isWord_delegate fun d hd => ?_) (.cons (IsPiece.space.cutsOff fun d hd => ?_)
      (.nil _))))) (.append (ht.found _ fun d hd => ?_) hhead)
  · exact Option.some.inj hd ▸ by decide
  · exact Option.some.inj hd ▸ by decide +kernel
  · exact Option.some.inj hd ▸ by decide
  · rw [chars_append, List.append_assoc] at hd
    exact (ht.endsBefore hd).1
  · exact Option.some.inj hd ▸ by decide

theorem parseMember_delegateDeclaration {ret : Tree} (hret : TypeTree ret ∧ Stands [' ', ',', '>'] ret)
    {name : String} (hname : IsName name) {parameters : List (Node × String)}
    (hparameters : ∀ p ∈ parameters, (∃ text, parseType text = .ok p.1) ∧ IsName p.2) :
    let declaration := Build.delegateDeclaration ret name
      (parameters.map fun p => (Build.parameter p.1.tree p.2).tree)
    parseMember declaration.tree.text = .ok declaration := by
  intro declaration
  have hstands : ∀ p ∈ parameters.map fun p => (Build.parameter p.1.tree p.2).tree,
      (∀ rules, Grammar.ReadsItem (Grammar.parameter rules false) p) ∧ Stands [',', ')'] p := by
    intro p hp
    obtain ⟨⟨type, name⟩, hmem, rfl⟩ := List.mem_map.mp hp
    obtain ⟨⟨text, hread⟩, hname⟩ := hparameters _ hmem
    obtain ⟨ht, htype⟩ := stands_of_parseType hread
    exact ⟨fun rules => Grammar.readsItem_parameter rules ht name, stands_parameter htype hname⟩
  have hfound := found_delegateDeclaration hret.2 hname fun p hp => (hstands p hp).2
  have hleaves : (contents declaration.tree.text).map Token.leaf = declaration.tree.leaves :=
    hfound.map_leaf_contents rfl
  obtain ⟨last, hlex, hlast, -⟩ := lex_eq_contents declaration.tree.text
  have hspells : Spells [declaration.tree] (openFile declaration.tree.text).rest [last] :=
    ⟨contents declaration.tree.text, hlex, by rw [hleaves]; simp [forestLeaves]⟩
  exact parseFragment_of_run (kind_of_eof hlast) rfl (Grammar.run_member _ hret.1
    (fun p hp => (hstands p hp).1 _) (sound_openFile _) hspells)

/-- Whatever was read as a type is read back from its own text, and so is what is built of
such types: a generic name, and the declaration of a delegate. -/
theorem parse_build {name : String} (hname : IsName name) {ret : Node} {types : List Node}
    {parameters : List (Node × String)} (hret : ∃ text, parseType text = .ok ret)
    (htypes : ∀ t ∈ types, ∃ text, parseType text = .ok t)
    (hparameters : ∀ p ∈ parameters, (∃ text, parseType text = .ok p.1) ∧ IsName p.2) :
    let declaration := Build.delegateDeclaration ret.tree name
      (parameters.map fun p => (Build.parameter p.1.tree p.2).tree)
    let generic := Build.genericName name (types.map Node.tree)
    parseMember declaration.tree.text = .ok declaration ∧
      parseType generic.tree.text = .ok generic ∧
      ∀ text node, parseType text = .ok node → parseType node.tree.text = .ok node := by
  intro declaration generic
  obtain ⟨text, hread⟩ := hret
  refine ⟨parseMember_delegateDeclaration (stands_of_parseType hread) hname hparameters,
    parseType_genericName hname htypes, fun text node hread => ?_⟩
  obtain ⟨ht, hstands⟩ := stands_of_parseType hread
  exact parseType_of_stands ht hstands

/-- `A</* c */B?>` -/
def commentedType : Node :=
  ⟨.genericName, [.token .identifier "A", .node .typeArgumentList [.token .less "<",
    .token .multiLineComment "/* c */", Build.nullableType (Build.identifierName "B").tree,
    .token .greater ">"]]⟩

theorem parseType_commentedType : parseType "A</* c */B?>" = .ok commentedType := by
  have hgap : IsGap [.token .multiLineComment "/* c */"] := by
    intro t ht
    exact ⟨_, _, List.mem_singleton.mp ht, rfl⟩
  have hargument := typeTree_nullableType (.name (.simple (@SimpleTree.identifier "B")))
  have ht : TypeTree commentedType.tree := .name (.simple (@SimpleTree.generic "A" "<" [] _ _
    isGap_nil (.last hgap hargument) (terminal_token .greater ">")))
  exact parseType_of_typeTree ht (by decide +kernel)

theorem parse_build_commentedType :
    let declaration := Build.delegateDeclaration commentedType.tree "F"
      ([(commentedType, "x"), (Build.voidType, "y")].map fun p => (Build.parameter p.1.tree p.2).tree)
    let generic := Build.genericName "F" ([commentedType].map Node.tree)
    parseMember declaration.tree.text = .ok declaration ∧
      parseType generic.tree.text = .ok generic ∧
      ∀ text node, parseType text = .ok node → parseType node.tree.text = .ok node := by
  have hread : ∃ text, parseType text = .ok commentedType := ⟨_, parseType_commentedType⟩
  have hvoid : parseType "void" = .ok Build.voidType :=
    parseType_of_typeTree (.keyword (.inr rfl)) (by decide +kernel)
  refine parse_build (by decide +kernel) hread (List.forall_mem_singleton.mpr hread) ?_
  refine List.forall_mem_cons.mpr ⟨⟨hread, by decide +kernel⟩, List.forall_mem_singleton.mpr ?_⟩
  exact ⟨⟨_, hvoid⟩, by decide +kernel⟩

end CSharpKit.Syntax
