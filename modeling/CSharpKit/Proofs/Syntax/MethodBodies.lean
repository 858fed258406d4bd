import CSharpKit.Proofs.Syntax.BuiltDeclarations
import CSharpKit.Proofs.Syntax.CleanTypes

/-!
# The body of a method

A file with a class, a method and one statement. The reader of files comes to the statement,
whatever it is, and goes on behind it: the tree of the file is known but for the statement.
-/

namespace CSharpKit.Syntax

open Tree CSharpKit.Syntax.Parser
open Lookahead (significant)

/-- Trees between braces, with a blank on each side. -/
def inBraces (inner : Forest) : Forest :=
  [.token .lBrace "\x7b"] ++ ([Build.space] ++ inner ++ ([Build.space] ++ [.token .rBrace "\x7d"]))

/-- `void method() { … }` -/
def voidMethod (method : String) (body : Forest) : Tree :=
  .node .methodDeclaration ([Build.voidType.tree] ++ ([Build.space, .token .identifier method] ++
    ([(Build.parameterList []).tree] ++ ([Build.space] ++ [.node .block (inBraces body)]))))

/-- `class type { void method() { … } }` -/
def methodClass (type method : String) (body : Forest) : Tree :=
  .node .classDeclaration ([.token .classKw "class"] ++ ([Build.space, .token .identifier type] ++
    ([Build.space] ++ inBraces [voidMethod method body])))

namespace Grammar

variable {P : Tree → Prop} {body inner : Forest} {s : ParserState} {ts rest : List Token}

/-- Where trees are ahead behind a blank, and then the rest, a reader of what may stand in braces
makes a tree with a property of them. -/
structure ReadsInside (item : Parser Unit) (inner : Forest) (rest : List Token)
    (P : Tree → Prop) : Prop where
  kind : ∀ ts, Spells ([Build.space] ++ inner) ts rest → Lookahead.kind ts ∉ [Kind.rBrace, .eof]
  run : ∀ s : ParserState, Sound s → Spells ([Build.space] ++ inner) s.rest rest →
    ∃ t, P t ∧ item.run s = ((), reading s ([Build.space] ++ [t]) rest)

theorem terminal_rBrace : Terminal .rBrace ([Build.space] ++ [.token .rBrace "\x7d"]) :=
  ⟨[Build.space], "\x7d", isGap_space, rfl⟩

/-- One item, and the brace behind it. -/
theorem run_untilBrace {item : Parser Unit} (message : String) (hs : Sound s)
    (h : Spells ([Build.space] ++ inner ++ ([Build.space] ++ [.token .rBrace "\x7d"])) s.rest rest)
    (hitem : ∀ ts, Spells ([Build.space] ++ [.token .rBrace "\x7d"]) ts rest →
      ReadsInside item inner ts P) :
    ∃ t, P t ∧ (untilAny [.rBrace, .eof] item >>= fun _ => require .rBrace message).run s =
      ((), reading s ([Build.space] ++ [t] ++ ([Build.space] ++ [.token .rBrace "\x7d"])) rest) := by
  obtain ⟨ts, hinner, hbrace⟩ := spells_append.mp h
  have hreads := hitem ts hbrace
  obtain ⟨t, ht, hrun⟩ := hreads.run s hs hinner
  have hkind : [Kind.rBrace, .eof].contains (Lookahead.kind s.rest) = false := by
    simpa using hreads.kind _ hinner
  have hstep : (stepUntil [.rBrace, .eof] item).run s =
      (true, reading s ([Build.space] ++ [t]) ts) := by
    rw [stepUntil, isAtAny, run_ask_bind, hkind, if_neg Bool.false_ne_true, run_bind hrun]
    rfl
  have hstop : (stepUntil [.rBrace, .eof] item).run (reading s ([Build.space] ++ [t]) ts) =
      (false, reading s ([Build.space] ++ [t]) ts) := by
    rw [stepUntil, isAtAny, run_ask_bind, rest_reading, terminal_rBrace.kind rfl hbrace]
    rfl
  have hlength := hinner.length
  have hloop : (untilAny [.rBrace, .eof] item).run s = ((), reading s ([Build.space] ++ [t]) ts) := by
    refine (LoopEnds.next hstep ?_ (.last hstop)).run
    simp only [Build.space, List.cons_append, forestLeaves, leaves, List.length_cons] at hlength
    rw [rest_reading]
    omega
  refine ⟨t, ht, ?_⟩
  rw [run_bind hloop, run_require terminal_rBrace ⟨rfl, by decide⟩ hbrace message, reading_reading]

theorem run_block (h : Spells ([Build.space] ++ [.node .block (inBraces body)]) s.rest rest)
    (hbody : ∀ ts, Spells ([Build.space] ++ [.token .rBrace "\x7d"]) ts rest →
      ReadsInside (whole .statement) body ts P) :
    ∃ t, P t ∧ (block whole).run s =
      ((), reading s ([Build.space] ++ [.node .block (inBraces [t])]) rest) := by
  obtain ⟨mid, hgap, hblock⟩ := spells_append.mp h
  have hopens : Opens .lBrace (.node .block (inBraces body)) := (Opens.token .lBrace "\x7b").node _
  obtain ⟨ts, hbrace, hinner⟩ := spells_append.mp (spells_node.mp hblock)
  have hrequire := run_require (s := opening (reading s [Build.space] mid) .block
    (reading s [Build.space] mid).builder.mark) (terminal_token .lBrace "\x7b") ⟨rfl, by decide⟩
      hbrace "expected `\x7b`"
  obtain ⟨t, ht, hrun⟩ := run_untilBrace (s := reading (opening (reading s [Build.space] mid) .block
    (reading s [Build.space] mid).builder.mark) [.token .lBrace "\x7b"] ts) "expected `\x7d`"
      (sound_reading (sound_opening (Extends.refl _) _)) hinner hbody
  refine ⟨t, ht, run_node isGap_space hgap (hopens.solid rfl hblock) ?_⟩
  rw [run_bind hrequire]
  refine hrun.trans ?_
  rw [reading_reading, reading_opening, reading_reading]
  rfl

/-- The rest of a method behind its type. -/
theorem run_methodDeclaration {method : String} (hs : Sound s)
    (h : Spells ([Build.space, .token .identifier method] ++ ([(Build.parameterList []).tree] ++
      ([Build.space] ++ [.node .block (inBraces body)]))) ts rest)
    (hbody : ∀ ts, Spells ([Build.space] ++ [.token .rBrace "\x7d"]) ts rest →
      ReadsInside (whole .statement) body ts P) :
    ∃ t, P t ∧ (methodDeclaration whole s.builder.mark).run (reading s [Build.voidType.tree] ts) =
      ((), reading s [voidMethod method [t]] rest) := by
  obtain ⟨ts₁, hname, hmore⟩ := spells_append.mp h
  obtain ⟨ts₂, hlist, hblock⟩ := spells_append.mp hmore
  have hlistKind : Lookahead.kind ts₁ = .lParen := ((Opens.token .lParen "(").node _).kind rfl hlist
  have hblockKind : Lookahead.kind ts₂ = .lBrace :=
    ((Opens.token .lBrace "\x7b").node _).kind_of_gap rfl isGap_space hblock
  have hwhere : Lookahead.atWord "where" ts₂ = false := by
    rw [Lookahead.atWord, hblockKind]
    rfl
  generalize hopen : opening (reading s [Build.voidType.tree] ts) .methodDeclaration
    s.builder.mark = s₁
  have hrest : s₁.rest = ts := hopen ▸ rfl
  have hbump := run_bump (s := s₁) (terminal_name method) ⟨rfl, by decide⟩ (hrest ▸ hname)
  have hnone : ∀ p ∈ ([] : Forest), ReadsItem (parameter whole false) p := List.forall_mem_nil _
  have hparameters := run_parameterList whole (s := reading s₁ [Build.space, .token .identifier method]
    ts₁) hnone hlist
  rw [reading_reading] at hparameters
  obtain ⟨t, ht, hrun⟩ := run_block (s := reading s₁ ([Build.space, .token .identifier method] ++
    [(Build.parameterList []).tree]) ts₂) hblock hbody
  refine ⟨t, ht, run_nodeFrom hs ?_⟩
  rw [hopen, run_bind hbump, isAt, run_ask_bind, rest_reading, hlistKind, if_neg (by decide)]
  refine (run_bind hparameters).trans ?_
  refine (run_bind (run_whileAhead_of_not hwhere)).trans ?_
  rw [bodyOrSemicolon, peek, run_ask_bind, rest_reading, hblockKind]
  refine hrun.trans ?_
  rw [← hopen, reading_reading, reading_opening, reading_reading]
  simp

/-- Attributes and modifiers are left out where the declaration begins with another keyword. -/
theorem run_declarationFront_none (h : Lookahead.kind s.rest ∈ [Kind.voidKw, .classKw]) :
    declarationFront.run s = ((), s) := by
  have hmodifier : Lookahead.atModifier s.rest = false := by
    simp only [List.mem_cons, List.not_mem_nil, or_false] at h
    rcases h with h | h <;> rw [Lookahead.atModifier, h] <;> rfl
  have hbracket : (Lookahead.kind s.rest == .lBracket) = false := by
    simp only [List.mem_cons, List.not_mem_nil, or_false] at h
    rcases h with h | h <;> rw [h] <;> rfl
  have hattributes : attributeLists.run s = ((), s) := run_whileAhead_of_not hbracket
  rw [declarationFront, run_bind hattributes, modifiers, run_ask_bind, hmodifier]
  rfl

/-- A method is read as a member, with its statement. -/
theorem readsInside_voidMethod (method : String)
    (hbody : ∀ ts, Spells ([Build.space] ++ [.token .rBrace "\x7d"]) ts rest →
      ReadsInside (whole .statement) body ts P) :
    ReadsInside (whole .member) [voidMethod method body] rest fun t =>
      ∃ statement, P statement ∧ t = voidMethod method [statement] := by
  have hopens : Opens .voidKw (voidMethod method body) := ((Opens.token .voidKw "void").node _).node _
  refine ⟨fun ts hts => ?_, fun s hs h => ?_⟩
  · rw [hopens.kind_of_gap rfl isGap_space hts]
    decide
  · obtain ⟨mid, hgap, hmethod⟩ := spells_append.mp h
    obtain ⟨ts, htype, hmore⟩ := spells_append.mp (spells_node.mp hmethod)
    obtain ⟨ts₁, hname, hlist⟩ := spells_append.mp hmore
    obtain ⟨ts₂, hlist, -⟩ := spells_append.mp hlist
    have hmid : Lookahead.kind mid = .voidKw := hopens.kind rfl hmethod
    have hsolid : Solid mid := hopens.solid rfl hmethod
    have hnameKind : Lookahead.kind ts = .identifier := (terminal_name method).kind rfl hname
    have hfollower : Lookahead.kindAt? 1 ts = some .lParen :=
      ((terminal_name method).kindAt?_one rfl hname).trans
        (headKind?_of_kind (((Opens.token .lParen "(").node _).kind rfl hlist) (by decide))
    have hends : EndsType ts := by
      rw [EndsType, hnameKind]
      decide
    have hsound : Sound (reading s [Build.space] mid) := sound_reading hs
    have hkeyword : TypeTree Build.voidType.tree := .keyword (.inr rfl)
    have htypeRun := run_type (s := reading s [Build.space] mid) hkeyword hsound isGap_nil htype hends
    obtain ⟨t, ht, hrun⟩ := run_methodDeclaration hsound hmore hbody
    refine ⟨voidMethod method [t], ⟨t, ht, rfl⟩, ?_⟩
    rw [whole_run]
    show (member whole).run s = _
    rw [member, run_bind (run_mark_of_gap isGap_space hgap hsolid),
      run_bind (run_declarationFront_none (by simp [hmid])), memberAfter, peek, run_ask_bind,
      rest_reading, hmid]
    dsimp only
    rw [isAtNth, run_ask_bind, if_neg (by simp), run_ask_bind, rest_reading,
      if_pos (by simp [Lookahead.atType, hmid]), typedMember,
      run_bind (run_mark_of_gap (g := []) isGap_nil (spells_nil.mpr rfl) hsolid), reading_nil,
      run_bind htypeRun, run_ask_bind, rest_reading, List.nil_append, if_pos (by simp [hnameKind]),
      hfollower]
    dsimp only
    rw [hrun, reading_reading]

theorem run_optionalSemicolon (h : Lookahead.kind s.rest ≠ .semicolon) :
    optionalSemicolon.run s = ((), s) := by
  rw [optionalSemicolon, run_bind (run_eat_of_not h)]
  rfl

/-- What stands behind the statement. -/
def closingBraces : Forest :=
  [Build.space] ++ [.token .rBrace "\x7d"] ++ ([Build.space] ++ [.token .rBrace "\x7d"])

/-- The class is read to its last brace. -/
theorem run_methodClass {type method : String} (hs : Sound s)
    (h : Spells [methodClass type method body] s.rest rest)
    (hrest : Lookahead.kind rest ≠ .semicolon)
    (hbody : ∀ ts, Spells closingBraces ts rest → ReadsInside (whole .statement) body ts P) :
    ∃ t, P t ∧ (typeDeclaration whole s.builder.mark .classDeclaration).run s =
      ((), reading s [methodClass type method [t]] rest) := by
  obtain ⟨ts₁, hkeyword, hmore⟩ := spells_append.mp (spells_node.mp h)
  obtain ⟨ts₂, hname, hmore⟩ := spells_append.mp hmore
  obtain ⟨ts₃, hgap, hbraces⟩ := spells_append.mp hmore
  obtain ⟨ts₄, hbrace, hinner⟩ := spells_append.mp hbraces
  have hterminal : Terminal .lBrace ([Build.space] ++ [.token .lBrace "\x7b"]) :=
    ⟨[Build.space], "\x7b", isGap_space, rfl⟩
  have hopen : Spells ([Build.space] ++ [.token .lBrace "\x7b"]) ts₂ ts₄ :=
    spells_append.mpr ⟨ts₃, hgap, hbrace⟩
  have hkind : Lookahead.kind ts₂ = .lBrace := hterminal.kind rfl hopen
  generalize hstart : opening s .classDeclaration s.builder.mark = s₁
  have hs₁ : Sound s₁ := hstart ▸ sound_opening (Extends.refl s) _
  have hbump := run_bump (s := s₁) (terminal_token .classKw "class") ⟨rfl, by decide⟩
    (show Spells _ s₁.rest ts₁ from hstart ▸ hkeyword)
  have hrequire := run_require (s := reading s₁ [.token .classKw "class"] ts₁) (terminal_name type)
    ⟨rfl, by decide⟩ hname "expected type name"
  rw [reading_reading] at hrequire
  generalize hfront : reading s₁ ([.token .classKw "class"] ++
    [Build.space, .token .identifier type]) ts₂ = s₂ at hrequire
  have hs₂ : s₂.rest = ts₂ := hfront ▸ rfl
  have hclauses : constraintClauses.run s₂ = ((), s₂) := run_whileAhead_of_not (by
    rw [hs₂, Lookahead.atWord, hkind]
    rfl)
  have hexpect := run_expect (s := s₂) hterminal ⟨rfl, by decide⟩ (hs₂ ▸ hopen)
    "expected `\x7b` to open type body"
  obtain ⟨t, ⟨statement, hstatement, rfl⟩, hmembers⟩ :=
    run_untilBrace (s := reading s₂ ([Build.space] ++ [.token .lBrace "\x7b"]) ts₄)
      "expected `\x7d` to close type body"
      (sound_reading (hfront ▸ sound_reading hs₁)) hinner fun ts hts =>
        readsInside_voidMethod method fun us hus =>
          hbody us (spells_append.mpr ⟨ts, hus, hts⟩)
  rw [reading_reading] at hmembers
  refine ⟨statement, hstatement, run_nodeFrom (f := []) hs ?_⟩
  rw [reading_nil, hstart, run_bind hbump, run_bind hrequire, isAt, run_ask_bind, hs₂, hkind,
    if_neg (by decide)]
  dsimp only
  rw [isAt, run_ask_bind, hs₂, hkind, if_neg (by decide), run_bind hclauses, run_bind hexpect,
    if_pos rfl, ← bind_assoc, run_bind hmembers, run_optionalSemicolon hrest, ← hfront,
    reading_reading, ← hstart, reading_opening]
  simp [inBraces]

/-- The class is all there is in the file. -/
theorem parse_methodClass {text type method : String}
    (h : (Token.contents text).map Token.leaf = (methodClass type method body).leaves)
    (hbody : ∀ ts last, last.kind = .eof → Spells closingBraces ts [last] →
      ReadsInside (whole .statement) body ts P) :
    ∃ t, P t ∧ parse text = ⟨.node .compilationUnit [methodClass type method [t]], []⟩ := by
  obtain ⟨last, hlex, hlast, -⟩ := Token.lex_eq_contents text
  have hspells : Spells [methodClass type method body] (openFile text).rest [last] :=
    ⟨Token.contents text, hlex, by rw [h]; simp [forestLeaves]⟩
  have hend : Lookahead.kind [last] = .eof := kind_of_eof hlast
  have hopens : Opens .classKw (methodClass type method body) :=
    (Opens.token .classKw "class").node _
  have hkind : Lookahead.kind (openFile text).rest = .classKw := hopens.kind rfl hspells
  have hmember : Lookahead.atMember (openFile text).rest = true := by
    rw [Lookahead.atMember, hkind]
    rfl
  obtain ⟨t, ht, hclass⟩ := run_methodClass (sound_openFile text) hspells (by rw [hend]; decide)
    fun ts hts => hbody ts last hlast hts
  have hmark : mark.run (openFile text) = ((openFile text).builder.mark, openFile text) :=
    run_mark_of_gap isGap_nil (spells_nil.mpr rfl) (hopens.solid rfl hspells)
  have hread : (namespaceMember whole).run (openFile text) =
      ((), reading (openFile text) [methodClass type method [t]] [last]) := by
    rw [namespaceMember, run_bind hmark, run_bind (run_declarationFront_none (by simp [hkind])),
      isAt, run_ask_bind, hkind, if_neg (by decide), memberAfter, peek, run_ask_bind, hkind]
    exact hclass
  have hitem : (namespaceItem whole false).run (openFile text) =
      (true, reading (openFile text) [methodClass type method [t]] [last]) := by
    rw [namespaceItem, peek, run_ask_bind, hkind, if_neg (by decide), if_neg (by decide),
      run_ask_bind, hmember, if_pos rfl, run_bind hread]
    rfl
  have hstop : (namespaceItem whole false).run
      (reading (openFile text) [methodClass type method [t]] [last]) =
      (false, reading (openFile text) [methodClass type method [t]] [last]) := by
    rw [namespaceItem, peek, run_ask_bind, rest_reading, hend, if_pos (by decide)]
    rfl
  have hlength : [last].length < (openFile text).rest.length := by
    have hcount := hspells.length
    simp only [methodClass, List.cons_append, forestLeaves, leaves, List.length_append,
      List.length_cons, List.length_nil] at hcount ⊢
    omega
  have hbody : (within (nestingBound (Token.lex text)) (.namespaceBody false)).run (openFile text) =
      ((), reading (openFile text) [methodClass type method [t]] [last]) := by
    have hrest : (openFile text).rest = Token.lex text := rfl
    rw [← hrest, ← whole_eq_within, whole_run]
    exact (LoopEnds.next hitem hlength (.last hstop)).run
  refine ⟨t, ht, ?_⟩
  rw [parse, parseState, parsed_of_run (fun rules => rules (.namespaceBody false)) hbody]
  simp [triviaAhead, Token.isTrivia, hlast, Kind.isTrivia]

end Grammar

end CSharpKit.Syntax
