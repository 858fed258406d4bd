import CSharpKit.Proofs.Syntax.DeclarationReading
import CSharpKit.Proofs.Syntax.Lexing
import CSharpKit.Syntax.Parse

/-!
# Nothing of a source is lost

The reader of a file gets to the end of the text: each item takes at least one
token. This does not depend on how deep constructs nest, since the tokens that
count are those an item starts with. So the tree of a file holds all tokens of
its text.
-/

namespace CSharpKit.Syntax

open Tree CSharpKit.Syntax.Parser

namespace Grammar

variable {rules : Rules}

/-! ## Items of a file -/

theorem advances_skipBracketed {opening closing : Kind} (hopening : opening ≠ .eof) :
    Advances (fun ts => Lookahead.kind ts = opening) (skipBracketed opening closing) := by
  intro s hs hkind
  refine Yields.get ?_
  cases hlength : s.rest.length with
  | zero =>
      have hempty : s.rest = [] := List.eq_nil_of_length_eq_zero hlength
      simp [hempty, Lookahead.kind, Lookahead.significant, Lookahead.headKind?] at hkind
      exact absurd hkind.symm hopening
  | succ n =>
      refine Yields.ask ?_
      rw [if_neg (by simpa [hkind] using hopening), if_pos (by simpa using hkind), ← hlength]
      have hmore : Reads (fun _ => True) (bracketed opening closing n (0 + 1)) := by
        have : OfTokens fun _ : Tree => True := { of_token := fun _ _ => trivial }
        exact reads_bracketed opening closing n 1 (by omega)
      have hne : Lookahead.kind s.rest ≠ .eof := hkind ▸ hopening
      exact (advances_bump.bind fun _ => hmore) s hs hne

theorem advances_attributeLists :
    Advances (fun ts => (Lookahead.kind ts == .lBracket) = true) attributeLists := by
  refine advances_whileAhead (P := IsPart) (readsIf_attributeList fun _ hcs =>
    (isParameterPart_of_tokens rfl hcs).1) ?_
  refine ((advances_skipBracketed (by decide)).node (by simp)).weaken fun ts hts => ?_
  simpa using hts

theorem advances_modifiers : Advances (fun ts => Lookahead.atModifier ts = true) modifiers := by
  intro s hs hc
  refine Yields.ask ?_
  rw [hc]
  have hwords : Advances (fun ts => Lookahead.atModifier ts = true)
      (whileAhead Lookahead.atModifier bump) :=
    advances_whileAhead (P := IsPart) (Reads.bump.weaken fun _ _ => trivial)
      (advances_bump.weaken fun _ => Lookahead.ne_eof_of_atModifier)
  exact hwords.node (fun ts hts => by simpa using hts) s hs hc

/-- Attributes or modifiers take a token, and where there are none nothing happens. -/
theorem yields_declarationFront {s : ParserState} (hs : Sound s) :
    Yields declarationFront s fun _ new rest =>
      rest.length < s.rest.length ∨ new = [] ∧ rest = s.rest ∧
        Lookahead.kind s.rest ≠ .lBracket ∧ Lookahead.atModifier s.rest = false := by
  cases hlist : Lookahead.kind s.rest == .lBracket with
  | true =>
      refine ((advances_attributeLists.bind fun _ => reads_modifiers) s hs hlist).mono ?_
      exact fun _ _ _ hlt => .inl hlt
  | false =>
      refine (yields_whileAhead_of_not _ hlist).seq fun _ new s' hext h => ?_
      obtain ⟨rfl, hrest⟩ := h
      cases hword : Lookahead.atModifier s'.rest with
      | true =>
          refine (advances_modifiers s' (hext.sound hs) hword).mono fun _ _ _ hlt => .inl ?_
          rwa [hrest] at hlt
      | false =>
          refine Yields.ask ?_
          rw [hword]
          refine YieldsFrom.pure (Extends.refl s') (.inr ⟨rfl, hrest, ?_, hrest ▸ hword⟩)
          simpa using hlist

theorem advances_skip : Advances (fun ts => Lookahead.kind ts ≠ .eof) skip := by
  intro s hs hc
  refine Yields.ask ?_
  rw [if_neg (by simpa using hc)]
  exact advances_bump s hs hc

theorem advances_strayTokens : Advances (fun ts => Lookahead.kind ts ≠ .eof) strayTokens := by
  refine Advances.node ?_ (by simp)
  intro s hs hc
  refine (yields_complain _ s).seq fun _ new s' hext h => ?_
  obtain ⟨-, hrest⟩ := h
  rw [← hrest] at hc ⊢
  exact (advances_skip.bind (P := IsPart) fun _ => Reads.skipTo _) s' (hext.sound hs) hc

theorem advances_usingDirective :
    Advances (fun ts => Lookahead.kind ts = .usingKw) usingDirective :=
  Advances.node ((advances_require (by decide) _).bind fun _ => reads_usingTarget) (by simp)

/-- Kinds of tokens that open a declaration behind its attributes and modifiers. -/
def opensDeclaration (k : Kind) : Bool :=
  [.namespaceKw, .classKw, .structKw, .interfaceKw, .enumKw, .delegateKw].contains k

section

variable (hr : ∀ c, Reads IsPart (rules c))
include hr

/-- Behind attributes and modifiers a declaration takes its keyword. -/
theorem yields_declaration {s₀ s : ParserState} {front : Forest} (hs : Sound s₀)
    (hext : Extends s₀ s front) (hfront : Each IsPart front)
    (hc : opensDeclaration (Lookahead.kind s.rest) = true) :
    YieldsFrom s₀ (isAt .namespaceKw >>= fun atNamespace =>
      if atNamespace then namespaceDeclaration rules s₀.builder.mark
      else memberAfter rules s₀.builder.mark) s fun _ _ rest => rest.length < s.rest.length := by
  have declared : ∀ {p : Nat → Parser Unit}, Declares p → Lookahead.kind s.rest ≠ .eof →
      YieldsFrom s₀ (p s₀.builder.mark) s fun _ _ rest => rest.length < s.rest.length :=
    fun hp hne => hp.advances s₀ s front hs hext hne
  refine Yields.ask ?_
  split
  case isTrue h =>
    obtain ⟨new, hext₁, hlt⟩ := advances_require (show Kind.namespaceKw ≠ .eof by decide)
      "expected `namespace`" s (hext.sound hs) (by simpa using h)
    obtain ⟨new', hext₁', hnew⟩ := Reads.require (P := IsPart) .namespaceKw "expected `namespace`" s
      (hext.sound hs) trivial
    refine YieldsFrom.run_bind ((readsFrom_namespaceName hr s₀ _ _ hs (hext.trans hext₁')
      (hfront.append hnew) trivial).mono fun _ _ rest h => ?_)
    exact Nat.lt_of_le_of_lt h.2.length_le hlt
  case isFalse h =>
    refine Yields.ask ?_
    split
    case h_1 hkind =>
      exact (declared (declares_typeDeclaration hr .classDeclaration rfl) (by simp [hkind]) :)
    case h_2 hkind =>
      exact (declared (declares_typeDeclaration hr .structDeclaration rfl) (by simp [hkind]) :)
    case h_3 hkind =>
      exact (declared (declares_typeDeclaration hr .interfaceDeclaration rfl) (by simp [hkind]) :)
    case h_4 hkind => exact (declared (declares_enumDeclaration hr) (by simp [hkind]) :)
    case h_5 hkind => exact (declared (declares_delegateDeclaration hr) (by simp [hkind]) :)
    case h_6 => simp_all [opensDeclaration]

theorem advances_namespaceMember :
    Advances (fun ts => Lookahead.atMember ts = true) (namespaceMember rules) := by
  intro s hs hc
  have hflush := extends_flushTrivia s
  have hrest := rest_flushTrivia s
  have hsound := hflush.sound hs
  have hle : (flushTrivia.run s).2.rest.length ≤ s.rest.length := hflush.suffix.length_le
  refine Yields.mark (YieldsFrom.run_bind ?_)
  obtain ⟨front, hext, hfront, hcases⟩ :=
    (reads_declarationFront _ hsound trivial).and (yields_declarationFront hsound)
  rcases hcases with hlt | ⟨rfl, hsame, hlist, hword⟩
  · obtain ⟨new, hext', -, hsuffix⟩ :=
      readsFrom_namespaceMember hr _ _ front hsound hext hfront trivial
    exact ⟨_, hflush.trans hext', Nat.lt_of_le_of_lt hsuffix.length_le (Nat.lt_of_lt_of_le hlt hle)⟩
  · have hopens : opensDeclaration (Lookahead.kind (declarationFront.run (flushTrivia.run s).2).2.rest)
        = true := by
      simp only [hrest, kind_significant, Lookahead.atModifier_significant] at hlist hword
      simp only [Lookahead.atMember, hword, Bool.or_false] at hc
      rw [hsame, hrest, kind_significant]
      have hmem : Lookahead.kind s.rest ∈ [Kind.namespaceKw, .classKw, .structKw, .interfaceKw,
          .enumKw, .delegateKw] ++ [.lBracket] := List.contains_iff_mem.mp hc
      rcases List.mem_append.mp hmem with hopens | hbracket
      · exact List.contains_iff_mem.mpr hopens
      · exact absurd (List.mem_singleton.mp hbracket) hlist
    obtain ⟨new, hext', hlt⟩ := yields_declaration hr hsound hext hfront hopens
    rw [hsame] at hlt
    exact ⟨_, hflush.trans hext', Nat.lt_of_lt_of_le hlt hle⟩

/-- An item of a file takes a token, and at the end of the text there is none. -/
theorem yields_namespaceItem {s : ParserState} (hs : Sound s) :
    Yields (namespaceItem rules false) s fun again _ rest =>
      if again then rest.length < s.rest.length else Lookahead.kind rest = .eof := by
  have item : ∀ {p : Parser Unit}, (Yields p s fun _ _ rest => rest.length < s.rest.length) →
      Yields (p >>= fun _ => pure true) s fun again _ rest =>
        if again then rest.length < s.rest.length else Lookahead.kind rest = .eof :=
    fun h => h.seq fun _ _ s' _ hlt => YieldsFrom.pure (Extends.refl s') hlt
  refine Yields.ask ?_
  split
  case isTrue heof => exact YieldsFrom.pure (Extends.refl s) (by simpa using heof)
  case isFalse heof =>
    have hne : Lookahead.kind s.rest ≠ .eof := by simpa using heof
    split
    case isTrue hkind => exact item (advances_usingDirective s hs (by simpa using hkind))
    case isFalse =>
      refine Yields.ask ?_
      split
      case isTrue hmember => exact item (advances_namespaceMember hr s hs hmember)
      case isFalse => exact item (advances_strayTokens s hs hne)

/-- The reader of a file gets to the end of the text. -/
theorem yields_namespaceBody {s : ParserState} (hs : Sound s) :
    Yields (namespaceBody rules false) s fun _ _ rest => Lookahead.kind rest = .eof :=
  yields_loop (fun _ hs => yields_namespaceItem hr hs) hs

end

end Grammar

/-! ## Whole texts -/

/-- The tokens of a text that are not its end. -/
def Token.contents (text : String) : List Token := (lex text).filter (·.kind != .eof)

theorem Token.lex_eq_contents (text : String) :
    ∃ last, lex text = contents text ++ [last] ∧ last.kind = .eof ∧
      Covers (contents text) text.toList := by
  obtain ⟨tokens, last, heq, hlast, hcover⟩ := lex_eq_append text
  have hcontents : contents text = tokens := by
    have hall : ∀ t ∈ tokens, (t.kind != .eof) = true := fun t ht => by
      simpa using (hcover.2 t ht).kind_ne_eof
    simp [contents, heq, hlast, List.filter_eq_self.mpr hall]
  rw [hcontents]
  exact ⟨last, heq, hlast, hcover⟩

/-- What a reader took from a text before it got to the end. -/
theorem taken_eq_contents {text : String} {taken rest : List Token}
    (h : Token.lex text = taken ++ Lookahead.significant rest) (htaken : ∀ t ∈ taken, t.kind ≠ .eof)
    (hend : Lookahead.kind rest = .eof) : taken = Token.contents text := by
  obtain ⟨last, heq, hlast, -, hcontents⟩ := Token.lex_eq_contents text
  rw [h] at heq
  rcases List.append_eq_append_iff.mp heq with ⟨more, hmore, hrest⟩ | ⟨more, hmore, hrest⟩
  · cases more with
    | nil => simpa using hmore.symm
    | cons t more =>
        have ht : t.kind = .eof := by simpa [Lookahead.kind, Lookahead.headKind?, hrest] using hend
        exact absurd ht (hcontents t (by simp [hmore])).kind_ne_eof
  · cases more with
    | nil => simpa using hmore
    | cons t more =>
        obtain rfl : last = t := by simpa using (List.cons.inj hrest).1
        exact absurd hlast (htaken last (by simp [hmore]))

/-- A reader of a text is done, and its tree holds all tokens of the text. -/
structure Complete (text : String) (s : ParserState) (cs : Forest) : Prop where
  builder : s.builder = ⟨[.node .compilationUnit cs], []⟩
  faults : s.faults = []
  parts : Each IsPart cs
  leaves : forestLeaves cs = (Token.contents text).map Token.leaf

/-- The state in which the contents of a text are read: the node of the file is open. -/
def openFile (text : String) : ParserState :=
  opening ⟨Token.lex text, .empty, [], []⟩ .compilationUnit Builder.empty.mark

theorem sound_openFile (text : String) : Sound (openFile text) :=
  sound_opening (Extends.refl ⟨Token.lex text, .empty, [], []⟩) _

/-- What a reader of the contents of a file reads becomes the tree of the file. -/
theorem wholeFile_run {text : String} {body : Parser Unit} {s s' : ParserState} {new : Forest}
    (hs : s = (body.run (openFile text)).2) (hext : Extends (openFile text) s new)
    (hs' : s' = ((wholeFile body).run ⟨Token.lex text, .empty, [], []⟩).2) :
    s'.builder = ⟨[.node .compilationUnit (new ++ triviaAhead s.rest)], []⟩ ∧ s'.faults = [] ∧
      s'.errors = s.errors ∧ (Lookahead.kind s.rest = .eof →
        forestLeaves (new ++ triviaAhead s.rest) = (Token.contents text).map Token.leaf) := by
  have hrun : s' = (finishNode.run (flushTrivia.run s).2).2 := by rw [hs', hs]; rfl
  obtain ⟨hclosed, hlast⟩ := extends_finishNode (hext.trans (extends_flushTrivia s))
  rw [← hrun] at hclosed hlast
  refine ⟨congrArg₂ Builder.mk hclosed.done hclosed.opened, hclosed.faults, ?_, fun hend => ?_⟩
  · rw [hrun, errors_finishNode]
    rfl
  · obtain ⟨taken, htokens, hleaves, htaken⟩ := hclosed.taken
    rw [hlast, rest_flushTrivia] at htokens
    rw [← taken_eq_contents htokens htaken hend, ← hleaves]
    simp [forestLeaves, leaves]

/-- A reader that gets to the end of a text builds one tree of all its tokens. -/
theorem wholeFile_complete {text : String} {body : Parser Unit} (hread : Reads IsPart body)
    (hend : ∀ s, Sound s → Yields body s fun _ _ rest => Lookahead.kind rest = .eof) :
    ∃ cs, Complete text ((wholeFile body).run ⟨Token.lex text, .empty, [], []⟩).2 cs := by
  have hsound := sound_openFile text
  obtain ⟨new, hext, hnew, hrest⟩ := (hread _ hsound trivial).and (hend _ hsound)
  obtain ⟨hbuilder, hfaults, -, hleaves⟩ := wholeFile_run rfl hext rfl
  exact ⟨_, hbuilder, hfaults, hnew.append (OfTrivia.ahead _), hleaves hrest⟩

theorem parseState_complete (text : String) : ∃ cs, Complete text (parseState text) cs := by
  have hdepth : nestingBound (Token.lex text) = 4 * (Token.lex text).length + 3 + 1 := by
    simp only [nestingBound]
    omega
  refine wholeFile_complete (Grammar.reads_within _ _) fun s hs => ?_
  rw [hdepth]
  exact Grammar.yields_namespaceBody (Grammar.reads_within _) hs

/-- The leaves of a tree of a text in a row are the text. -/
theorem text_of_leaves {text : String} {t : Tree}
    (h : t.leaves = (Token.contents text).map Token.leaf) : t.text = text := by
  obtain ⟨-, -, -, hcover, -⟩ := Token.lex_eq_contents text
  apply String.toList_injective
  rw [Tree.text, String.toList_join, h, ← hcover]
  simp [List.flatMap_map, Token.leaf]

/-- No node of a tree is a whole file. -/
def NoFile : Tree → Prop := All (fun k _ => k ≠ .compilationUnit) fun _ _ => True

theorem IsPart.noFile {t : Tree} (h : IsPart t) : NoFile t :=
  All.imp (fun k cs _ hk => by rintro rfl; exact hk) (fun _ _ _ => trivial) h.1

/-- The tree of a file is the one that its reader leaves. -/
theorem parse_complete (text : String) :
    ∃ cs, Complete text (parseState text) cs ∧ (parse text).tree = .node .compilationUnit cs := by
  obtain ⟨cs, hcomplete⟩ := parseState_complete text
  refine ⟨cs, hcomplete, ?_⟩
  rw [parse, ParserState.parsed, hcomplete.builder]
  rfl

/-- **Losslessness.** Whatever the text, the parser never asks the builder to open
a node at a place outside the open one or to close a node that is not there, and
no count goes below zero. All nodes are closed in the end, one tree is left, and
its root is the only node of its kind. The leaves of the tree are the tokens of
the text, in their order and without the one for the end, so the text of the
tree is the text that was parsed. -/
theorem parse_lossless (text : String) :
    (parseState text).faults = [] ∧
    (∃ root : Node, (parseState text).builder.finish? = some root ∧ (parse text).tree = root ∧
      root.kind = .compilationUnit ∧ ∀ c ∈ root.children, NoFile c) ∧
    (parse text).tree.leaves =
      ((Token.lex text).filter (·.kind != .eof)).map (fun t => (t.kind, t.text)) ∧
    (parse text).tree.text = text := by
  obtain ⟨cs, hcomplete, htree⟩ := parse_complete text
  have hfinish : (parseState text).builder.finish? = some ⟨.compilationUnit, cs⟩ := by
    rw [hcomplete.builder]
    rfl
  have hleaves : (parse text).tree.leaves = (Token.contents text).map Token.leaf := by
    rw [htree, leaves, hcomplete.leaves]
  refine ⟨hcomplete.faults, ⟨_, hfinish, htree, rfl, ?_⟩, hleaves, text_of_leaves hleaves⟩
  exact fun c hc => (hcomplete.parts c hc).noFile

end CSharpKit.Syntax
