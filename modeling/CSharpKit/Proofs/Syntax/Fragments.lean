import CSharpKit.Proofs.Syntax.Lossless

/-!
# Types by themselves

A text that is read as one type, and in which no trivia can open, is the text of
the node that comes out of it. Trivia around a type would stay outside its node.
-/

namespace CSharpKit.Syntax

open Tree CSharpKit.Syntax.Parser

/-! ## Texts without trivia -/

theorem Token.not_isTrivia_of_tight {text : String} (h : Tight text) :
    ∀ t ∈ lex text, t.isTrivia = false := by
  obtain ⟨tokens, last, heq, hlast, hcover, hscanned⟩ := lex_eq_append text
  intro t ht
  rw [heq] at ht
  rcases List.mem_append.mp ht with ht | ht
  · obtain ⟨c, rest, n, hscan, htext⟩ := hscanned t ht
    have hc : c ∈ text.toList := by
      rw [← hcover]
      exact List.mem_flatMap.mpr ⟨t, ht, by simp [htext]⟩
    by_contra htrivia
    have hopens := hscan.opensTrivia_of_isTrivia (by simpa [isTrivia] using htrivia)
    rw [h c hc] at hopens
    cases hopens
  · rw [List.mem_singleton.mp ht, isTrivia, hlast]
    rfl

theorem triviaAhead_of_tight {text : String} (h : Token.Tight text) {ts : List Token}
    (hts : ts <:+ Token.lex text) : triviaAhead ts = [] := by
  have hnone : ts.takeWhile Token.isTrivia = [] := by
    cases ts with
    | nil => rfl
    | cons t ts =>
        have ht := Token.not_isTrivia_of_tight h t (hts.subset List.mem_cons_self)
        simp [ht]
  simp [triviaAhead, hnone]

/-! ## Complaints -/

namespace Parser

theorem errors_loopUpTo {step : Parser Bool} (hstep : ∀ s, (step.run s).2.errors = s.errors)
    (n : Nat) (s : ParserState) : ((loopUpTo step n).run s).2.errors = s.errors := by
  induction n generalizing s with
  | zero => rfl
  | succ n ih =>
      have hrun : ((loopUpTo step (n + 1)).run s).2 =
          ((if (step.run s).1 = true then loopUpTo step n else pure ()).run (step.run s).2).2 := rfl
      rw [hrun, ← hstep s]
      split
      · exact ih _
      · rfl

/-- Tokens are skipped without a complaint. -/
theorem errors_skipTo (kinds : List Kind) (s : ParserState) :
    ((skipTo kinds).run s).2.errors = s.errors := by
  refine errors_loopUpTo (fun s => ?_) _ s
  have hrun : ∀ atEnd : Bool, ((if atEnd = true then pure false else bump >>= fun _ => pure true :
      Parser Bool).run s).2.errors = s.errors := by
    intro atEnd
    cases atEnd with
    | true => rfl
    | false => exact errors_bump s
  exact hrun _

/-- A complaint before the end of the text is recorded. -/
theorem errors_complain_ne_nil {s : ParserState} (message : String)
    (h : Lookahead.kind s.rest ≠ .eof) : ((complain message).run s).2.errors ≠ [] := by
  obtain ⟨t, rest, hrest, -⟩ := exists_next h
  rw [complain_run, hrest]
  exact List.cons_ne_nil _ _

end Parser

/-! ## Ends of fragments -/

/-- What is read behind a fragment: nothing, or a complaint about it. -/
def fragmentEnd : Parser Unit := do
  unless ← isAt .eof do
    complain "unexpected trailing input in fragment"
    skipTo []

theorem errors_fragmentEnd_ne_nil {s : ParserState} (h : Lookahead.kind s.rest ≠ .eof) :
    (fragmentEnd.run s).2.errors ≠ [] := by
  have hrun : (fragmentEnd.run s).2 = ((if (Lookahead.kind s.rest == .eof) = true then pure ()
      else complain "unexpected trailing input in fragment" >>= fun _ => skipTo [] :
        Parser Unit).run s).2 := rfl
  rw [hrun, if_neg (by simpa using h)]
  show ((skipTo []).run ((complain _).run s).2).2.errors ≠ []
  rw [errors_skipTo]
  exact errors_complain_ne_nil _ h

theorem fragmentEnd_of_eof {s : ParserState} (h : Lookahead.kind s.rest = .eof) :
    (fragmentEnd.run s).2 = s := by
  have hrun : (fragmentEnd.run s).2 = ((if (Lookahead.kind s.rest == .eof) = true then pure ()
      else complain "unexpected trailing input in fragment" >>= fun _ => skipTo [] :
        Parser Unit).run s).2 := rfl
  rw [hrun, if_pos (by simpa using h)]
  rfl

/-- The state behind a text that was read as a fragment. -/
def fragmentState (what : Grammar.Rules → Parser Unit) (text : String) : ParserState :=
  runOn text fun rules => what rules >>= fun _ => fragmentEnd

theorem parseFragment_eq (what : Grammar.Rules → Parser Unit) (text : String) :
    parseFragment what text =
      if !(fragmentState what text).parsed.errors.isEmpty then
        .error (fragmentState what text).parsed.errors
      else
        match (fragmentState what text).parsed.tree.children.findSome? Tree.node? with
        | some found => .ok found
        | none => .error [⟨"empty fragment", ⟨0, 0⟩⟩] := rfl

/-- The complaints about a fragment are those of its reader and those about what stands behind. -/
theorem errors_fragmentState {what : Grammar.Rules → Parser Unit} {text : String} {s : ParserState}
    (hs : s = ((what (Grammar.within (nestingBound (Token.lex text)))).run (openFile text)).2) :
    (fragmentState what text).parsed.errors = (fragmentEnd.run s).2.errors.reverse := by
  have hrun : fragmentState what text = (finishNode.run (flushTrivia.run
      ((what (Grammar.within (nestingBound (Token.lex text))) >>= fun _ => fragmentEnd).run
        (openFile text)).2).2).2 := rfl
  rw [ParserState.parsed, hrun, errors_finishNode, hs]
  rfl

theorem parseFragment_eq_ok_iff {what : Grammar.Rules → Parser Unit} {text : String} {node : Node} :
    parseFragment what text = .ok node ↔ (fragmentState what text).parsed.errors = [] ∧
      (fragmentState what text).parsed.tree.children.findSome? Tree.node? = some node := by
  rw [parseFragment_eq]
  cases herrors : (fragmentState what text).parsed.errors with
  | cons error errors => simp
  | nil =>
      cases hfound : (fragmentState what text).parsed.tree.children.findSome? Tree.node? <;> simp

/-- Where there is no complaint about a fragment, its reader came to the end of the text, and the
trees that it read and the trivia behind them are all of the text. -/
theorem fragment_of_clean {what : Grammar.Rules → Parser Unit} {text : String} {s : ParserState}
    {new : Forest}
    (hs : s = ((what (Grammar.within (nestingBound (Token.lex text)))).run (openFile text)).2)
    (hext : Extends (openFile text) s new) (h : (fragmentState what text).parsed.errors = []) :
    s.errors = [] ∧ Lookahead.kind s.rest = .eof ∧
      (fragmentState what text).parsed.tree.children = new ++ triviaAhead s.rest ∧
      forestLeaves (new ++ triviaAhead s.rest) = (Token.contents text).map Token.leaf := by
  rw [errors_fragmentState hs, List.reverse_eq_nil_iff] at h
  have hend : Lookahead.kind s.rest = .eof := by
    by_contra hne
    exact errors_fragmentEnd_ne_nil hne h
  have hstop : (fragmentEnd.run s).2 = s := fragmentEnd_of_eof hend
  have hbody : s = ((what (Grammar.within (nestingBound (Token.lex text))) >>= fun _ =>
      fragmentEnd).run (openFile text)).2 := by
    rw [← hstop, hs]
    rfl
  obtain ⟨hbuilder, -, -, hleaves⟩ := wholeFile_run hbody hext (rfl : fragmentState what text = _)
  refine ⟨hstop ▸ h, hend, ?_, hleaves hend⟩
  rw [ParserState.parsed, hbuilder]
  rfl

/-! ## Types -/

/-- A text that is read as a type without a complaint is read to its end, and the
node is the first one that was read. -/
theorem parseType_eq_ok {text : String} {node : Node} (h : parseType text = .ok node) :
    Yields Grammar.type (openFile text) fun _ new rest => Lookahead.kind rest = .eof ∧
      forestLeaves (new ++ triviaAhead rest) = (Token.contents text).map Token.leaf ∧
      (new ++ triviaAhead rest).findSome? Tree.node? = some node := by
  obtain ⟨new, hext, -⟩ := Grammar.reads_type _ (sound_openFile text) trivial
  obtain ⟨hclean, hfound⟩ := parseFragment_eq_ok_iff.mp h
  obtain ⟨-, hend, hchildren, hleaves⟩ := fragment_of_clean rfl hext hclean
  exact ⟨new, hext, hend, hleaves, hchildren ▸ hfound⟩

theorem findSome?_node?_triviaAhead (ts : List Token) :
    (triviaAhead ts).findSome? Tree.node? = none := by
  refine List.findSome?_eq_none_iff.mpr ?_
  exact triviaAhead_all (P := fun t => t.node? = none) (fun _ _ _ => rfl) ts

/-- What is read as a type is trivia around one node, which writes a type. -/
theorem exists_of_parseType {text : String} {node : Node} (h : parseType text = .ok node) :
    node.kind.isType = true ∧ ∃ rest, rest <:+ Token.lex text ∧
      forestLeaves (triviaAhead (Token.lex text) ++ [node.tree] ++ triviaAhead rest) =
        (Token.contents text).map Token.leaf := by
  have hread := parseType_eq_ok h
  cases htype : Lookahead.atType (openFile text).rest with
  | true =>
      obtain ⟨new, hext, ⟨-, hleaves, hfound⟩, more, rfl, k, cs, rfl, hk, -⟩ :=
        hread.and (Grammar.yields_type (sound_openFile text) htype)
      obtain rfl : ⟨k, cs⟩ = node := by
        rw [List.append_assoc, List.findSome?_append, findSome?_node?_triviaAhead] at hfound
        exact Option.some.inj hfound
      exact ⟨hk, _, hext.suffix, hleaves⟩
  | false =>
      obtain ⟨new, -, ⟨-, -, hfound⟩, rfl, -⟩ := hread.and (Grammar.yields_type_of_not htype)
      simp [List.findSome?_append, findSome?_node?_triviaAhead] at hfound

/-- A text that is read as a type, and in which no trivia can open, is the text of
the node that was read. -/
theorem text_of_parseType {text : String} {node : Node} (htight : Token.Tight text)
    (h : parseType text = .ok node) : node.tree.text = text := by
  obtain ⟨-, rest, hrest, hleaves⟩ := exists_of_parseType h
  rw [triviaAhead_of_tight htight (List.suffix_refl _), triviaAhead_of_tight htight hrest] at hleaves
  apply text_of_leaves
  simpa [forestLeaves] using hleaves

end CSharpKit.Syntax
