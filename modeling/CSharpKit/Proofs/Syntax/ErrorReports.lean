import CSharpKit.Proofs.Syntax.WholeFragments

/-!
# Reports of errors

What the parser reports about a text: complaints in the order of the text, each at a token
that counts, and for each node of an error one that is about it.
-/

namespace CSharpKit.Syntax

open Syntax.Tree CSharpKit.Syntax.Parser

/-! ## Walks over nodes at their places -/

namespace Cursor

variable {P : Kind → Text.Span → Prop}

mutual

/-- A walk comes to the nodes of a tree with their spans. -/
theorem of_mem_preorderAt {d : Cursor} (hd : d.isNode = true) :
    ∀ (t : Tree) (c : Cursor), c.focus = t → AllAt P c.start t → d ∈ preorderAt c t →
      P d.kind d.span
  | .token k text, c, hfocus, _, hmem => by
      obtain rfl : d = c := by simpa [preorderAt] using hmem
      simp [isNode, hfocus, Tree.isNode] at hd
  | .node k ts, c, hfocus, hall, hmem => by
      rcases List.mem_cons.mp (by simpa only [preorderAt] using hmem) with rfl | hmem
      · rw [kind, span, hfocus]
        exact hall.1
      · exact of_mem_preorderRow hd ts c 0 c.start hall.2 hmem

theorem of_mem_preorderRow {d : Cursor} (hd : d.isNode = true) :
    ∀ (ts : Forest) (c : Cursor) (i pos : Nat), AllAtIn P pos ts → d ∈ preorderRow c i pos ts →
      P d.kind d.span
  | [], _, _, _, _, hmem => by simp [preorderRow] at hmem
  | t :: ts, c, i, pos, hall, hmem => by
      rcases List.mem_append.mp (by simpa only [preorderRow] using hmem) with hmem | hmem
      · exact of_mem_preorderAt hd t (.child c i pos t) rfl hall.1 hmem
      · exact of_mem_preorderRow hd ts c (i + 1) (pos + t.width) hall.2 hmem

end

/-- Every node of a tree stands at its place. -/
theorem of_mem_nodes {t : Tree} (h : AllAt P 0 t) {c : Cursor} (hc : c ∈ (Cursor.root t).nodes) :
    P c.kind c.span :=
  have hmem := List.mem_filter.mp hc
  of_mem_preorderAt hmem.2 t (.root t) rfl h hmem.1

end Cursor

/-! ## Reports -/

/-- Complaints about a text, in its order, and each about a token of it that counts. -/
structure Reported (text : String) (errors : List ParseError) : Prop where
  sorted : errors.Pairwise fun e later => e.span.start ≤ later.span.start
  tokens : ∀ e ∈ errors, ∃ t ∈ Token.lex text, t.isTrivia = false ∧ e.span = t.span

theorem Located.reported {text : String} {s : ParserState} (h : Located (Token.lex text) s) :
    Reported text s.parsed.errors where
  sorted := List.pairwise_reverse.mpr h.sorted
  tokens e he := by
    obtain ⟨t, ht⟩ := h.about e (List.mem_reverse.mp he)
    exact ⟨t, ht.mem, ht.plain, ht.span⟩

/-- A fragment that is not read has the complaints of its reader. -/
theorem ReadsOne.reported {what : Grammar.Rules → Parser Unit} {text : String} {p : Kind → Bool}
    {errors : List ParseError} (h : ReadsOne p what text)
    (hwhat : ∀ depth, Locates (Token.lex text) (what (Grammar.within depth)))
    (herrors : parseFragment what text = .error errors) : Reported text errors := by
  rcases h with h | ⟨g, h, -⟩
  all_goals rw [h] at herrors
  · obtain rfl := Except.error.inj herrors
    exact (located_fragmentState text hwhat).reported
  · cases herrors

/-- **Errors are located and ordered.** The complaints about a file or a fragment start one
behind the other, each is about one token of the text that is no trivia, where the last token
is the end of the text, and every error in the tree of a file is blamed for a token inside it
or for the first one behind it. -/
theorem parse_errors_located (text : String) :
    Reported text (parse text).errors ∧
    (∀ c ∈ (Cursor.root (parse text).tree).nodes, c.kind = .error →
      Blamed (Token.lex text) (parse text).errors c.span) ∧
    (∀ errors, parseType text = .error errors ∨ parseExpression text = .error errors ∨
      parseMember text = .error errors → Reported text errors) ∧
    ∃ tokens, Token.lex text = tokens ++ [Token.endOf text] := by
  have hlocated : Located (Token.lex text) (parseState text) :=
    located_runOn text fun _ => Grammar.locates_within _ _
  obtain ⟨cs, hcomplete, htree⟩ := parse_complete text
  refine ⟨hlocated.reported, fun c hc hkind => ?_, ?_, ?_⟩
  · have hblamed := hlocated.blamed
    rw [Builder.forest, hcomplete.builder] at hblamed
    rw [htree] at hc
    obtain ⟨e, he, hrest⟩ := Cursor.of_mem_nodes hblamed.1 hc hkind
    exact ⟨e, List.mem_reverse.mpr he, hrest⟩
  · rintro errors (h | h | h)
    · exact (readsOne_type text).reported (fun _ => Grammar.locates_type) h
    · exact (readsOne_expression text).reported (fun _ => Grammar.locates_within _ _) h
    · exact (readsOne_member text).reported (fun _ => Grammar.locates_within _ _) h
  · obtain ⟨tokens, hlex, -⟩ := Token.lex_tiles text
    exact ⟨tokens, hlex⟩

/-- A class with a broken member between two others. -/
def brokenMember : String := "class C { int x; + ; int y; }"

theorem parse_errors_located_brokenMember :
    (∃ c ∈ (Cursor.root (parse brokenMember).tree).nodes, c.kind = .error ∧
      Blamed (Token.lex brokenMember) (parse brokenMember).errors c.span) ∧
    ∃ errors, parseType brokenMember = .error errors ∧ Reported brokenMember errors := by
  have herror : (Cursor.root (parse brokenMember).tree).nodes.any (·.kind == .error) = true := by
    decide +kernel
  obtain ⟨c, hc, hkind⟩ := List.any_eq_true.mp herror
  obtain ⟨errors, herrors⟩ := exists_eq_error
    (show (parseType brokenMember).isOk = false by decide +kernel)
  refine ⟨⟨c, hc, eq_of_beq hkind, ?_⟩, errors, herrors, ?_⟩
  · exact (parse_errors_located brokenMember).2.1 c hc (eq_of_beq hkind)
  · exact (parse_errors_located brokenMember).2.2.1 errors (.inl herrors)

end CSharpKit.Syntax
