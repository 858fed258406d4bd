import CSharpKit.Proofs.Syntax.Relexing

/-!
# Tokens side by side

The tokens of a text stand in it side by side, from its start to its end. A word among
them is a keyword if it is a reserved one, and an identifier if it is none.
-/

namespace CSharpKit.Syntax.Token

open Text

/-! ## Spans in a text -/

/-- The text of a token stands where its span says. -/
def StandsIn (text : String) (t : Token) : Prop :=
  ∃ before behind : String, text = before ++ t.text ++ behind ∧ t.start = before.utf8ByteSize

/-- A position at the start, at the end or between two characters of a text. -/
def IsBoundary (text : String) (pos : Nat) : Prop := String.Pos.Raw.IsValid text ⟨pos⟩

theorem isBoundary_append (before behind : String) :
    IsBoundary (before ++ behind) before.utf8ByteSize :=
  String.Pos.Raw.isValid_iff_exists_append.mpr ⟨before, behind, rfl, rfl⟩

theorem StandsIn.boundaries {text : String} {t : Token} (h : StandsIn text t) :
    IsBoundary text t.span.start ∧ IsBoundary text t.span.stop := by
  obtain ⟨before, behind, rfl, hstart⟩ := h
  constructor
  · rw [span, hstart, String.append_assoc]
    exact isBoundary_append _ _
  · rw [span, Span.stop, hstart, ← String.utf8ByteSize_append]
    exact isBoundary_append _ _

/-- The end of a text as a token. -/
def endOf (text : String) : Token := ⟨.eof, "", text.utf8ByteSize⟩

theorem head?_lexFrom (lineStart : Bool) (start : Nat) (cs : List Char) :
    ∃ t, (lexFrom lineStart start cs).head? = some t ∧ t.start = start := by
  cases cs with
  | nil => exact ⟨_, by rw [lexFrom]; rfl, rfl⟩
  | cons c rest => exact ⟨_, by rw [lexFrom]; rfl, rfl⟩

/-- Each token behind the first one starts where the one before it ends. -/
theorem isChain_lexFrom (lineStart : Bool) (start : Nat) (cs : List Char) :
    (lexFrom lineStart start cs).IsChain fun t next => t.span.stop = next.span.start := by
  fun_induction lexFrom lineStart start cs with
  | case1 => exact .singleton _
  | case2 lineStart start c rest kind n hscan chars token ih =>
      refine List.isChain_cons.mpr ⟨fun next hnext => ?_, ih⟩
      obtain ⟨t, ht, hstart⟩ := head?_lexFrom (lineStartAfter lineStart kind chars)
        token.span.stop (rest.drop n)
      obtain rfl := Option.some.inj (ht.symm.trans hnext)
      exact hstart.symm

/-- The tokens of what is left of a text, where `before` was read already. -/
theorem exists_lexFrom (lineStart : Bool) (start : Nat) (cs : List Char) :
    ∀ before : String, start = before.utf8ByteSize →
      ∃ tokens, lexFrom lineStart start cs = tokens ++ [endOf (before ++ String.ofList cs)] ∧
        ∀ t ∈ tokens, IsScanned t ∧ StandsIn (before ++ String.ofList cs) t := by
  fun_induction lexFrom lineStart start cs with
  | case1 lineStart start =>
      rintro before rfl
      exact ⟨[], by simp [endOf], List.forall_mem_nil _⟩
  | case2 lineStart start c rest kind n hscan chars token ih =>
      rintro before rfl
      have htext : before ++ String.ofList (c :: rest) =
          before ++ token.text ++ String.ofList (rest.drop n) := by
        rw [String.append_assoc, ← String.ofList_append, List.cons_append, List.take_append_drop]
      obtain ⟨tokens, heq, hall⟩ := ih (before ++ token.text) String.utf8ByteSize_append.symm
      rw [← htext] at heq hall
      refine ⟨token :: tokens, by rw [heq]; rfl, List.forall_mem_cons.mpr ⟨⟨?_, ?_⟩, hall⟩⟩
      · have hscanned := scanned_scan lineStart c rest
        rw [hscan] at hscanned
        exact ⟨c, rest, n, hscanned, rfl⟩
      · exact ⟨before, String.ofList (rest.drop n), htext, rfl⟩

/-! ## Words among the tokens -/

/-- The kind of a word says whether it is reserved. -/
structure WellNamed (t : Token) : Prop where
  keyword : t.kind.isKeyword = true → (t.text, t.kind) ∈ Kind.keywords
  identifier : t.kind = .identifier → ∀ entry ∈ Kind.keywords, entry.1 ≠ t.text

theorem WellNamed.of_not_word {t : Token} (h : ¬(t.kind = .identifier ∨ t.kind.isKeyword = true)) :
    WellNamed t :=
  ⟨fun hk => absurd (.inr hk) h, fun hk => absurd (.inl hk) h⟩

theorem IsWord.wellNamed {text : String} {k : Kind} (h : IsWord text k) (start : Nat) :
    WellNamed ⟨k, text, start⟩ := by
  have hidentifier : ¬Kind.identifier.isKeyword = true := by decide
  have hkinds : ∀ entry ∈ Kind.keywords, entry.2 ≠ .identifier := by decide
  cases h with
  | plain =>
      cases hk : Kind.ofKeyword? text with
      | none =>
          refine ⟨fun hkeyword => absurd hkeyword hidentifier, fun _ entry hentry heq => ?_⟩
          have hnone := List.lookup_eq_none_iff.mp hk entry hentry
          simp [heq] at hnone
      | some kind =>
          have hmem : (text, kind) ∈ Kind.keywords := mem_of_lookup_eq_some hk
          exact ⟨fun _ => hmem, fun hkind => absurd hkind (hkinds _ hmem)⟩
  | @verbatim c cs htext =>
      have hmarked : ∀ entry ∈ Kind.keywords, entry.1.toList.head? ≠ some '@' := by decide
      refine ⟨fun hkeyword => absurd hkeyword hidentifier, fun _ entry hentry heq => ?_⟩
      apply hmarked entry hentry
      rw [heq, htext, String.toList_ofList]
      rfl

/-- A word that is found is a keyword if it is reserved, and an identifier if not. -/
theorem wellNamed_of_scan {lineStart : Bool} {c : Char} {rest : List Char} {k : Kind} {n : Nat}
    (h : scan lineStart c rest = (k, n)) (start : Nat) :
    WellNamed ⟨k, String.ofList (c :: rest.take n), start⟩ := by
  by_cases hk : k = .identifier ∨ k.isKeyword = true
  · have hexact := scan_exact (.inr (.inl hk)) h
    nth_rewrite 1 [← List.take_append_drop n rest] at hexact
    exact (isWord_of_scan hk hexact).1.wellNamed start
  · exact .of_not_word hk

theorem wellNamed_lexFrom (lineStart : Bool) (start : Nat) (cs : List Char) :
    ∀ t ∈ lexFrom lineStart start cs, WellNamed t := by
  fun_induction lexFrom lineStart start cs with
  | case1 =>
      have heof : ¬(Kind.eof = .identifier ∨ Kind.eof.isKeyword = true) := by decide
      exact List.forall_mem_singleton.mpr (.of_not_word heof)
  | case2 lineStart start c rest kind n hscan chars token ih =>
      exact List.forall_mem_cons.mpr ⟨wellNamed_of_scan hscan start, ih⟩

/-! ## Whole texts -/

/-- The tokens of a text stand in it side by side from its start to its end, each with a
text of its own between characters of the whole; the end of the text, and nothing else,
is the last of them. Keywords are the reserved words, and no identifier is one. -/
theorem lex_tiles (text : String) :
    ∃ tokens, lex text = tokens ++ [endOf text] ∧
      ((lex text).head?.map fun t => t.span.start) = some 0 ∧
      (lex text).IsChain (fun t next => t.span.stop = next.span.start) ∧
      (endOf text).span.stop = text.utf8ByteSize ∧
      (∀ t ∈ tokens, t.kind ≠ .eof ∧ t.text ≠ "" ∧ StandsIn text t ∧
        t.span.start < t.span.stop ∧ IsBoundary text t.span.start ∧ IsBoundary text t.span.stop) ∧
      ∀ t ∈ lex text, WellNamed t := by
  obtain ⟨tokens, hlex, hall⟩ := exists_lexFrom true 0 text.toList "" rfl
  rw [String.ofList_toList, String.empty_append] at hlex hall
  obtain ⟨first, hfirst, hstart⟩ := head?_lexFrom true 0 text.toList
  refine ⟨tokens, hlex, ?_, isChain_lexFrom _ _ _, rfl, fun t ht => ?_, wellNamed_lexFrom _ _ _⟩
  · rw [lex, hfirst, Option.map_some, span, hstart]
  · obtain ⟨hscanned, hstands⟩ := hall t ht
    have hwidth : 0 < t.text.utf8ByteSize := by
      refine Nat.pos_of_ne_zero fun hzero => hscanned.text_ne_empty ?_
      exact String.utf8ByteSize_eq_zero_iff.mp hzero
    exact ⟨hscanned.kind_ne_eof, hscanned.text_ne_empty, hstands,
      Nat.lt_add_of_pos_right hwidth, hstands.boundaries⟩

end CSharpKit.Syntax.Token
