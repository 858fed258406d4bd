import CSharpKit.Syntax.Token
import Mathlib.Data.List.Basic

/-!
# Tokens of a text

The tokens of a text in a row are the text, none of them is empty, and the end
of the text is a token of its own at the end and nowhere else. Each of the others
is of one of four sorts, which `Scanned` lists with what is known of their
characters.
-/

/-- What is looked up in a table stands there. -/
theorem CSharpKit.mem_of_lookup_eq_some {α β : Type} [BEq α] [LawfulBEq α] {table : List (α × β)}
    {a : α} {b : β} (h : table.lookup a = some b) : (a, b) ∈ table := by
  obtain ⟨before, after, heq, -⟩ := List.lookup_eq_some_iff.mp h
  rw [heq]
  exact List.mem_append_right before List.mem_cons_self

namespace CSharpKit.Syntax.Token

open Text

/-! ## Sorts of tokens -/

/-- The characters that may open blanks, a comment or a directive. -/
def opensTrivia (c : Char) : Bool := isBlank c || c == '/' || c == '#'

/-- A text in which no trivia can open. -/
def Tight (text : String) : Prop := ∀ c ∈ text.toList, opensTrivia c = false

instance (text : String) : Decidable (Tight text) :=
  List.decidableBAll (fun c => opensTrivia c = false) text.toList

/-- The characters of identifiers and keywords. -/
def isWordChar (c : Char) : Bool := c == '@' || continuesIdentifier c

/-- The kinds of literals, and of characters that fit nowhere. -/
def isLiteralKind (k : Kind) : Bool :=
  [.stringLiteral, .charLiteral, .intLiteral, .realLiteral, .error].contains k

/-- What a scan finds at the character `c` before `rest`. -/
inductive Scanned (c : Char) (rest : List Char) : Extent → Prop
  | trivia {kind : Kind} {n : Nat} (hkind : kind.isTrivia = true) (hc : opensTrivia c = true) :
      Scanned c rest (kind, n)
  | word {kind : Kind} {n : Nat} (hkind : kind = .identifier ∨ kind.isKeyword = true)
      (hchars : ∀ d ∈ c :: rest.take n, isWordChar d = true) : Scanned c rest (kind, n)
  | operator {kind : Kind} {n : Nat} (h : (c :: rest.take n, kind) ∈ operators) :
      Scanned c rest (kind, n)
  | literal {kind : Kind} {n : Nat} (hkind : isLiteralKind kind = true) : Scanned c rest (kind, n)

theorem isTrivia_of_scanComment {rest : List Char} {extent : Extent}
    (h : scanComment rest = some extent) : extent.1.isTrivia = true := by
  unfold scanComment at h
  split at h <;> cases h <;> rfl

theorem of_mem_take_runLength {p : Char → Bool} {cs : List Char} {c : Char}
    (h : c ∈ cs.take (runLength p cs)) : p c = true := by
  induction cs with
  | nil => simp at h
  | cons d cs ih =>
      rw [runLength] at h
      split at h
      · next hd =>
        rcases List.mem_cons.mp (by simpa using h) with rfl | h
        · exact hd
        · exact ih h
      · simp at h

theorem isWordChar_of_opens {c : Char} (h : opensIdentifier c = true) : isWordChar c = true := by
  simp only [opensIdentifier, isWordChar, continuesIdentifier, isAlphanumeric, Bool.or_eq_true] at h ⊢
  rcases h with h | h
  · exact .inr (.inl h)
  · exact .inr (.inr (.inl h))

theorem isWordChar_of_continues {c : Char} (h : continuesIdentifier c = true) :
    isWordChar c = true := by
  simp [isWordChar, h]

theorem scanned_marked {c : Char} (hc : c = '@' ∨ c = '$') (rest : List Char) :
    Scanned c rest (scanMarked c rest) := by
  unfold scanMarked
  split
  case h_5 d body =>
    split
    · next hd =>
      refine .word (.inl rfl) fun e he => ?_
      rcases List.mem_cons.mp he with rfl | he
      · rfl
      · rcases List.mem_cons.mp (by simpa using he) with rfl | he
        · exact isWordChar_of_opens hd
        · exact isWordChar_of_continues (of_mem_take_runLength he)
    · exact .literal rfl
  all_goals exact .literal rfl

theorem ofKeyword?_getD (text : String) : (Kind.ofKeyword? text).getD .identifier = .identifier ∨
    ((Kind.ofKeyword? text).getD .identifier).isKeyword = true := by
  cases hk : Kind.ofKeyword? text with
  | none => exact .inl rfl
  | some kind =>
      exact .inr (List.any_eq_true.mpr ⟨_, mem_of_lookup_eq_some hk, beq_self_eq_true kind⟩)

theorem scanned_word {c : Char} (hc : opensIdentifier c = true) (rest : List Char) :
    let n := runLength continuesIdentifier rest
    Scanned c rest ((Kind.ofKeyword? (String.ofList (c :: rest.take n))).getD .identifier, n) := by
  refine .word (ofKeyword?_getD _) fun d hd => ?_
  rcases List.mem_cons.mp hd with rfl | hd
  · exact isWordChar_of_opens hc
  · exact isWordChar_of_continues (of_mem_take_runLength hd)

theorem scanned_number (c : Char) (rest cs : List Char) : Scanned c rest (scanNumber cs) := by
  have hkind : ∀ real : Bool, isLiteralKind (if real then .realLiteral else .intLiteral) = true := by
    decide
  exact .literal (hkind _)

theorem scanned_operator (c : Char) (rest : List Char) :
    Scanned c rest (scanOperator (c :: rest)) := by
  have hnonempty : ∀ entry ∈ operators, entry.1 ≠ [] := by decide
  unfold scanOperator
  simp only
  split
  case h_1 text kind hfind =>
    have hmem := List.mem_of_find?_eq_some hfind
    have hfits := List.find?_some hfind
    simp only [Bool.and_eq_true, List.isPrefixOf_iff_prefix] at hfits
    refine .operator ?_
    have hchars : c :: rest.take (text.length - 1) = text := by
      obtain ⟨more, hmore⟩ := hfits.1
      cases text with
      | nil => exact absurd rfl (hnonempty _ hmem)
      | cons d text =>
          obtain ⟨rfl, rfl⟩ := List.cons.inj hmore
          simp
    rw [hchars]
    exact hmem
  case h_2 => exact .literal rfl

/-- Whatever stands next in a text is of one of the four sorts. -/
theorem scanned_scan (lineStart : Bool) (c : Char) (rest : List Char) :
    Scanned c rest (scan lineStart c rest) := by
  unfold scan
  split
  · next hblank => exact .trivia rfl (by simp [opensTrivia, hblank])
  split
  · next hhash =>
    obtain ⟨rfl, -⟩ : c = '#' ∧ _ := by simpa using hhash
    exact .trivia rfl rfl
  split
  case h_1 extent hcomment =>
    split at hcomment
    · next hslash =>
      obtain rfl : c = '/' := by simpa using hslash
      exact .trivia (isTrivia_of_scanComment hcomment) rfl
    · simp at hcomment
  case h_2 =>
    split
    · next hmark => exact scanned_marked (by simpa using hmark) rest
    split
    · next hopens => exact scanned_word hopens rest
    split
    · exact scanned_number c rest _
    split
    · exact .literal rfl
    split
    · exact .literal rfl
    · exact scanned_operator c rest

namespace Scanned

variable {c : Char} {rest : List Char} {kind : Kind} {n : Nat}

/-- Nothing in a text is read as its end. -/
theorem ne_eof (h : Scanned c rest (kind, n)) : kind ≠ .eof := by
  have hkinds : ∀ entry ∈ operators, entry.2 ≠ .eof := by decide
  rintro rfl
  cases h with
  | trivia hkind => simp [Kind.isTrivia] at hkind
  | word hkind => exact absurd hkind (by decide)
  | operator h => exact hkinds _ h rfl
  | literal hkind => exact absurd hkind (by decide)

/-- Trivia opens with a character that may open it. -/
theorem opensTrivia_of_isTrivia (h : Scanned c rest (kind, n)) (hkind : kind.isTrivia = true) :
    opensTrivia c = true := by
  have hkeywords : ∀ entry ∈ Kind.keywords, entry.2.isTrivia = false := by decide
  have hoperators : ∀ entry ∈ operators, entry.2.isTrivia = false := by decide
  cases h with
  | trivia _ hc => exact hc
  | word hword =>
      rcases hword with rfl | hword
      · simp [Kind.isTrivia] at hkind
      · obtain ⟨entry, hentry, heq⟩ := List.any_eq_true.mp hword
        rw [← beq_iff_eq.mp heq, hkeywords entry hentry] at hkind
        cases hkind
  | operator h =>
      rw [hoperators _ h] at hkind
      cases hkind
  | literal hliteral =>
      simp only [isLiteralKind, List.contains_iff_mem] at hliteral
      have hliterals : ∀ k ∈ [Kind.stringLiteral, .charLiteral, .intLiteral, .realLiteral, .error],
          k.isTrivia = false := by decide
      rw [hliterals kind hliteral] at hkind
      cases hkind

end Scanned

/-! ## Tokens in a row -/

/-- A token is what a scan finds. -/
def IsScanned (t : Token) : Prop :=
  ∃ c rest n, Scanned c rest (t.kind, n) ∧ t.text = String.ofList (c :: rest.take n)

/-- The tokens of a text up to its end. -/
def Covers (tokens : List Token) (cs : List Char) : Prop :=
  tokens.flatMap (fun t => t.text.toList) = cs ∧ ∀ t ∈ tokens, IsScanned t

theorem IsScanned.kind_ne_eof {t : Token} (h : IsScanned t) : t.kind ≠ .eof := by
  obtain ⟨c, rest, n, hscan, -⟩ := h
  exact hscan.ne_eof

theorem IsScanned.text_ne_empty {t : Token} (h : IsScanned t) : t.text ≠ "" := by
  obtain ⟨c, rest, n, -, htext⟩ := h
  rw [htext]
  simp

theorem lexFrom_eq_append (lineStart : Bool) (start : Nat) (cs : List Char) :
    ∃ tokens last, lexFrom lineStart start cs = tokens ++ [last] ∧ last.kind = .eof ∧
      Covers tokens cs := by
  fun_induction lexFrom lineStart start cs with
  | case1 lineStart start => exact ⟨[], _, rfl, rfl, rfl, by simp⟩
  | case2 lineStart start c rest kind n hscan chars token ih =>
      obtain ⟨tokens, last, heq, hlast, hcover, hall⟩ := ih
      refine ⟨token :: tokens, last, by simp [heq], hlast, ?_, ?_⟩
      · simp [hcover, token, chars]
      · refine List.forall_mem_cons.mpr ⟨⟨c, rest, n, ?_, rfl⟩, hall⟩
        have := scanned_scan lineStart c rest
        rwa [hscan] at this

/-- The tokens of a text, without the one at the end. -/
theorem lex_eq_append (text : String) :
    ∃ tokens last, lex text = tokens ++ [last] ∧ last.kind = .eof ∧ Covers tokens text.toList :=
  lexFrom_eq_append true 0 text.toList

end CSharpKit.Syntax.Token
