import CSharpKit.Proofs.Syntax.Lossless
import Mathlib.Data.List.Chain

/-!
# Words and what stands apart

A word is cut off where no letter follows it, and a mark where nothing follows that
would make a longer one. So tokens whose texts stand apart in this sense are read back
from their texts in a row.
-/

namespace CSharpKit

open Text

/-! ## Characters -/

namespace Text.CharRanges

/-- No code point is in both of two classes. -/
def apart (xs ys : CharRanges) : Bool := xs.all fun x => ys.all fun y => x.2 < y.1 || y.2 < x.1

theorem contains_iff {ranges : CharRanges} {c : Char} :
    ranges.contains c = true ↔ ∃ x ∈ ranges, x.1 ≤ c.toNat ∧ c.toNat ≤ x.2 := by
  simp [contains]

theorem not_contains_of_apart {xs ys : CharRanges} (h : xs.apart ys = true) {c : Char}
    (hc : xs.contains c = true) : ¬ys.contains c = true := by
  intro hc'
  simp only [apart, List.all_eq_true, Bool.or_eq_true, decide_eq_true_eq] at h
  obtain ⟨x, hx, hlo, hhi⟩ := contains_iff.mp hc
  obtain ⟨y, hy, hlo', hhi'⟩ := contains_iff.mp hc'
  rcases h x hx y hy with hlt | hlt
  · omega
  · omega

end Text.CharRanges

namespace Syntax.Token

/-- The code points of characters that may open trivia: `#`, `/` and blanks. -/
def triviaRanges : CharRanges := (0x23, 0x23) :: (0x2F, 0x2F) :: blankRanges

/-- The code points of characters in words: `@`, `_`, letters and digits. -/
def wordRanges : CharRanges :=
  (0x40, 0x40) :: (0x5F, 0x5F) :: (alphabeticRanges ++ numericRanges)

theorem contains_triviaRanges {c : Char} (h : opensTrivia c = true) :
    triviaRanges.contains c = true := by
  simp only [opensTrivia, isBlank, Bool.or_eq_true, beq_iff_eq, CharRanges.contains_iff] at h ⊢
  rcases h with (⟨x, hx, hc⟩ | rfl) | rfl
  · exact ⟨x, List.mem_cons_of_mem _ (List.mem_cons_of_mem _ hx), hc⟩
  · exact ⟨(0x2F, 0x2F), by decide, by decide⟩
  · exact ⟨(0x23, 0x23), by decide, by decide⟩

theorem contains_wordRanges {c : Char} (h : isWordChar c = true) :
    wordRanges.contains c = true := by
  simp only [isWordChar, continuesIdentifier, isAlphanumeric, isAlphabetic, isNumeric,
    Bool.or_eq_true, beq_iff_eq, CharRanges.contains_iff] at h ⊢
  have inside {x : Nat × Nat} (hx : x ∈ alphabeticRanges ++ numericRanges) : x ∈ wordRanges :=
    List.mem_cons_of_mem _ (List.mem_cons_of_mem _ hx)
  rcases h with rfl | rfl | ⟨x, hx, hc⟩ | ⟨x, hx, hc⟩
  · exact ⟨(0x40, 0x40), List.mem_cons_self, by decide⟩
  · exact ⟨(0x5F, 0x5F), List.mem_cons_of_mem _ List.mem_cons_self, by decide⟩
  · exact ⟨x, inside (List.mem_append_left _ hx), hc⟩
  · exact ⟨x, inside (List.mem_append_right _ hx), hc⟩

theorem not_opensTrivia_of_isWordChar {c : Char} (h : isWordChar c = true) :
    opensTrivia c = false := by
  have hapart : wordRanges.apart triviaRanges = true := by decide +kernel
  have hnot := CharRanges.not_contains_of_apart hapart (contains_wordRanges h)
  exact Bool.eq_false_iff.mpr fun hopens => hnot (contains_triviaRanges hopens)

theorem not_opensTrivia_of_opens {c : Char} (h : opensIdentifier c = true) :
    opensTrivia c = false := not_opensTrivia_of_isWordChar (isWordChar_of_opens h)

/-! ## Words -/

theorem runLength_append {p : Char → Bool} {cs rest : List Char} (hcs : ∀ c ∈ cs, p c = true)
    (hrest : ∀ c ∈ rest.head?, p c = false) : runLength p (cs ++ rest) = cs.length := by
  induction cs with
  | nil =>
      cases rest with
      | nil => rfl
      | cons c rest => simp [runLength, hrest c rfl]
  | cons c cs ih =>
      rw [List.cons_append, runLength, if_pos (hcs c List.mem_cons_self),
        ih fun d hd => hcs d (List.mem_cons_of_mem _ hd), List.length_cons]

theorem all_of_drop_runLength {p : Char → Bool} {cs : List Char}
    (h : cs.drop (runLength p cs) = []) : ∀ c ∈ cs, p c = true := by
  have htake : cs.take (runLength p cs) = cs := List.take_of_length_le (List.drop_eq_nil_iff.mp h)
  exact fun c hc => of_mem_take_runLength (htake ▸ hc)

/-- The characters of a word: an identifier or a keyword. -/
inductive IsWord (text : String) : Kind → Prop
  | plain {c : Char} {cs : List Char} (htext : text = String.ofList (c :: cs))
      (hc : opensIdentifier c = true) (hcs : ∀ d ∈ cs, continuesIdentifier d = true) :
      IsWord text ((Kind.ofKeyword? text).getD .identifier)
  | verbatim {c : Char} {cs : List Char} (htext : text = String.ofList ('@' :: c :: cs))
      (hc : opensIdentifier c = true) (hcs : ∀ d ∈ cs, continuesIdentifier d = true) :
      IsWord text .identifier

/-- A text is read as one identifier. -/
def IsName (text : String) : Prop := (lex text).map (·.kind) = [.identifier, .eof]

instance (text : String) : Decidable (IsName text) := inferInstanceAs (Decidable (_ = _))

/-- Marks that open a token are no blanks and open no word. -/
theorem not_blank_of_mark {c : Char} (hc : c ∈ ['#', '/', '@', '$', '\x22', '.']) :
    isBlank c = false ∧ opensIdentifier c = false := by
  have hmarks : (['#', '/', '@', '$', '\x22', '.'].all fun c =>
      !isBlank c && !opensIdentifier c) = true := by decide +kernel
  simpa using List.all_eq_true.mp hmarks c hc

theorem ne_of_opens {c d : Char} (hc : opensIdentifier c = true)
    (hd : d ∈ ['#', '/', '@', '$', '\x22', '.']) : c ≠ d := by
  rintro rfl
  rw [(not_blank_of_mark hd).2] at hc
  cases hc

theorem scan_plain {c : Char} (hc : opensIdentifier c = true) (lineStart : Bool) (rest : List Char) :
    scan lineStart c rest =
      ((Kind.ofKeyword? (String.ofList (c :: rest.take (runLength continuesIdentifier rest)))).getD
        .identifier, runLength continuesIdentifier rest) := by
  have hopens := not_opensTrivia_of_opens hc
  simp only [opensTrivia, Bool.or_eq_false_iff, beq_eq_false_iff_ne] at hopens
  obtain ⟨⟨hblank, hslash⟩, hhash⟩ := hopens
  have hat : c ≠ '@' := ne_of_opens hc (by decide)
  have hdollar : c ≠ '$' := ne_of_opens hc (by decide)
  simp [scan, hblank, hslash, hhash, hat, hdollar, hc]

theorem scan_verbatim {c : Char} (hc : opensIdentifier c = true) (lineStart : Bool)
    (rest : List Char) : scan lineStart '@' (c :: rest) =
      (.identifier, runLength continuesIdentifier rest + 1) := by
  have hquote : c ≠ '\x22' := ne_of_opens hc (by decide)
  have hdollar : c ≠ '$' := ne_of_opens hc (by decide)
  have hblank : isBlank '@' = false := (not_blank_of_mark (by decide)).1
  have hmarked : scanMarked '@' (c :: rest) =
      (.identifier, runLength continuesIdentifier rest + 1) := by
    unfold scanMarked
    split <;> simp_all
  simp [scan, hblank, hmarked]

theorem scanNumber_not_word (cs : List Char) :
    ¬((scanNumber cs).1 = .identifier ∨ (scanNumber cs).1.isKeyword = true) := by
  have hkind : ∀ real : Bool, ¬((if real then Kind.realLiteral else .intLiteral) = .identifier ∨
      (if real then Kind.realLiteral else .intLiteral).isKeyword = true) := by decide
  exact hkind _

theorem scanOperator_not_word (cs : List Char) :
    ¬((scanOperator cs).1 = .identifier ∨ (scanOperator cs).1.isKeyword = true) := by
  have hkinds : ∀ entry ∈ operators, ¬(entry.2 = .identifier ∨ entry.2.isKeyword = true) := by decide
  unfold scanOperator
  simp only
  split
  · next hfind => exact hkinds _ (List.mem_of_find?_eq_some hfind)
  · decide

theorem not_isTrivia_of_word {k : Kind} (hk : k = .identifier ∨ k.isKeyword = true) :
    k.isTrivia = false := by
  have hkeywords : ∀ entry ∈ Kind.keywords, entry.2.isTrivia = false := by decide
  rcases hk with rfl | hk
  · rfl
  · obtain ⟨entry, hentry, heq⟩ := List.any_eq_true.mp hk
    rw [← beq_iff_eq.mp heq, hkeywords entry hentry]

theorem opens_of_scanMarked {c : Char} {rest : List Char} {k : Kind} {n : Nat}
    (hk : k = .identifier ∨ k.isKeyword = true) (h : scanMarked c rest = (k, n)) :
    ∃ d more, c = '@' ∧ rest = d :: more ∧ opensIdentifier d = true := by
  unfold scanMarked at h
  split at h
  case h_5 d body _ _ =>
    split at h
    · next hd => exact ⟨d, body, rfl, rfl, hd⟩
    · cases h
      exact absurd hk (by decide)
  all_goals
    cases h
    exact absurd hk (by decide)

/-- A word opens with a letter, with or without `@` before it. -/
theorem opens_of_scan_word {lineStart : Bool} {c : Char} {rest : List Char} {k : Kind} {n : Nat}
    (hk : k = .identifier ∨ k.isKeyword = true) (h : scan lineStart c rest = (k, n)) :
    opensIdentifier c = true ∨ ∃ d more, c = '@' ∧ rest = d :: more ∧ opensIdentifier d = true := by
  have htrivia := not_isTrivia_of_word hk
  unfold scan at h
  split at h
  · cases h
    cases htrivia
  split at h
  · cases h
    cases htrivia
  split at h
  · next extent hcomment =>
    split at hcomment
    · have hcomment := isTrivia_of_scanComment hcomment
      rw [h, htrivia] at hcomment
      cases hcomment
    · simp at hcomment
  split at h
  · exact .inr (opens_of_scanMarked hk h)
  split at h
  · next hc => exact .inl hc
  split at h
  · have hnot := scanNumber_not_word (c :: rest)
    rw [h] at hnot
    exact absurd hk hnot
  split at h
  · cases h
    exact absurd hk (by decide)
  split at h
  · cases h
    exact absurd hk (by decide)
  · have hnot := scanOperator_not_word (c :: rest)
    rw [h] at hnot
    exact absurd hk hnot

theorem lexFrom_cons {lineStart : Bool} {c : Char} {rest : List Char} {k : Kind} {n : Nat}
    (h : scan lineStart c rest = (k, n)) (start : Nat) :
    lexFrom lineStart start (c :: rest) = ⟨k, String.ofList (c :: rest.take n), start⟩ ::
      lexFrom (lineStartAfter lineStart k (c :: rest.take n))
        (start + (String.ofList (c :: rest.take n)).utf8ByteSize) (rest.drop n) := by
  rw [lexFrom, h]
  rfl

theorem eq_nil_of_lexFrom {lineStart : Bool} {start : Nat} {cs : List Char}
    (h : (lexFrom lineStart start cs).map (·.kind) = [.eof]) : cs = [] := by
  cases cs with
  | nil => rfl
  | cons c rest =>
      cases hscan : scan lineStart c rest with
      | mk k n =>
          have hne := scanned_scan lineStart c rest
          rw [hscan] at hne
          rw [lexFrom_cons hscan] at h
          exact absurd (List.cons.inj h).1 hne.ne_eof

theorem IsName.isWord {text : String} (h : IsName text) : IsWord text .identifier := by
  unfold IsName lex at h
  cases hchars : text.toList with
  | nil =>
      rw [hchars, lexFrom] at h
      cases h
  | cons c rest =>
      have htext : text = String.ofList (c :: rest) := by rw [← hchars, String.ofList_toList]
      cases hscan : scan true c rest with
      | mk k n =>
          rw [hchars, lexFrom_cons hscan] at h
          obtain ⟨hkind, hrest⟩ := List.cons.inj h
          obtain rfl : k = .identifier := hkind
          replace hrest := eq_nil_of_lexFrom hrest
          rcases opens_of_scan_word (.inl rfl) hscan with hc | ⟨d, more, rfl, rfl, hd⟩
          · rw [scan_plain hc] at hscan
            obtain ⟨hkind, rfl⟩ := Prod.mk.inj hscan
            have hword := IsWord.plain htext hc (all_of_drop_runLength hrest)
            rw [List.take_of_length_le (List.drop_eq_nil_iff.mp hrest), ← htext] at hkind
            rwa [hkind] at hword
          · rw [scan_verbatim hd] at hscan
            obtain ⟨-, rfl⟩ := Prod.mk.inj hscan
            exact .verbatim htext hd (all_of_drop_runLength hrest)

theorem IsWord.kind_eq {text : String} {k : Kind} (h : IsWord text k) :
    k = .identifier ∨ k.isKeyword = true := by
  cases h with
  | verbatim => exact .inl rfl
  | plain => exact ofKeyword?_getD text

/-! ## Marks -/

/-- The marks that types are written with. -/
def marks : List (List Char × Kind) := [
  (['<'], .less), (['>'], .greater), ([','], .comma), (['.'], .dot), (['?'], .question),
  (['['], .lBracket), ([']'], .rBracket), ([':', ':'], .colonColon)]

/-- The texts that types are written with. -/
inductive IsPiece : Kind → String → Prop
  | word {k : Kind} {text : String} (h : IsWord text k) : IsPiece k text
  | space : IsPiece .whitespace " "
  | mark {k : Kind} {text : String} (h : (text.toList, k) ∈ marks) : IsPiece k text

/-- A character would not join a token of a kind that it follows. -/
def endsBefore (k : Kind) (next : Char) : Bool :=
  match k with
  | .whitespace => !isBlank next
  | .less => next != '<' && next != '='
  | .greater => next != '='
  | .dot => !next.isDigit
  | .question => next != '?' && next != '.'
  | .comma | .lBracket | .rBracket | .colonColon => true
  | _ => !continuesIdentifier next

theorem endsBefore_word {k : Kind} (hk : k = .identifier ∨ k.isKeyword = true) {c : Char} :
    endsBefore k c = !continuesIdentifier c := by
  unfold endsBefore
  split
  case h_10 => rfl
  all_goals exact absurd hk (by decide)

/-- No operator is a beginning of one that is listed behind it. -/
theorem pairwise_operators : operators.Pairwise fun a b => ¬a.1 <+: b.1 := by decide

/-- An operator is what a scan finds if what follows goes on with no longer one. -/
theorem scanOperator_of_mem {text : List Char} {k : Kind} (hmem : (text, k) ∈ operators)
    (hkind : k ≠ .questionDot) {rest : List Char}
    (hjoins : ∀ entry ∈ operators, text <+: entry.1 → entry.1 ≠ text →
      entry.1[text.length]? ≠ rest.head?) :
    scanOperator (text ++ rest) = (k, text.length - 1) := by
  have hfits : (text.isPrefixOf (text ++ rest) && !(k == .questionDot && digitAt 2 (text ++ rest)))
      = true := by
    simp [List.isPrefixOf_iff_prefix, hkind]
  unfold scanOperator
  simp only
  cases hfind : operators.find? _ with
  | none => exact absurd hfits (List.find?_eq_none.mp hfind _ hmem)
  | some entry =>
      obtain ⟨hentry, before, after, hsplit, hbefore⟩ := List.find?_eq_some_iff_append.mp hfind
      simp only [Bool.and_eq_true, List.isPrefixOf_iff_prefix] at hentry
      have hequal : entry = (text, k) := by
        rw [hsplit] at hmem
        rcases List.mem_append.mp hmem with hmem | hmem
        · have hnot := hbefore _ hmem
          rw [hfits] at hnot
          cases hnot
        rcases List.mem_cons.mp hmem with heq | hmem
        · exact heq.symm
        have hnot : ¬entry.1 <+: text := by
          have hpairs := pairwise_operators
          rw [hsplit, List.pairwise_append] at hpairs
          exact (List.pairwise_cons.mp hpairs.2.1).1 _ hmem
        -- The entry is longer, so it goes on with what follows.
        have hlonger : text <+: entry.1 :=
          (List.prefix_or_prefix_of_prefix hentry.1 (List.prefix_append _ _)).resolve_left hnot
        have hentry_mem : entry ∈ operators := hsplit ▸ List.mem_append_right _ List.mem_cons_self
        have hne : entry.1 ≠ text := fun heq => hnot (heq ▸ List.prefix_refl _)
        have hlength : text.length < entry.1.length :=
          Nat.lt_of_le_of_ne hlonger.length_le fun heq => hne (hlonger.eq_of_length heq).symm
        obtain ⟨more, hmore⟩ := hentry.1
        have hget : entry.1[text.length]? = (text ++ rest)[text.length]? := by
          rw [← hmore, List.getElem?_append_left hlength]
        rw [List.getElem?_append_right (Nat.le_refl _), Nat.sub_self,
          ← List.head?_eq_getElem?] at hget
        exact absurd hget (hjoins entry hentry_mem hlonger hne)
      rw [hequal]

/-- A longer operator goes on from a mark with a character that would join the mark. -/
theorem joins_of_mark : ∀ mark ∈ marks, mark ∈ operators ∧ mark.2 ≠ .questionDot ∧
    ∀ entry ∈ operators, mark.1 <+: entry.1 → entry.1 ≠ mark.1 →
      ((entry.1[mark.1.length]?).any fun d => !endsBefore mark.2 d) = true := by decide

theorem scanOperator_mark {text : List Char} {k : Kind} (hmark : (text, k) ∈ marks)
    {rest : List Char} (hrest : ∀ d ∈ rest.head?, endsBefore k d = true) :
    scanOperator (text ++ rest) = (k, text.length - 1) := by
  obtain ⟨hmem, hkind, hjoins⟩ := joins_of_mark _ hmark
  refine scanOperator_of_mem hmem hkind fun entry hentry hlonger hne hnext => ?_
  obtain ⟨d, hd, hends⟩ := (Option.any_eq_true _ _).mp (hjoins entry hentry hlonger hne)
  rw [hrest d (hnext ▸ hd)] at hends
  cases hends

/-- Characters that only operators open with. -/
theorem scan_mark {c : Char} (hc : c ∈ ['<', '>', ',', '.', '?', '[', ']', ':', '*', '/', '%', '+',
    '-', '=', '!', '&', '^', '|', '(', ')', ';']) (lineStart : Bool) {rest : List Char}
    (hslash : c = '/' → scanComment rest = none) (hdigit : c = '.' → digitAt 0 rest = false) :
    scan lineStart c rest = scanOperator (c :: rest) := by
  have hmarks : (['<', '>', ',', '.', '?', '[', ']', ':', '*', '/', '%', '+', '-', '=', '!', '&',
      '^', '|', '(', ')', ';'].all fun c => !isBlank c && !opensIdentifier c && !c.isDigit &&
        !(['#', '@', '$', '\x22', '\x27'].contains c)) = true := by decide +kernel
  simp only [List.all_eq_true, Bool.and_eq_true, Bool.not_eq_true'] at hmarks
  obtain ⟨⟨⟨hblank, hopens⟩, hdigits⟩, hother⟩ := hmarks c hc
  have hnot : c ∉ ['#', '@', '$', '\x22', '\x27'] := by
    rwa [← List.contains_iff_mem, Bool.not_eq_true]
  simp only [List.mem_cons, List.not_mem_nil, or_false, not_or] at hnot
  have hpoint : (c == '.' && digitAt 0 rest) = false := by
    cases hdot : c == '.' with
    | false => rfl
    | true => exact hdigit (beq_iff_eq.mp hdot)
  have hcomment : (if c = '/' then scanComment rest else none) = none := by
    split
    · next heq => exact hslash heq
    · rfl
  simp [scan, hblank, hopens, hdigits, hnot, hpoint, hcomment]

/-- A token is cut off the front of its text and what follows. -/
def CutsOff (k : Kind) (text : String) (rest : List Char) : Prop :=
  ∀ lineStart, ∃ c cs, text = String.ofList (c :: cs) ∧
    scan lineStart c (cs ++ rest) = (k, cs.length)

/-- Where a token ends before what follows, it is what a scan finds. -/
theorem IsPiece.cutsOff {k : Kind} {text : String} (h : IsPiece k text) {rest : List Char}
    (hrest : ∀ c ∈ rest.head?, endsBefore k c = true) : CutsOff k text rest := by
  intro lineStart
  cases h with
  | word h =>
      have hends : ∀ c ∈ rest.head?, continuesIdentifier c = false := by
        intro c hc
        have hword := hrest c hc
        rw [endsBefore_word h.kind_eq] at hword
        simpa using hword
      cases h with
      | @plain c cs htext hc hcs =>
          have hrun := runLength_append hcs hends
          refine ⟨c, cs, htext, ?_⟩
          rw [scan_plain hc, hrun, List.take_left, ← htext]
      | @verbatim c cs htext hc hcs =>
          refine ⟨'@', c :: cs, htext, ?_⟩
          rw [List.cons_append, scan_verbatim hc, runLength_append hcs hends, List.length_cons]
  | space =>
      refine ⟨' ', [], rfl, ?_⟩
      have hblank : isBlank ' ' = true := by decide +kernel
      have hrun : runLength isBlank ([] ++ rest) = 0 :=
        runLength_append nofun fun c hc => by simpa [endsBefore] using hrest c hc
      rw [List.nil_append] at hrun
      simp [Token.scan, hblank, hrun]
  | @mark k text h =>
      have hopens : ∀ mark ∈ marks, (mark.1.head?.any fun c =>
          ['<', '>', ',', '.', '?', '[', ']', ':'].contains c) = true ∧
          (mark.1.head? = some '.' → mark = (['.'], .dot)) := by decide
      have hscan := scanOperator_mark h hrest
      obtain ⟨hhead, hdot⟩ := hopens _ h
      cases hchars : text.toList with
      | nil => simp [hchars] at hhead
      | cons c cs =>
          rw [hchars] at hscan hhead hdot
          refine ⟨c, cs, by rw [← hchars, String.ofList_toList], ?_⟩
          have hc : c ∈ ['<', '>', ',', '.', '?', '[', ']', ':'] :=
            List.contains_iff_mem.mp (by simpa using hhead)
          rw [scan_mark (List.mem_append_left _ hc)]
          · simpa using hscan
          · rintro rfl
            exact absurd hc (by decide)
          · rintro rfl
            obtain ⟨hcs, rfl⟩ := Prod.mk.inj (hdot rfl)
            obtain rfl : cs = [] := (List.cons.inj hcs).2
            cases rest with
            | nil => rfl
            | cons d rest => simpa [digitAt, endsBefore] using hrest d rfl

/-! ## Pieces in a row -/

/-- A token does not join the one behind it. -/
def Apart (a b : Kind × String) : Prop := ∀ c ∈ b.2.toList.head?, endsBefore a.1 c = true

/-- Pieces that stand apart, each from the next one. -/
structure Legible (ls : List (Kind × String)) : Prop where
  pieces : ∀ l ∈ ls, IsPiece l.1 l.2
  apart : ls.IsChain Apart

theorem IsPiece.ne_empty {k : Kind} {text : String} (h : IsPiece k text) : text.toList ≠ [] := by
  have hmarks : ∀ mark ∈ marks, mark.1 ≠ [] := by decide
  cases h with
  | word h => cases h with
    | plain htext => simp [htext]
    | verbatim htext => simp [htext]
  | space => decide
  | mark h => exact hmarks _ h

/-- The characters of tokens in a row. -/
def chars (ls : List (Kind × String)) : List Char := ls.flatMap fun l => l.2.toList

@[simp] theorem chars_cons (l : Kind × String) (ls : List (Kind × String)) :
    chars (l :: ls) = l.2.toList ++ chars ls := List.flatMap_cons

/-- Each token of a row is cut off where those behind it follow. -/
def Separable : List (Kind × String) → Prop
  | [] => True
  | l :: ls => CutsOff l.1 l.2 (chars ls) ∧ Separable ls

theorem Legible.separable {ls : List (Kind × String)} (h : Legible ls) : Separable ls := by
  induction ls with
  | nil => trivial
  | cons l ls ih =>
      have hends : ∀ c ∈ (chars ls).head?, endsBefore l.1 c = true := by
        intro c hc
        cases ls with
        | nil => cases hc
        | cons next ls =>
            have hapart : Apart l next := (List.isChain_cons_cons.mp h.apart).1
            rw [chars_cons, List.head?_append_of_ne_nil _
              (h.pieces next (List.mem_cons_of_mem _ List.mem_cons_self)).ne_empty] at hc
            exact hapart c hc
      exact ⟨(h.pieces l List.mem_cons_self).cutsOff hends,
        ih ⟨fun l hl => h.pieces l (List.mem_cons_of_mem _ hl), h.apart.of_cons⟩⟩

/-- Each token of a row is what a scan finds, where the row starts on a line as the first
argument says and the last one follows it. -/
def Scans : Bool → List (Kind × String) → List Char → Prop
  | _, [], _ => True
  | lineStart, l :: ls, rest =>
    (∃ c cs, l.2 = String.ofList (c :: cs) ∧
      scan lineStart c (cs ++ (chars ls ++ rest)) = (l.1, cs.length)) ∧
    Scans (lineStartAfter lineStart l.1 l.2.toList) ls rest

theorem Separable.scans {ls : List (Kind × String)} (h : Separable ls) (lineStart : Bool) :
    Scans lineStart ls [] := by
  induction ls generalizing lineStart with
  | nil => trivial
  | cons l ls ih =>
      refine ⟨?_, ih h.2 _⟩
      rw [List.append_nil]
      exact h.1 lineStart

/-- Tokens that are found in a row are read back from it. -/
theorem map_leaf_lexFrom {lineStart : Bool} {ls : List (Kind × String)}
    (h : Scans lineStart ls []) (start : Nat) :
    (lexFrom lineStart start (chars ls)).map Token.leaf = ls ++ [(.eof, "")] := by
  induction ls generalizing lineStart start with
  | nil =>
      rw [chars, List.flatMap_nil, lexFrom]
      rfl
  | cons l ls ih =>
      obtain ⟨⟨c, cs, htext, hscan⟩, hmore⟩ := h
      have hchars : l.2.toList = c :: cs := by rw [htext, String.toList_ofList]
      rw [List.append_nil] at hscan
      rw [hchars] at hmore
      rw [chars_cons, hchars, List.cons_append, lexFrom_cons hscan, List.take_left,
        List.drop_left, List.map_cons, ih hmore, ← htext]
      rfl

theorem map_leaf_contents {ls : List (Kind × String)} (h : Scans true ls []) {text : String}
    (htext : text = String.join (ls.map (·.2))) : (contents text).map Token.leaf = ls := by
  obtain ⟨last, hlex, -⟩ := lex_eq_contents text
  have hchars : text.toList = chars ls := by
    rw [htext, String.toList_join, List.flatMap_map, chars]
  have hleaves := map_leaf_lexFrom h 0
  rw [← hchars, ← lex, hlex, List.map_append, List.map_singleton] at hleaves
  exact List.append_inj_left' hleaves rfl

/-! ## Kinds in a row -/

/-- Kinds of tokens that may follow each other with nothing between them. -/
def follows (k next : Kind) : Bool :=
  match k with
  | .whitespace => next != .whitespace
  | .less => next != .less
  | .question => next != .question && next != .dot
  | .greater | .dot | .comma | .lBracket | .rBracket | .colonColon => true
  | _ => !(next == .identifier || next.isKeyword)

theorem opensIdentifier_digit {c : Char} (h : c.isDigit = true) : opensIdentifier c = false := by
  have hunderscore : c ≠ '_' := by rintro rfl; exact absurd h (by decide)
  have hdigit : CharRanges.contains [(0x30, 0x39)] c = true := by
    simp only [Char.isDigit, Bool.and_eq_true, decide_eq_true_eq] at h
    exact CharRanges.contains_iff.mpr ⟨_, List.mem_singleton_self _, h⟩
  have hapart : CharRanges.apart [(0x30, 0x39)] alphabeticRanges = true := by decide +kernel
  have hnot := CharRanges.not_contains_of_apart hapart hdigit
  simpa [opensIdentifier, isAlphabetic, hunderscore] using hnot

/-- No word opens with a character that would join a mark or a blank. -/
theorem IsWord.endsBefore {text : String} {k : Kind} (h : IsWord text k) {c : Char}
    (hc : c ∈ text.toList.head?) : endsBefore .whitespace c = true ∧
      ∀ mark ∈ marks, Token.endsBefore mark.2 c = true := by
  have hopens : c = '@' ∨ opensIdentifier c = true := by
    cases h with
    | plain htext hopens =>
        rw [htext, String.toList_ofList, List.head?_cons, Option.mem_some_iff] at hc
        exact .inr (hc ▸ hopens)
    | verbatim htext =>
        rw [htext, String.toList_ofList, List.head?_cons, Option.mem_some_iff] at hc
        exact .inl hc.symm
  rcases hopens with rfl | hopens
  · exact ⟨by decide +kernel, by decide⟩
  · have hblank := not_opensTrivia_of_opens hopens
    simp only [opensTrivia, Bool.or_eq_false_iff] at hblank
    have hdigit : c.isDigit = false := by
      cases hd : c.isDigit with
      | false => rfl
      | true => rw [opensIdentifier_digit hd] at hopens; cases hopens
    have hmarks : (['<', '=', '?', '.'].all fun d => !opensIdentifier d) = true := by
      decide +kernel
    have hne : ∀ d ∈ ['<', '=', '?', '.'], c ≠ d := by
      rintro d hd rfl
      have hnot := List.all_eq_true.mp hmarks c hd
      rw [hopens] at hnot
      cases hnot
    simp only [List.forall_mem_cons, List.not_mem_nil, false_implies, implies_true, and_true] at hne
    refine ⟨by simp [Token.endsBefore, hblank], fun mark hmark => ?_⟩
    simp only [marks, List.mem_cons, List.not_mem_nil, or_false] at hmark
    rcases hmark with rfl | rfl | rfl | rfl | rfl | rfl | rfl | rfl <;>
      simp [Token.endsBefore, hne, hdigit]

theorem follows_word {k next : Kind} (hk : k = .identifier ∨ k.isKeyword = true) :
    follows k next = !(next == .identifier || next.isKeyword) := by
  unfold follows
  split
  case h_10 => rfl
  all_goals exact absurd hk (by decide)

/-- Marks and blanks that may follow each other stand apart. -/
theorem endsBefore_of_mark : ∀ mark ∈ marks, endsBefore mark.2 ' ' = true ∧
    ∀ next ∈ marks, ∀ c ∈ next.1.head?, endsBefore .whitespace c = true ∧
      continuesIdentifier c = false ∧
      (follows mark.2 next.2 = true → endsBefore mark.2 c = true) := by
  have hmarks : (marks.all fun mark => endsBefore mark.2 ' ' && marks.all fun next =>
      next.1.head?.all fun c => endsBefore .whitespace c && !continuesIdentifier c &&
        (!follows mark.2 next.2 || endsBefore mark.2 c)) = true := by decide +kernel
  simp only [List.all_eq_true, Bool.and_eq_true] at hmarks
  intro mark hmark
  refine ⟨(hmarks mark hmark).1, fun next hnext c hc => ?_⟩
  have hall := (hmarks mark hmark).2 next hnext
  rw [Option.mem_def.mp hc, Option.all_some] at hall
  simp only [Bool.and_eq_true, Bool.not_eq_true', Bool.or_eq_true] at hall
  refine ⟨hall.1.1, hall.1.2, fun hfollows => hall.2.resolve_left ?_⟩
  simp [hfollows]

theorem apart_of_follows {a b : Kind × String} (ha : IsPiece a.1 a.2) (hb : IsPiece b.1 b.2)
    (h : follows a.1 b.1 = true) : Apart a b := by
  obtain ⟨k, text⟩ := a
  obtain ⟨next, more⟩ := b
  intro c hc
  have hless : (['<'], .less) ∈ marks := List.mem_cons_self
  cases ha with
  | word hword =>
      rw [follows_word hword.kind_eq] at h
      rw [endsBefore_word hword.kind_eq]
      cases hb with
      | word hnext =>
          have hk : next = .identifier ∨ next.isKeyword = true := hnext.kind_eq
          rcases hk with rfl | hk
          · cases h
          · simp [hk] at h
      | space =>
          obtain rfl : c = ' ' := (Option.some.inj hc).symm
          decide +kernel
      | mark hmark =>
          have hends := (endsBefore_of_mark _ hless).2 _ hmark c hc
          rw [hends.2.1, Bool.not_false]
  | space =>
      cases hb with
      | word hnext => exact (hnext.endsBefore hc).1
      | space => cases h
      | mark hmark => exact ((endsBefore_of_mark _ hless).2 _ hmark c hc).1
  | mark hmark =>
      cases hb with
      | word hnext => exact (hnext.endsBefore hc).2 _ hmark
      | space =>
          obtain rfl : c = ' ' := (Option.some.inj hc).symm
          exact (endsBefore_of_mark _ hmark).1
      | mark hnext => exact ((endsBefore_of_mark _ hmark).2 _ hnext c hc).2.2 h

/-- Pieces stand apart if their kinds may follow each other. -/
theorem legible_of_follows {ls : List (Kind × String)} (hpieces : ∀ l ∈ ls, IsPiece l.1 l.2)
    (h : ls.IsChain fun a b => follows a.1 b.1 = true) : Legible ls := by
  refine ⟨hpieces, ?_⟩
  induction ls with
  | nil => exact .nil
  | cons l ls ih =>
      obtain ⟨hhead, htail⟩ := List.isChain_cons.mp h
      refine List.isChain_cons.mpr ⟨fun next hnext => ?_, ih (fun l hl =>
        hpieces l (List.mem_cons_of_mem _ hl)) htail⟩
      exact apart_of_follows (hpieces l List.mem_cons_self)
        (hpieces next (List.mem_cons_of_mem _ (List.mem_of_mem_head? hnext))) (hhead next hnext)

end Syntax.Token

end CSharpKit
