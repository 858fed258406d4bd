import CSharpKit.Proofs.Syntax.Tiling
import CSharpKit.Proofs.Text.Patches
import Mathlib.Data.List.DropRight

/-!
# Directives at the starts of lines

A `#` opens a directive where only blanks stand before it on its line. The reader does
not look back for that: it keeps a mark, which only blanks set and every other token
takes away. The mark agrees with the text, since a token that is no blank either shows
on the last of its lines or leaves a line break to the next one. An interpolated string
that is not closed is the exception: it takes the line break that ends it.
-/

namespace CSharpKit.Text

/-! ## Blank lines -/

/-- The characters behind the last line break of a text. -/
def lastLine (cs : List Char) : List Char := cs.rtakeWhile (!isLineBreak ·)

/-- Only blanks stand behind the last line break of a text. -/
def OnBlankLine (cs : List Char) : Prop := ∀ c ∈ lastLine cs, isBlank c = true

theorem isBlank_of_isLineBreak {c : Char} (h : isLineBreak c = true) : isBlank c = true := by
  simp only [isLineBreak, Bool.or_eq_true, beq_iff_eq] at h
  rcases h with rfl | rfl <;> decide

theorem onBlankLine_nil : OnBlankLine [] := by simp [OnBlankLine, lastLine]

theorem onBlankLine_concat {cs : List Char} {c : Char} :
    OnBlankLine (cs ++ [c]) ↔ isLineBreak c = true ∨ OnBlankLine cs ∧ isBlank c = true := by
  unfold OnBlankLine lastLine
  cases hbreak : isLineBreak c with
  | true => simp [hbreak]
  | false =>
      simp only [List.rtakeWhile_concat, hbreak, Bool.not_false, if_true, List.mem_append,
        List.mem_singleton, Bool.false_eq_true, false_or]
      constructor
      · exact fun h => ⟨fun d hd => h d (.inl hd), h c (.inr rfl)⟩
      · rintro ⟨hcs, hc⟩ d (hd | rfl)
        · exact hcs d hd
        · exact hc

/-- Behind blanks a line is blank if they hold a line break, or if it was. -/
theorem onBlankLine_append_blank {cs ds : List Char} (hds : ∀ d ∈ ds, isBlank d = true) :
    OnBlankLine (cs ++ ds) ↔ ds.any isLineBreak = true ∨ OnBlankLine cs := by
  induction ds using List.reverseRecOn with
  | nil => simp
  | append_singleton ds d ih =>
      have hd := hds d (List.mem_append_right _ (List.mem_singleton_self d))
      rw [← List.append_assoc, onBlankLine_concat,
        ih fun e he => hds e (List.mem_append_left _ he)]
      simp only [hd, and_true, List.any_append, List.any_cons, List.any_nil, Bool.or_false,
        Bool.or_eq_true]
      tauto

/-- Behind characters of one line the line is blank if they are, and if it was. -/
theorem onBlankLine_append_line {cs ds : List Char} (hds : ∀ d ∈ ds, isLineBreak d = false) :
    OnBlankLine (cs ++ ds) ↔ OnBlankLine cs ∧ ∀ d ∈ ds, isBlank d = true := by
  induction ds using List.reverseRecOn with
  | nil => simp
  | append_singleton ds d ih =>
      have hd := hds d (List.mem_append_right _ (List.mem_singleton_self d))
      rw [← List.append_assoc, onBlankLine_concat,
        ih fun e he => hds e (List.mem_append_left _ he)]
      simp only [hd, Bool.false_eq_true, false_or, List.forall_mem_append, List.forall_mem_singleton,
        and_assoc]

/-- The characters before a position are those in front of it. -/
theorem charsBefore_append (before after : List Char) :
    charsBefore (byteLength before) (before ++ after) = before := by
  induction before with
  | nil =>
      cases after with
      | nil => rfl
      | cons c after =>
          have hpos := c.utf8Size_pos
          rw [List.nil_append, charsBefore, byteLength, if_neg (by omega)]
  | cons c before ih =>
      rw [List.cons_append, charsBefore, byteLength, if_pos (by omega), Nat.add_sub_cancel_left, ih]

end CSharpKit.Text

namespace CSharpKit.Syntax.Token

open Text

/-! ## How tokens end -/

/-- An interpolated string that the end of its line closes, and not a quote. -/
def IsCutOff (t : Token) : Prop :=
  t.kind = .stringLiteral ∧ t.text.toList.head? = some '$' ∧ t.text.toList.getLast? = some '\n'

instance (t : Token) : Decidable (IsCutOff t) := inferInstanceAs (Decidable (_ ∧ _ ∧ _))

/-- Characters of which one shows on the last of their lines. -/
def Shows (cs : List Char) : Prop :=
  ∃ before c behind, cs = before ++ c :: behind ∧ isBlank c = false ∧
    ∀ d ∈ behind, isLineBreak d = false

/-- What is left is nothing, or the next line. -/
def AtLineEnd (cs : List Char) : Prop := ∀ c ∈ cs.head?, isLineBreak c = true

/-- How a token ends that is read off the front of a text and is no blank. -/
inductive Ends (c : Char) (rest : List Char) : Extent → Prop
  | line {kind : Kind} {n : Nat} (h : AtLineEnd (rest.drop n)) : Ends c rest (kind, n)
  | shown {kind : Kind} {n : Nat} (h : Shows (c :: rest.take n)) : Ends c rest (kind, n)
  | cutOff {n : Nat} (hc : c = '$') (h : (rest.take n).getLast? = some '\n') :
      Ends c rest (.stringLiteral, n)

theorem Shows.of_last {cs : List Char} {c : Char} (h : cs.getLast? = some c)
    (hc : isBlank c = false) : Shows cs := by
  obtain ⟨before, rfl⟩ := List.getLast?_eq_some_iff.mp h
  exact ⟨before, c, [], rfl, hc, List.forall_mem_nil _⟩

theorem Shows.of_line {c : Char} {cs : List Char} (hc : isBlank c = false)
    (hcs : ∀ d ∈ cs, isLineBreak d = false) : Shows (c :: cs) :=
  ⟨[], c, cs, rfl, hc, hcs⟩

theorem not_onBlankLine_of_shows {before cs : List Char} (h : Shows cs) :
    ¬OnBlankLine (before ++ cs) := by
  obtain ⟨front, c, behind, rfl, hc, hbehind⟩ := h
  have hline : ∀ d ∈ c :: behind, isLineBreak d = false := by
    refine List.forall_mem_cons.mpr ⟨?_, hbehind⟩
    exact Bool.eq_false_iff.mpr fun hbreak => by simp [isBlank_of_isLineBreak hbreak] at hc
  rw [← List.append_assoc, onBlankLine_append_line hline]
  rintro ⟨-, hblank⟩
  simp [hblank c List.mem_cons_self] at hc

section

variable {c : Char} {rest : List Char}

theorem head?_drop_runLength (p : Char → Bool) (cs : List Char) :
    ∀ d ∈ (cs.drop (runLength p cs)).head?, p d = false := by
  induction cs with
  | nil => simp
  | cons c cs ih =>
      rw [runLength]
      split
      · simpa using ih
      · next hc => simpa using hc

theorem commentTail_ends (cs : List Char) : cs.drop (commentTail cs) = [] ∨
    (cs.take (commentTail cs)).getLast? = some '/' := by
  fun_induction commentTail cs with
  | case1 => exact .inl rfl
  | case2 => exact .inr rfl
  | case3 c rest hrest ih =>
      rcases ih with ih | ih
      · exact .inl (by simpa using ih)
      · exact .inr (by simp [List.getLast?_cons, ih])

theorem quotedTail_ends (quote : Char) (escaped : Bool) (cs : List Char) :
    AtLineEnd (cs.drop (quotedTail quote escaped cs)) ∨
      (cs.take (quotedTail quote escaped cs)).getLast? = some quote := by
  fun_induction quotedTail quote escaped cs with
  | case1 => exact .inl (by simp [AtLineEnd])
  | case2 c rest ih =>
      rcases ih with ih | ih
      · exact .inl (by simpa using ih)
      · exact .inr (by simp [List.getLast?_cons, ih])
  | case3 _ c rest _ hbreak => exact .inl (by simpa [AtLineEnd] using hbreak)
  | case4 _ c rest _ _ hquote => exact .inr (by simpa using hquote)
  | case5 _ c rest _ _ _ ih =>
      rcases ih with ih | ih
      · exact .inl (by simpa using ih)
      · exact .inr (by simp [List.getLast?_cons, ih])

/-- A marked string ends at a quote, or at the end of the text. Only one that is not
verbatim may take a line break instead. -/
theorem stringTail_ends (style : StringStyle) (depth : Nat) (taken : Bool) (cs : List Char) :
    cs.drop (stringTail style depth taken cs) = [] ∨
      (cs.take (stringTail style depth taken cs)).getLast? = some '\x22' ∨
      style.verbatim = false ∧
        (cs.take (stringTail style depth taken cs)).getLast? = some '\n' := by
  have more {c : Char} {rest : List Char} {n : Nat} (h : rest.drop n = [] ∨
      (rest.take n).getLast? = some '\x22' ∨
      style.verbatim = false ∧ (rest.take n).getLast? = some '\n') :
      (c :: rest).drop (n + 1) = [] ∨ ((c :: rest).take (n + 1)).getLast? = some '\x22' ∨
      style.verbatim = false ∧ ((c :: rest).take (n + 1)).getLast? = some '\n' := by
    rcases h with h | h | ⟨hverbatim, h⟩
    · exact .inl (by simpa using h)
    · exact .inr (.inl (by simp [List.getLast?_cons, h]))
    · exact .inr (.inr ⟨hverbatim, by simp [List.getLast?_cons, h]⟩)
  fun_induction stringTail style depth taken cs with
  | case1 => exact .inl rfl
  | case8 depth _ c rest _ _ _ _ hquote _ =>
      obtain ⟨rfl, -⟩ : c = '\x22' ∧ depth = 0 := by simpa using hquote
      exact .inr (.inl rfl)
  | case9 depth _ c rest _ _ _ _ _ hbreak =>
      obtain ⟨⟨rfl, hverbatim⟩, -⟩ : (c = '\n' ∧ style.verbatim = false) ∧ depth = 0 := by
        simpa using hbreak
      exact .inr (.inr ⟨hverbatim, rfl⟩)
  | _ => exact more ‹_›

/-! ### Numbers -/

/-- The first characters of a text stand on one line. -/
def OnOneLine (n : Nat) (cs : List Char) : Prop := ∀ d ∈ cs.take n, isLineBreak d = false

theorem OnOneLine.add {m n : Nat} {cs : List Char} (hm : OnOneLine m cs)
    (hn : OnOneLine n (cs.drop m)) : OnOneLine (m + n) cs := by
  intro d hd
  rw [List.take_add, List.mem_append] at hd
  exact hd.elim (hm d) (hn d)

theorem OnOneLine.tail {n : Nat} (h : OnOneLine n (c :: rest)) : OnOneLine (n - 1) rest := by
  cases n with
  | zero => simp [OnOneLine]
  | succ n => exact fun d hd => h d (List.mem_cons_of_mem _ hd)

theorem onOneLine_cons {n : Nat} (hc : isLineBreak c = false) (h : OnOneLine n rest) :
    OnOneLine (n + 1) (c :: rest) := by
  rw [OnOneLine, List.take_succ_cons]
  exact List.forall_mem_cons.mpr ⟨hc, h⟩

/-- A run of characters that are no line breaks. -/
theorem onOneLine_run {p : Char → Bool} (hline : p '\n' = false) (hreturn : p '\r' = false)
    (cs : List Char) : OnOneLine (runLength p cs) cs := by
  intro d hd
  have hp := of_mem_take_runLength hd
  refine Bool.eq_false_iff.mpr fun hbreak => ?_
  simp only [isLineBreak, Bool.or_eq_true, beq_iff_eq] at hbreak
  rcases hbreak with rfl | rfl
  · simp [hline] at hp
  · simp [hreturn] at hp

theorem onOneLine_fraction (cs : List Char) : OnOneLine (fractionLength cs) cs := by
  unfold fractionLength
  split
  · split
    · exact onOneLine_cons rfl (onOneLine_run rfl rfl _)
    · simp [OnOneLine]
  · simp [OnOneLine]

theorem onOneLine_exponent (cs : List Char) : OnOneLine (exponentLength cs) cs := by
  unfold exponentLength
  split
  case h_1 c rest =>
    split
    · next hc =>
      have hletter : isLineBreak c = false := by
        simp only [Bool.or_eq_true, beq_iff_eq] at hc
        rcases hc with rfl | rfl <;> rfl
      dsimp only
      generalize hlength : (if (rest[0]?).any (fun d => d == '+' || d == '-') then 1 else 0) = sign
      have hsign : OnOneLine sign rest := by
        obtain rfl := hlength
        split
        · next hsign =>
          obtain ⟨d, hd, hsign⟩ := (Option.any_eq_true _ _).mp hsign
          cases rest with
          | nil => cases hd
          | cons e rest =>
              obtain rfl : e = d := Option.some.inj hd
              simp only [Bool.or_eq_true, beq_iff_eq] at hsign
              rcases hsign with rfl | rfl <;> exact onOneLine_cons rfl (by simp [OnOneLine])
        · simp [OnOneLine]
      split
      · rw [Nat.add_comm (runLength _ _)]
        exact onOneLine_cons hletter (hsign.add (onOneLine_run rfl rfl _))
      · simp [OnOneLine]
    · simp [OnOneLine]
  case h_2 => simp [OnOneLine]

theorem onOneLine_suffix (cs : List Char) : OnOneLine (numberSuffix cs).2 cs := by
  unfold numberSuffix
  split
  · simp [OnOneLine]
  · next c rest =>
    split
    · next hc =>
      -- `all`, since `∀ d ∈ ..` could be decided by going through every character
      have hletters : ("fFdDmM".toList.all fun d => isLineBreak d == false) = true := by decide
      have hbreak := List.all_eq_true.mp hletters c (List.contains_iff_mem.mp hc)
      exact onOneLine_cons (beq_iff_eq.mp hbreak) (by simp [OnOneLine])
    · exact onOneLine_run (by decide) (by decide) _

theorem onOneLine_number (c : Char) (rest : List Char) :
    OnOneLine (scanNumber (c :: rest)).2 rest := by
  have prefixed {p : Char → Bool} {a b : Char} {more : List Char} (ha : isLineBreak a = false)
      (hb : isLineBreak b = false) (hline : p '\n' = false) (hreturn : p '\r' = false) :
      OnOneLine (runLength p more + 2) (a :: b :: more) :=
    onOneLine_cons ha (onOneLine_cons hb (onOneLine_run hline hreturn more))
  unfold scanNumber
  refine OnOneLine.tail (.add ?_ (onOneLine_suffix _))
  split
  case h_5 =>
    exact ((onOneLine_run rfl rfl _).add (onOneLine_fraction _)).add (onOneLine_exponent _)
  all_goals
    next heq =>
    rw [heq]
    exact prefixed rfl rfl rfl rfl

/-! ### All tokens -/

theorem ends_run {p : Char → Bool} {kind : Kind} {rest : List Char}
    (hp : ∀ d, p d = false → isLineBreak d = true) : Ends c rest (kind, runLength p rest) :=
  .line fun d hd => hp d (head?_drop_runLength p rest d hd)

theorem ends_comment {extent : Extent} (h : scanComment rest = some extent) :
    Ends c rest extent := by
  have hslash : isBlank '/' = false := (not_blank_of_mark (by decide)).1
  have tail {kind : Kind} (body : List Char) :
      Ends c ('*' :: body) (kind, commentTail body + 1) := by
    rcases commentTail_ends body with hend | hlast
    · exact .line (by simp [AtLineEnd, hend])
    · exact .shown (.of_last (by simp [List.getLast?_cons, hlast]) hslash)
  unfold scanComment at h
  split at h
  case h_3 =>
    obtain rfl := Option.some.inj h
    exact .shown (.of_last rfl hslash)
  case h_6 => cases h
  all_goals
    obtain rfl := Option.some.inj h
  · exact ends_run (by simp)
  · exact ends_run (by simp)
  · exact tail _
  · exact tail _

/-- A marked string; a text that is not verbatim has the mark `$`. -/
theorem ends_string (style : StringStyle) (mark body : List Char)
    (hstyle : style.verbatim = false → c = '$') :
    Ends c (mark ++ body) (.stringLiteral, stringTail style 0 false body + mark.length) := by
  have hquote : isBlank '\x22' = false := (not_blank_of_mark (by decide)).1
  have hlast {d : Char} {n : Nat} (h : (body.take n).getLast? = some d) :
      ((mark ++ body).take (n + mark.length)).getLast? = some d := by
    rw [Nat.add_comm, List.take_length_add_append, List.getLast?_append, h, Option.some_or]
  rcases stringTail_ends style 0 false body with hend | hclosed | ⟨hverbatim, hcut⟩
  · refine .line ?_
    rw [Nat.add_comm, List.drop_length_add_append, hend]
    simp [AtLineEnd]
  · exact .shown (.of_last (by rw [List.getLast?_cons, hlast hclosed]; rfl) hquote)
  · exact .cutOff (hstyle hverbatim) (hlast hcut)

theorem not_isLineBreak_of_isWordChar {d : Char} (h : isWordChar d = true) :
    isLineBreak d = false := by
  have hnot := not_opensTrivia_of_isWordChar h
  refine Bool.eq_false_iff.mpr fun hbreak => ?_
  simp [opensTrivia, isBlank_of_isLineBreak hbreak] at hnot

theorem ends_marked (hc : isBlank c = false) : Ends c rest (scanMarked c rest) := by
  unfold scanMarked
  split
  case h_1 body => exact ends_string ⟨true, true⟩ ['@', '\x22'] body (by simp)
  case h_2 body => exact ends_string ⟨true, true⟩ ['$', '\x22'] body (by simp)
  case h_3 body => exact ends_string ⟨true, false⟩ ['\x22'] body (by simp)
  case h_4 body => exact ends_string ⟨false, true⟩ ['\x22'] body fun _ => rfl
  case h_5 d body =>
    split
    · next hd =>
      refine .shown (.of_line hc (List.forall_mem_cons.mpr ⟨?_, fun e he => ?_⟩))
      · exact not_isLineBreak_of_isWordChar (isWordChar_of_opens hd)
      · exact not_isLineBreak_of_isWordChar (isWordChar_of_continues (of_mem_take_runLength he))
    · exact .shown (.of_line hc (by simp))
  case h_6 => exact .shown (.of_line hc (by simp))

theorem ends_operator (hc : isBlank c = false) : Ends c rest (scanOperator (c :: rest)) := by
  have hoperators : ∀ entry ∈ operators,
      (entry.1.all fun d => isLineBreak d == false) = true := by decide
  unfold scanOperator
  dsimp only
  split
  · next text kind hfind =>
    have hfits := List.find?_some hfind
    simp only [Bool.and_eq_true, List.isPrefixOf_iff_prefix] at hfits
    have hline : OnOneLine text.length (c :: rest) := by
      rw [OnOneLine, ← List.prefix_iff_eq_take.mp hfits.1]
      intro d hd
      exact beq_iff_eq.mp
        (List.all_eq_true.mp (hoperators _ (List.mem_of_find?_eq_some hfind)) d hd)
    exact .shown (.of_line hc hline.tail)
  · exact .shown (.of_line hc (by simp))

/-- A token that is no blank ends in one of the three ways. -/
theorem ends_of_scan (lineStart : Bool) (hc : isBlank c = false) :
    Ends c rest (scan lineStart c rest) := by
  unfold scan
  split
  · next hblank => simp [hc] at hblank
  split
  · exact ends_run (by simp)
  split
  case h_1 extent hcomment =>
    split at hcomment
    · exact ends_comment hcomment
    · cases hcomment
  case h_2 =>
    split
    · exact ends_marked hc
    split
    · exact .shown (.of_line hc fun d hd =>
        not_isLineBreak_of_isWordChar (isWordChar_of_continues (of_mem_take_runLength hd)))
    split
    · exact .shown (.of_line hc (onOneLine_number c rest))
    have quoted {kind : Kind} : Ends c rest (kind, quotedTail c false rest) := by
      rcases quotedTail_ends c false rest with hline | hlast
      · exact .line hline
      · exact .shown (.of_last (by rw [List.getLast?_cons, hlast]; rfl) hc)
    split
    · exact quoted
    split
    · exact quoted
    · exact ends_operator hc

end

/-! ## Tokens in a row -/

/-- The characters of tokens in a row. -/
def charsOf (tokens : List Token) : List Char := tokens.flatMap fun t => t.text.toList

@[simp] theorem charsOf_append (xs ys : List Token) :
    charsOf (xs ++ ys) = charsOf xs ++ charsOf ys :=
  List.flatMap_append

@[simp] theorem charsOf_cons (t : Token) (ts : List Token) :
    charsOf (t :: ts) = t.text.toList ++ charsOf ts :=
  List.flatMap_cons ..

@[simp] theorem charsOf_nil : charsOf [] = [] := rfl

theorem charsOf_lexFrom (lineStart : Bool) (start : Nat) (cs : List Char) :
    charsOf (lexFrom lineStart start cs) = cs := by
  fun_induction lexFrom lineStart start cs with
  | case1 => rfl
  | case2 lineStart start c rest kind n hscan chars token ih =>
      rw [charsOf_cons, ih]
      simp [token, chars]

/-- The last line break in a row of tokens is the end of a string that it cuts off. -/
def LineCutOff (tokens : List Token) : Prop :=
  ∃ before t behind, tokens = before ++ t :: behind ∧ t.IsCutOff ∧
    ∀ c ∈ charsOf behind, isLineBreak c = false

theorem lineCutOff_concat {tokens : List Token} {t : Token} : LineCutOff (tokens ++ [t]) ↔
    t.IsCutOff ∨ LineCutOff tokens ∧ ∀ c ∈ t.text.toList, isLineBreak c = false := by
  constructor
  · rintro ⟨before, u, behind, heq, hcut, hbehind⟩
    rcases List.eq_nil_or_concat behind with rfl | ⟨behind, v, rfl⟩
    · obtain ⟨-, hlast⟩ := List.append_inj' heq rfl
      obtain rfl := List.singleton_inj.mp hlast
      exact .inl hcut
    · rw [List.concat_eq_append, charsOf_append, List.forall_mem_append] at hbehind
      rw [List.concat_eq_append, ← List.cons_append, ← List.append_assoc] at heq
      obtain ⟨rfl, hlast⟩ := List.append_inj' heq rfl
      obtain rfl := List.singleton_inj.mp hlast
      exact .inr ⟨⟨before, u, behind, rfl, hcut, hbehind.1⟩, by simpa using hbehind.2⟩
  · rintro (hcut | ⟨⟨before, u, behind, rfl, hcut, hbehind⟩, ht⟩)
    · exact ⟨tokens, t, [], rfl, hcut, List.forall_mem_nil _⟩
    · refine ⟨before, u, behind ++ [t], by simp, hcut, ?_⟩
      rw [charsOf_append, List.forall_mem_append]
      exact ⟨hbehind, by simpa using ht⟩

/-- What the mark of the reader says of the text read so far. -/
def MarksLineStart (lineStart : Bool) (read : List Token) : Prop :=
  lineStart = true ↔ OnBlankLine (charsOf read) ∧ ¬LineCutOff read

theorem isBlank_of_scan_whitespace {lineStart : Bool} {c : Char} {rest : List Char} {n : Nat}
    (h : scan lineStart c rest = (.whitespace, n)) : isBlank c = true := by
  rcases cases_of_scan_trivia rfl h with hc | ⟨rfl, rfl⟩ | ⟨-, hcomment⟩
  · exact hc
  · rw [scan_directive] at h
    cases h
  · unfold scanComment at hcomment
    split at hcomment <;> cases hcomment

/-- One token on, the mark still says whether the line is blank. Only in front of a line
break it may be wrong, where no `#` stands. -/
theorem marksLineStart_step {lineStart : Bool} {read : List Token} {c : Char} {rest : List Char}
    {kind : Kind} {n : Nat} (start : Nat) (h : scan lineStart c rest = (kind, n))
    (hmark : AtLineEnd (c :: rest) ∨ MarksLineStart lineStart read) :
    AtLineEnd (rest.drop n) ∨ MarksLineStart (lineStartAfter lineStart kind (c :: rest.take n))
      (read ++ [⟨kind, String.ofList (c :: rest.take n), start⟩]) := by
  unfold MarksLineStart
  rw [charsOf_append, charsOf_cons, charsOf_nil, List.append_nil, lineCutOff_concat,
    String.toList_ofList]
  cases hc : isBlank c with
  | true =>
      rw [scan_blank hc] at h
      obtain ⟨rfl, rfl⟩ := Prod.mk.inj h
      have hblank : ∀ d ∈ c :: rest.take (runLength isBlank rest), isBlank d = true :=
        List.forall_mem_cons.mpr ⟨hc, fun d hd => of_mem_take_runLength hd⟩
      rw [onBlankLine_append_blank hblank]
      have hcut : ¬IsCutOff
          ⟨.whitespace, String.ofList (c :: rest.take (runLength isBlank rest)), start⟩ :=
        fun hcut => Kind.noConfusion hcut.1
      refine .inr ?_
      cases hany : (c :: rest.take (runLength isBlank rest)).any isLineBreak with
      | true =>
          obtain ⟨d, hd, hbreak⟩ := List.any_eq_true.mp hany
          refine ⟨fun _ => ⟨.inl rfl, ?_⟩, fun _ => by simp [lineStartAfter, hany]⟩
          rintro (h | ⟨-, hall⟩)
          · exact hcut h
          · simp [hall d hd] at hbreak
      | false =>
          have hall : ∀ e ∈ c :: rest.take (runLength isBlank rest), isLineBreak e = false := by
            simpa [List.any_eq_false] using hany
          have hline : ¬AtLineEnd (c :: rest) := fun hend => by
            have hbreak := hend c rfl
            simp [hall c List.mem_cons_self] at hbreak
          have hbefore : MarksLineStart lineStart read := hmark.resolve_left hline
          simp only [lineStartAfter, hany, beq_self_eq_true, Bool.true_and, Bool.or_false,
            Bool.false_eq_true, false_or, hcut]
          rw [and_iff_left hall]
          exact hbefore
  | false =>
      have hkind : lineStartAfter lineStart kind (c :: rest.take n) = false := by
        cases hkind : kind == .whitespace with
        | false => simp [lineStartAfter, hkind]
        | true =>
            obtain rfl := beq_iff_eq.mp hkind
            simp [isBlank_of_scan_whitespace h] at hc
      have hends : Ends c rest (scan lineStart c rest) := ends_of_scan lineStart hc
      rw [h] at hends
      rw [hkind]
      cases hends with
      | line hline => exact .inl hline
      | shown hshown => exact .inr (by simp [not_onBlankLine_of_shows hshown])
      | cutOff hc hlast =>
          have hcut : IsCutOff ⟨.stringLiteral, String.ofList (c :: rest.take n), start⟩ :=
            ⟨rfl, by simp [hc], by simp [List.getLast?_cons, hlast]⟩
          exact .inr ⟨by simp, fun h => absurd (.inl hcut) h.2⟩

/-- At a `#` the reader asks nothing but its mark. -/
theorem isDirective_of_scan {lineStart : Bool} {rest : List Char} {kind : Kind} {n : Nat}
    (h : scan lineStart '#' rest = (kind, n)) :
    kind = .preprocessorDirective ↔ lineStart = true := by
  cases lineStart with
  | true =>
      rw [scan_directive] at h
      obtain ⟨rfl, -⟩ := Prod.mk.inj h
      simp
  | false =>
      refine ⟨?_, by simp⟩
      rintro rfl
      rcases cases_of_scan_trivia rfl h with hblank | ⟨-, hmark⟩ | ⟨hslash, -⟩
      · simp [(not_blank_of_mark (c := '#') (by decide)).1] at hblank
      · cases hmark
      · simp at hslash

/-- Reading on from a place where the mark is right, it is right at every `#`. -/
theorem directive_lexFrom (lineStart : Bool) (start : Nat) (cs : List Char) :
    ∀ read front back t, AtLineEnd cs ∨ MarksLineStart lineStart read →
      start = byteLength (charsOf read) → lexFrom lineStart start cs = front ++ t :: back →
      t.text.toList.head? = some '#' → t.start = byteLength (charsOf (read ++ front)) ∧
        (t.kind = .preprocessorDirective ↔
          OnBlankLine (charsOf (read ++ front)) ∧ ¬LineCutOff (read ++ front)) := by
  fun_induction lexFrom lineStart start cs with
  | case1 lineStart start =>
      rintro read front back t - - heq hhash
      rcases front with - | ⟨u, front⟩
      · obtain ⟨rfl, -⟩ := List.cons.inj heq
        cases hhash
      · simp at heq
  | case2 lineStart start c rest kind n hscan chars token ih =>
      rintro read front back t hmark rfl heq hhash
      rcases front with - | ⟨u, front⟩
      · obtain ⟨rfl, -⟩ := List.cons.inj heq
        obtain rfl : c = '#' := by simpa [token, chars] using hhash
        have hmark : MarksLineStart lineStart read := hmark.resolve_left fun hend => by
          have hbreak := hend '#' rfl
          simp [isLineBreak] at hbreak
        rw [List.append_nil]
        exact ⟨rfl, (isDirective_of_scan hscan).trans hmark⟩
      · obtain ⟨rfl, htail⟩ := List.cons.inj heq
        have hstep := marksLineStart_step (byteLength (charsOf read)) hscan hmark
        have hstart : token.span.stop = byteLength (charsOf (read ++ [token])) := by
          simp [token, span, Span.stop, ← byteLength_toList]
        simpa using ih (read ++ [token]) front back t hstep hstart htail hhash

/-- **Where directives open.** Whatever the text, a token that starts with `#` is a
directive if and only if only blanks stand before it on its line, behind the last line
break or the start of the text, unless that line break is the end of an interpolated
string that it cuts off. -/
theorem lex_directive (text : String) (front back : List Token) (t : Token)
    (hlex : lex text = front ++ t :: back) (hhash : t.text.toList.head? = some '#') :
    t.kind = .preprocessorDirective ↔
      OnBlankLine (charsBefore t.start text.toList) ∧ ¬LineCutOff front := by
  have hmark : MarksLineStart true [] := by
    simp [MarksLineStart, onBlankLine_nil, LineCutOff]
  obtain ⟨hstart, hiff⟩ := directive_lexFrom true 0 text.toList [] front back t (.inr hmark) rfl
    hlex hhash
  have hchars : text.toList = charsOf front ++ charsOf (t :: back) := by
    rw [← charsOf_append, ← hlex]
    exact (charsOf_lexFrom true 0 text.toList).symm
  rw [List.nil_append] at hstart hiff
  rw [hstart, hchars, charsBefore_append]
  exact hiff

theorem lex_directive_indented :
    lex "x\n  #if" =
        [⟨.identifier, "x", 0⟩, ⟨.whitespace, "\n  ", 1⟩] ++
          ⟨.preprocessorDirective, "#if", 4⟩ :: [⟨.eof, "", 7⟩] ∧
      "#if".toList.head? = some '#' ∧
      (OnBlankLine (charsBefore 4 "x\n  #if".toList) ∧
        ¬LineCutOff [⟨.identifier, "x", 0⟩, ⟨.whitespace, "\n  ", 1⟩]) := by
  have hlex : lex "x\n  #if" =
      [⟨.identifier, "x", 0⟩, ⟨.whitespace, "\n  ", 1⟩] ++
        ⟨.preprocessorDirective, "#if", 4⟩ :: [⟨.eof, "", 7⟩] := by decide +kernel
  exact ⟨hlex, rfl, (lex_directive _ _ _ _ hlex rfl).mp rfl⟩

/-- The line break that cuts an interpolated string off belongs to it, so a `#` behind it
opens no directive, although nothing stands before it on its line. -/
theorem lex_directive_cutOff :
    (lex "$\"a\n#if").map (fun t => (t.kind, t.text)) =
        [(.stringLiteral, "$\"a\n"), (.error, "#"), (.ifKw, "if"), (.eof, "")] ∧
      OnBlankLine (charsBefore 4 "$\"a\n#if".toList) := by
  refine ⟨by decide +kernel, ?_⟩
  have hline : lastLine (charsBefore 4 "$\"a\n#if".toList) = [] := by decide +kernel
  rw [OnBlankLine, hline]
  exact List.forall_mem_nil _

end CSharpKit.Syntax.Token
