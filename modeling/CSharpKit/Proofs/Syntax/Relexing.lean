import CSharpKit.Proofs.Syntax.Shape
import CSharpKit.Proofs.Syntax.Words

/-!
# Tokens in another place

Where a token ends is seen from the next character, so tokens in a row are found again where
the same tokens follow, whatever comes behind the last of them. Two tokens look further: a
comment needs its end, which is there unless the text ends with it, and `?` asks whether a
point behind it opens a number. What stands before a row matters for `#` only, and no longer
once a token that is no blank has been found.

The tokens of a type are such rows: they may be moved to any place where the next character
does not join the last of them.
-/

namespace CSharpKit.Syntax.Token

open Text

/-! ## Runs and comments -/

section

variable {cs more more' : List Char} {c d : Char}

theorem runLength_local {p : Char → Bool} (h : runLength p (cs ++ d :: more) = cs.length) :
    runLength p (cs ++ d :: more') = cs.length := by
  induction cs with
  | nil =>
      rw [List.nil_append, runLength] at h ⊢
      split at h
      · cases h
      · next hd => rw [if_neg hd, List.length_nil]
  | cons e cs ih =>
      rw [List.cons_append, runLength, List.length_cons] at h ⊢
      split at h
      · next he => rw [if_pos he, ih (Nat.succ.inj h)]
      · cases h

/-- What a row goes on with is seen from the first character behind it. -/
theorem head?_append_cons (cs : List Char) (d : Char) (more more' : List Char) :
    (cs ++ d :: more).head? = (cs ++ d :: more').head? := by
  cases cs <;> rfl

theorem commentTail_cons (c : Char) (cs : List Char) : commentTail (c :: cs) =
    if c = '*' ∧ cs.head? = some '/' then 2 else commentTail cs + 1 := by
  split
  · next h =>
      obtain ⟨rfl, hhead⟩ := h
      obtain ⟨cs, rfl⟩ := List.head?_eq_some_iff.mp hhead
      rfl
  · next h =>
      rw [commentTail]
      rintro cs rfl rfl
      exact h ⟨rfl, rfl⟩

theorem commentTail_local (h : commentTail (cs ++ d :: more) = cs.length) :
    commentTail (cs ++ d :: more') = cs.length := by
  induction cs with
  | nil =>
      rw [List.nil_append, commentTail_cons] at h
      split at h <;> cases h
  | cons e cs ih =>
      rw [List.cons_append, commentTail_cons, head?_append_cons cs d more more'] at h
      rw [List.cons_append, commentTail_cons]
      split at h
      · next hend => rw [if_pos hend, h]
      · next hend => rw [if_neg hend, ih (Nat.succ.inj h), List.length_cons]

theorem scanComment_slash (cs : List Char) : scanComment ('/' :: cs) =
    some (if cs.head? = some '/' then .docComment else .lineComment,
      runLength (!isLineBreak ·) ('/' :: cs)) := by
  unfold scanComment
  split <;> simp_all [List.head?_eq_some_iff]

theorem scanComment_star (cs : List Char) : scanComment ('*' :: cs) =
    if cs.head? = some '*' ∧ cs.tail.head? = some '/' then some (.multiLineComment, 3)
    else some (if cs.head? = some '*' then .docComment else .multiLineComment, commentTail cs + 1) := by
  have hhead : ∀ {cs : List Char} {c : Char}, cs.head? = some c ↔ ∃ more, cs = c :: more :=
    List.head?_eq_some_iff
  unfold scanComment
  split
  case h_3 heq =>
    obtain rfl := (List.cons.inj heq).2
    rw [if_pos ⟨rfl, rfl⟩]
  case h_4 body hbody heq =>
    obtain rfl := (List.cons.inj heq).2
    rw [if_neg]
    · simp
    · rintro ⟨-, h⟩
      obtain ⟨more, hmore⟩ := hhead.mp h
      exact hbody more hmore
  case h_5 body _ hbody heq =>
    obtain rfl := (List.cons.inj heq).2
    have hstar : ¬cs.head? = some '*' := fun h => by
      obtain ⟨more, rfl⟩ := hhead.mp h
      exact hbody more rfl
    rw [if_neg fun h => hstar h.1, if_neg hstar]
  all_goals simp_all

theorem scanComment_other (hslash : c ≠ '/') (hstar : c ≠ '*') (cs : List Char) :
    scanComment (c :: cs) = none := by
  unfold scanComment
  split <;> simp_all

theorem scanComment_local {k : Kind} (h : scanComment (cs ++ d :: more) = some (k, cs.length)) :
    scanComment (cs ++ d :: more') = some (k, cs.length) := by
  cases cs with
  | nil =>
      -- A comment is longer than its slash.
      rw [List.nil_append] at h
      by_cases hslash : d = '/'
      · subst hslash
        rw [scanComment_slash] at h
        have hrun := (Prod.mk.inj (Option.some.inj h)).2
        have hbreak : isLineBreak '/' = false := by decide
        simp [runLength, hbreak] at hrun
      by_cases hstar : d = '*'
      · subst hstar
        rw [scanComment_star] at h
        split at h <;> cases h
      · rw [scanComment_other hslash hstar] at h
        cases h
  | cons e cs =>
      have hhead := head?_append_cons cs d more more'
      rw [List.cons_append] at h ⊢
      by_cases hslash : e = '/'
      · subst hslash
        rw [scanComment_slash] at h ⊢
        obtain ⟨rfl, hrun⟩ := Prod.mk.inj (Option.some.inj h)
        have hmore : runLength (!isLineBreak ·) ('/' :: (cs ++ d :: more')) = ('/' :: cs).length :=
          @runLength_local ('/' :: cs) more more' d _ hrun
        rw [← hhead, hmore]
      by_cases hstar : e = '*'
      · subst hstar
        rw [scanComment_star] at h ⊢
        cases cs with
        | nil =>
            rw [List.nil_append] at h
            split at h
            · cases h
            · have htail := (Prod.mk.inj (Option.some.inj h)).2
              rw [commentTail_cons] at htail
              split at htail <;> cases htail
        | cons f cs =>
            have htail : (f :: cs ++ d :: more).tail.head? = (f :: cs ++ d :: more').tail.head? :=
              head?_append_cons cs d more more'
            rw [← hhead, ← htail]
            split at h
            · next hend => rw [if_pos hend, ← h]
            · next hend =>
                obtain ⟨rfl, hlength⟩ := Prod.mk.inj (Option.some.inj h)
                have hmore : commentTail (f :: cs ++ d :: more') = (f :: cs).length :=
                  commentTail_local (Nat.succ.inj hlength)
                rw [if_neg hend, hmore]
                rfl
      · rw [scanComment_other hslash hstar] at h
        cases h

end

/-! ## Trivia -/

section

variable {lineStart : Bool} {c d : Char} {cs more more' rest : List Char} {k : Kind} {n : Nat}

theorem scan_blank (hc : isBlank c = true) (lineStart : Bool) (rest : List Char) :
    scan lineStart c rest = (.whitespace, runLength isBlank rest) := by
  simp [scan, hc]

theorem scan_directive (rest : List Char) :
    scan true '#' rest = (.preprocessorDirective, runLength (!isLineBreak ·) rest) := by
  have hblank : isBlank '#' = false := (not_blank_of_mark (by decide)).1
  simp [scan, hblank]

theorem scan_comment {extent : Extent} (h : scanComment rest = some extent) (lineStart : Bool) :
    scan lineStart '/' rest = extent := by
  have hblank : isBlank '/' = false := (not_blank_of_mark (by decide)).1
  simp [scan, hblank, h]

theorem scanOperator_not_trivia (cs : List Char) : (scanOperator cs).1.isTrivia = false := by
  have hkinds : ∀ entry ∈ operators, entry.2.isTrivia = false := by decide
  unfold scanOperator
  simp only
  split
  · next hfind => exact hkinds _ (List.mem_of_find?_eq_some hfind)
  · rfl

/-- Trivia is blanks, a directive at the start of a line, or a comment. -/
theorem cases_of_scan_trivia (hk : k.isTrivia = true) (h : scan lineStart c rest = (k, n)) :
    isBlank c = true ∨ (c = '#' ∧ lineStart = true) ∨ c = '/' ∧ scanComment rest = some (k, n) := by
  have hscanned := scanned_scan lineStart c rest
  rw [h] at hscanned
  have hopens := hscanned.opensTrivia_of_isTrivia hk
  simp only [opensTrivia, Bool.or_eq_true, beq_iff_eq] at hopens
  have hoperator : scan lineStart c rest ≠ scanOperator (c :: rest) := by
    intro heq
    have hnot := scanOperator_not_trivia (c :: rest)
    rw [← heq, h, hk] at hnot
    cases hnot
  rcases hopens with (hblank | rfl) | rfl
  · exact .inl hblank
  · cases hcomment : scanComment rest with
    | none => exact absurd (scan_mark (by decide) lineStart (fun _ => hcomment)
        fun hdot => absurd hdot (by decide)) hoperator
    | some extent =>
        rw [scan_comment hcomment] at h
        exact .inr (.inr ⟨rfl, congrArg some h⟩)
  · cases lineStart with
    | true => exact .inr (.inl ⟨rfl, rfl⟩)
    | false =>
        have hblank : isBlank '#' = false := (not_blank_of_mark (by decide)).1
        have hword : opensIdentifier '#' = false := (not_blank_of_mark (by decide)).2
        exact absurd (by simp [scan, hblank, hword]) hoperator

/-- Trivia in front of a character is found again in front of it. -/
theorem scan_trivia_local (hk : k.isTrivia = true)
    (h : scan lineStart c (cs ++ d :: more) = (k, cs.length)) :
    scan lineStart c (cs ++ d :: more') = (k, cs.length) := by
  rcases cases_of_scan_trivia hk h with hblank | ⟨rfl, rfl⟩ | ⟨rfl, hcomment⟩
  · rw [scan_blank hblank] at h ⊢
    obtain ⟨rfl, hrun⟩ := Prod.mk.inj h
    rw [runLength_local hrun]
  · rw [scan_directive] at h ⊢
    obtain ⟨rfl, hrun⟩ := Prod.mk.inj h
    rw [runLength_local hrun]
  · exact scan_comment (scanComment_local hcomment) lineStart

end

/-! ## Words and marks -/

section

variable {lineStart : Bool} {c d : Char} {cs more more' rest : List Char} {k : Kind} {n : Nat}

/-- Kinds of tokens that types are written with, trivia apart. -/
def IsPieceKind (k : Kind) : Prop :=
  (k = .identifier ∨ k.isKeyword = true) ∨ k ∈ marks.map (·.2)

theorem all_of_runLength {p : Char → Bool} (h : runLength p (cs ++ more) = cs.length) :
    (∀ e ∈ cs, p e = true) ∧ ∀ e ∈ more.head?, p e = false := by
  induction cs with
  | nil =>
      refine ⟨nofun, fun e he => ?_⟩
      obtain ⟨more, rfl⟩ := List.head?_eq_some_iff.mp he
      rw [List.nil_append, runLength] at h
      split at h
      · cases h
      · next hnot => simpa using hnot
  | cons e cs ih =>
      rw [List.cons_append, runLength] at h
      split at h
      · next he =>
          obtain ⟨hcs, hmore⟩ := ih (Nat.succ.inj h)
          exact ⟨List.forall_mem_cons.mpr ⟨he, hcs⟩, hmore⟩
      · cases h

/-- A word that is found ends before a character that would go on with it. -/
theorem isWord_of_scan (hk : k = .identifier ∨ k.isKeyword = true)
    (h : scan lineStart c (cs ++ more) = (k, cs.length)) :
    IsWord (String.ofList (c :: cs)) k ∧ ∀ d ∈ more.head?, continuesIdentifier d = false := by
  rcases opens_of_scan_word hk h with hc | ⟨d, rest, rfl, hrest, hd⟩
  · rw [scan_plain hc] at h
    obtain ⟨hkind, hrun⟩ := Prod.mk.inj h
    obtain ⟨hcs, hmore⟩ := all_of_runLength hrun
    rw [hrun, List.take_left] at hkind
    exact ⟨hkind ▸ .plain rfl hc hcs, hmore⟩
  · rw [hrest, scan_verbatim hd] at h
    obtain ⟨rfl, hrun⟩ := Prod.mk.inj h
    cases cs with
    | nil => cases hrun
    | cons e cs =>
        obtain ⟨rfl, rfl⟩ := List.cons.inj hrest
        obtain ⟨hcs, hmore⟩ := all_of_runLength (Nat.succ.inj hrun)
        exact ⟨.verbatim rfl hd hcs, hmore⟩

theorem take_mem_marks (hk : k ∈ marks.map (·.2)) (h : scan lineStart c rest = (k, n)) :
    (c :: rest.take n, k) ∈ marks := by
  have hmarks : ∀ k ∈ marks.map (·.2), k.isTrivia = false ∧ isLiteralKind k = false ∧
      ¬(k = .identifier ∨ k.isKeyword = true) := by decide
  have hoperators : ∀ entry ∈ operators, entry.2 ∈ marks.map (·.2) → entry ∈ marks := by decide
  obtain ⟨htrivia, hliteral, hword⟩ := hmarks k hk
  have hscanned := scanned_scan lineStart c rest
  rw [h] at hscanned
  cases hscanned with
  | trivia hkind => exact absurd hkind (by simp [htrivia])
  | word hkind => exact absurd hkind hword
  | literal hkind => exact absurd hkind (by simp [hliteral])
  | operator hmem => exact hoperators _ hmem hk

theorem mark_of_scan (hk : k ∈ marks.map (·.2)) (h : scan lineStart c (cs ++ more) = (k, cs.length)) :
    (c :: cs, k) ∈ marks := by
  have hmem := take_mem_marks hk h
  rwa [List.take_left] at hmem

theorem isPiece_of_scan (hk : IsPieceKind k) (h : scan lineStart c (cs ++ more) = (k, cs.length)) :
    IsPiece k (String.ofList (c :: cs)) := by
  rcases hk with hk | hk
  · exact .word (isWord_of_scan hk h).1
  · exact .mark (by simpa using mark_of_scan hk h)

/-- The operator that is found is the longest one. -/
theorem not_longer_of_scanOperator {text longer : List Char} {k' : Kind}
    (h : scanOperator rest = (k, n)) (hmem : (text, k) ∈ operators)
    (hlonger : (longer, k') ∈ operators) (hk' : k' = .questionDot → digitAt 2 rest = false)
    (hrest : longer <+: rest) (htext : text <+: longer) : text = longer := by
  have hinjective : ∀ a ∈ operators, ∀ b ∈ operators, a.2 = b.2 → a = b := by decide +kernel
  have hfits : (longer.isPrefixOf rest && !(k' == .questionDot && digitAt 2 rest)) = true := by
    have hpoint : (k' == .questionDot && digitAt 2 rest) = false := by
      cases hdot : k' == .questionDot with
      | false => rfl
      | true => exact hk' (beq_iff_eq.mp hdot)
    rw [hpoint, List.isPrefixOf_iff_prefix.mpr hrest]
    rfl
  unfold scanOperator at h
  simp only at h
  split at h
  case h_2 hfind => exact absurd hfits (List.find?_eq_none.mp hfind _ hlonger)
  case h_1 found kind hfind =>
    obtain ⟨hentry, before, after, hsplit, hbefore⟩ := List.find?_eq_some_iff_append.mp hfind
    have hfound : (found, kind) ∈ operators := List.mem_of_find?_eq_some hfind
    obtain ⟨rfl, rfl⟩ := Prod.mk.inj (hinjective _ hfound _ hmem (Prod.mk.inj h).1)
    have hpairs := pairwise_operators
    rw [hsplit] at hlonger hpairs
    rcases List.mem_append.mp hlonger with hmem | hmem
    · have hnot := hbefore _ hmem
      rw [hfits] at hnot
      cases hnot
    rcases List.mem_cons.mp hmem with heq | hmem
    · exact (Prod.mk.inj heq).1.symm
    · rw [List.pairwise_append] at hpairs
      exact absurd htext ((List.pairwise_cons.mp hpairs.2.1).1 _ hmem)

/-- A point in front of a digit opens a number. -/
theorem scan_point (hdigit : digitAt 0 rest = true) (lineStart : Bool) :
    scan lineStart '.' rest = scanNumber ('.' :: rest) := by
  have hblank : isBlank '.' = false := (not_blank_of_mark (by decide)).1
  have hword : opensIdentifier '.' = false := (not_blank_of_mark (by decide)).2
  simp [scan, hblank, hword, hdigit]

/-- A mark is found as an operator; a point in front of a digit would be a number. -/
theorem scanOperator_of_mark (hmark : (c :: cs, k) ∈ marks)
    (h : scan lineStart c (cs ++ rest) = (k, cs.length)) :
    scanOperator (c :: (cs ++ rest)) = (k, cs.length) ∧ (k = .dot → digitAt 0 rest = false) := by
  have hopens : ∀ mark ∈ marks, (mark.1.head?.any fun c =>
      ['<', '>', ',', '.', '?', '[', ']', ':'].contains c) = true ∧
        (mark.1.head? = some '.' ∨ mark.2 = .dot → mark = (['.'], .dot)) := by decide
  obtain ⟨hhead, hdot⟩ := hopens _ hmark
  have hc : c ∈ ['<', '>', ',', '.', '?', '[', ']', ':'] :=
    List.contains_iff_mem.mp (by simpa using hhead)
  have hdigit : c = '.' ∨ k = .dot → digitAt 0 (cs ++ rest) = false ∧ cs = [] := by
    intro hpoint
    obtain ⟨hchars, rfl⟩ := Prod.mk.inj (hdot (hpoint.imp_left fun hc => by rw [hc]; rfl))
    obtain ⟨rfl, rfl⟩ := List.cons.inj hchars
    refine ⟨?_, rfl⟩
    by_contra hnumber
    have hscan : scan lineStart '.' ([] ++ rest) = scanNumber ('.' :: ([] ++ rest)) :=
      scan_point (by simpa using hnumber) lineStart
    have hliteral : ∀ real : Bool, (if real then Kind.realLiteral else .intLiteral) ≠ .dot := by
      decide
    exact hliteral _ (congrArg Prod.fst (hscan.symm.trans h))
  refine ⟨?_, fun hk => ?_⟩
  · rw [← scan_mark (List.mem_append_left _ hc) lineStart ?_ fun hpoint => (hdigit (.inl hpoint)).1, h]
    rintro rfl
    exact absurd hc (by decide)
  · obtain ⟨hnumber, rfl⟩ := hdigit (.inr hk)
    exact hnumber

/-- Only `<`, `=` and `?` go on with a mark, and a point with a question mark, and digits with a
dot. -/
theorem joins_mark (hk : k ∈ marks.map (·.2)) (h : endsBefore k d = false) :
    d ∈ ['<', '=', '?'] ∨ k = .question ∧ d = '.' ∨ k = .dot ∧ d.isDigit = true := by
  simp only [marks, List.map_cons, List.map_nil, List.mem_cons, List.not_mem_nil, or_false] at hk ⊢
  rcases hk with rfl | rfl | rfl | rfl | rfl | rfl | rfl | rfl <;> grind [endsBefore]

/-- A mark ends before the next character, but `?` may stand in front of a real number. -/
theorem endsBefore_of_mark_scan (hk : k ∈ marks.map (·.2))
    (h : scan lineStart c (cs ++ d :: more) = (k, cs.length)) :
    endsBefore k d = true ∨ k = .question ∧ d = '.' ∧ digitAt 0 more = true := by
  have hmark := mark_of_scan hk h
  have hlonger : ∀ mark ∈ marks, (['<', '=', '?'].all fun d => endsBefore mark.2 d ||
      decide (∃ entry ∈ operators, entry.1 = mark.1 ++ [d] ∧ entry.2 ≠ .questionDot)) = true := by
    decide
  have hmem : ∀ mark ∈ marks, mark ∈ operators := by decide
  obtain ⟨hscan, hdigit⟩ := scanOperator_of_mark hmark h
  cases hends : endsBefore k d with
  | true => exact .inl rfl
  | false =>
      rcases joins_mark hk hends with hd | ⟨rfl, rfl⟩ | ⟨rfl, hd⟩
      · have hentries := List.all_eq_true.mp (hlonger _ hmark) d hd
        rw [hends, Bool.false_or, decide_eq_true_iff] at hentries
        obtain ⟨⟨longer, k'⟩, hentry, rfl, hne⟩ := hentries
        have heq := not_longer_of_scanOperator hscan (hmem _ hmark) hentry (absurd · hne)
          ⟨more, by simp⟩ (List.prefix_append _ _)
        simp at heq
      · obtain ⟨rfl, rfl⟩ : c = '?' ∧ cs = [] := by simpa [marks] using hmark
        refine .inr ⟨rfl, rfl, ?_⟩
        by_contra hnumber
        have hquestionDot : (['?', '.'], Kind.questionDot) ∈ operators := by decide
        have heq := not_longer_of_scanOperator hscan (hmem _ hmark) hquestionDot
          (fun _ => by simpa [digitAt] using hnumber) ⟨more, rfl⟩ ⟨['.'], rfl⟩
        cases heq
      · have hnumber := hdigit rfl
        simp [digitAt, hd] at hnumber

theorem endsBefore_of_scan (hk : IsPieceKind k)
    (h : scan lineStart c (cs ++ d :: more) = (k, cs.length)) :
    endsBefore k d = true ∨ k = .question ∧ d = '.' ∧ digitAt 0 more = true := by
  rcases hk with hk | hk
  · have hends := (isWord_of_scan hk h).2 d rfl
    exact .inl (by rw [endsBefore_word hk, hends, Bool.not_false])
  · exact endsBefore_of_mark_scan hk h

end

/-! ## The length of a token -/

section

variable {lineStart : Bool} {c : Char} {rest : List Char} {k : Kind} {n : Nat}

theorem runLength_le (p : Char → Bool) (cs : List Char) : runLength p cs ≤ cs.length := by
  induction cs with
  | nil => exact Nat.le_refl 0
  | cons c cs ih =>
      rw [runLength, List.length_cons]
      split
      · exact Nat.succ_le_succ ih
      · exact Nat.zero_le _

theorem commentTail_le (cs : List Char) : commentTail cs ≤ cs.length := by
  fun_induction commentTail cs with
  | case1 => exact Nat.le_refl 0
  | case2 => simp
  | case3 _ _ _ ih => exact Nat.succ_le_succ ih

theorem scanComment_le (h : scanComment rest = some (k, n)) : n ≤ rest.length := by
  have hline := runLength_le (!isLineBreak ·) rest
  unfold scanComment at h
  split at h
  case h_6 => cases h
  case h_4 body _ =>
    obtain ⟨-, rfl⟩ := Prod.mk.inj (Option.some.inj h)
    exact Nat.succ_le_succ (commentTail_le _)
  case h_5 body _ _ =>
    obtain ⟨-, rfl⟩ := Prod.mk.inj (Option.some.inj h)
    exact Nat.succ_le_succ (commentTail_le _)
  all_goals
    obtain ⟨-, rfl⟩ := Prod.mk.inj (Option.some.inj h)
    first | exact hline | simp

/-- No token of a type goes on behind the end of the text. -/
theorem scan_exact (hk : k.isTrivia = true ∨ IsPieceKind k) (h : scan lineStart c rest = (k, n)) :
    scan lineStart c rest = (k, (rest.take n).length) := by
  rcases hk with htrivia | hword | hmark
  · have hle : n ≤ rest.length := by
      rcases cases_of_scan_trivia htrivia h with hblank | ⟨rfl, rfl⟩ | ⟨rfl, hcomment⟩
      · rw [scan_blank hblank] at h
        exact (Prod.mk.inj h).2 ▸ runLength_le _ _
      · rw [scan_directive] at h
        exact (Prod.mk.inj h).2 ▸ runLength_le _ _
      · exact scanComment_le hcomment
    rw [List.length_take_of_le hle, h]
  · have hle : n ≤ rest.length := by
      rcases opens_of_scan_word hword h with hc | ⟨d, more, rfl, rfl, hd⟩
      · rw [scan_plain hc] at h
        exact (Prod.mk.inj h).2 ▸ runLength_le _ _
      · rw [scan_verbatim hd] at h
        exact (Prod.mk.inj h).2 ▸ Nat.succ_le_succ (runLength_le _ _)
    rw [List.length_take_of_le hle, h]
  · rcases Nat.lt_or_ge rest.length n with hlt | hle
    · -- The whole text is the mark.
      have halone : ∀ mark ∈ marks, ∀ lineStart, scan lineStart (mark.1.headD ' ') mark.1.tail =
          (mark.2, mark.1.tail.length) := by decide +kernel
      have hmem := take_mem_marks hmark h
      rw [List.take_of_length_le (Nat.le_of_lt hlt)] at hmem ⊢
      exact halone _ hmem lineStart
    · rw [List.length_take_of_le hle, h]

end

/-! ## Rows of tokens -/

/-- Whether a `#` behind a row of tokens would stand at the start of its line. -/
def lineStartBehind (lineStart : Bool) (ls : List (Kind × String)) : Bool :=
  ls.foldl (fun before l => lineStartAfter before l.1 l.2.toList) lineStart

section

variable {lineStart : Bool} {ls ms : List (Kind × String)} {l : Kind × String} {rest : List Char}

theorem chars_append (ls ms : List (Kind × String)) : chars (ls ++ ms) = chars ls ++ chars ms :=
  List.flatMap_append

theorem scans_append : Scans lineStart (ls ++ ms) rest ↔
    Scans lineStart ls (chars ms ++ rest) ∧ Scans (lineStartBehind lineStart ls) ms rest := by
  induction ls generalizing lineStart with
  | nil => simp [Scans, lineStartBehind]
  | cons l ls ih =>
      rw [List.cons_append, Scans, Scans, ih, chars_append, List.append_assoc]
      simp [lineStartBehind, and_assoc]

theorem isKeyword_of_isPredefinedType {k : Kind} (h : k.isPredefinedType = true) :
    k.isKeyword = true := by
  cases k <;> first | rfl | cases h

theorem isPieceKind_of_isTypeToken {k : Kind} (h : Tree.isTypeToken k = true) :
    k.isTrivia = true ∨ IsPieceKind k := by
  simp only [Tree.isTypeToken, Bool.or_eq_true, List.contains_iff_mem] at h
  rcases h with (htrivia | hk) | hk
  · exact .inl htrivia
  · exact .inr (.inl (.inr (isKeyword_of_isPredefinedType hk)))
  · refine .inr ?_
    have hothers : ∀ k ∈ [Kind.voidKw, .identifier, .less, .comma, .greater, .dot, .colonColon,
        .question, .lBracket, .rBracket], (k = .identifier ∨ k.isKeyword = true) ∨
          k ∈ marks.map (·.2) := by decide
    exact hothers k hk

/-- The tokens of a type are found in a row where they were read. -/
theorem scans_of_lexFrom (lineStart : Bool) (start : Nat) (cs : List Char) {last : Token} :
    ∀ tokens, lexFrom lineStart start cs = tokens ++ [last] →
      (∀ t ∈ tokens, Tree.isTypeToken t.kind = true) →
        Scans lineStart (tokens.map Token.leaf) [] ∧ chars (tokens.map Token.leaf) = cs := by
  fun_induction lexFrom lineStart start cs with
  | case1 =>
      intro tokens h hkinds
      cases tokens with
      | nil => exact ⟨trivial, rfl⟩
      | cons t tokens => simp at h
  | case2 lineStart start c rest k n hscan cs token ih =>
      intro tokens h hkinds
      cases tokens with
      | nil =>
          obtain ⟨more, last', hmore, -⟩ := lexFrom_eq_append
            (lineStartAfter lineStart k (c :: rest.take n)) token.span.stop (rest.drop n)
          have hnil := (List.cons.inj h).2
          rw [hmore] at hnil
          simp at hnil
      | cons t tokens =>
          obtain ⟨rfl, hmore⟩ := List.cons.inj h
          obtain ⟨hrow, hchars⟩ := ih tokens hmore fun t ht => hkinds t (List.mem_cons_of_mem _ ht)
          have hkind := isPieceKind_of_isTypeToken (hkinds _ List.mem_cons_self)
          refine ⟨⟨⟨c, rest.take n, rfl, ?_⟩, ?_⟩, ?_⟩
          · rw [hchars, List.append_nil, List.take_append_drop]
            exact scan_exact hkind hscan
          · rwa [Token.leaf, String.toList_ofList]
          · rw [List.map_cons, chars_cons, hchars, Token.leaf, String.toList_ofList,
              List.cons_append, List.take_append_drop]

/-! ## Another place -/

theorem isPieceKind_not_trivia {k : Kind} (h : IsPieceKind k) : k.isTrivia = false := by
  have hmarks : ∀ k ∈ marks.map (·.2), k.isTrivia = false := by decide
  rcases h with hword | hmark
  · exact not_isTrivia_of_word hword
  · exact hmarks k hmark

/-- No token of a type opens a number. -/
theorem not_number_of_scan {c : Char} {more : List Char} {k : Kind} {n : Nat}
    (hk : Tree.isTypeToken k = true) (h : scan lineStart c more = (k, n)) :
    ¬(c = '.' ∧ digitAt 0 more = true) := by
  rintro ⟨rfl, hdigit⟩
  have hliteral : ∀ real : Bool, Tree.isTypeToken (if real then .realLiteral else .intLiteral) =
      false := by decide
  have hnot : Tree.isTypeToken (scanNumber ('.' :: more)).1 = false := hliteral _
  rw [← scan_point hdigit lineStart, h, hk] at hnot
  cases hnot

theorem scan_moved {lineStart' : Bool} {c d : Char} {cs more more' : List Char} {k : Kind}
    (hk : Tree.isTypeToken k = true) (h : scan lineStart c (cs ++ d :: more) = (k, cs.length))
    (hnext : ¬(d = '.' ∧ digitAt 0 more = true)) (hstart : lineStart' = lineStart ∨ IsPieceKind k) :
    scan lineStart' c (cs ++ d :: more') = (k, cs.length) := by
  rcases isPieceKind_of_isTypeToken hk with htrivia | hpiece
  · rcases hstart with rfl | hpiece
    · exact scan_trivia_local htrivia h
    · rw [isPieceKind_not_trivia hpiece] at htrivia
      cases htrivia
  · have hends : endsBefore k d = true :=
      (endsBefore_of_scan hpiece h).resolve_right fun hpoint => hnext hpoint.2
    have hcut : CutsOff k (String.ofList (c :: cs)) (d :: more') :=
      (isPiece_of_scan hpiece h).cutsOff fun e he => Option.some.inj he ▸ hends
    obtain ⟨c', cs', htext, hscan⟩ := hcut lineStart'
    obtain ⟨rfl, rfl⟩ := List.cons.inj (String.ofList_injective htext)
    exact hscan

/-- A row of tokens of a type stands as well in front of any other text, if its last one
ends there, and at any place of a line if it does not begin with trivia. -/
theorem Scans.moved {lineStart' : Bool} {rest' : List Char} (h : Scans lineStart ls rest)
    (hkinds : ∀ l ∈ ls, Tree.isTypeToken l.1 = true)
    (hstart : lineStart' = lineStart ∨ ∀ l ∈ ls.head?, IsPieceKind l.1)
    (hlast : ∀ l ∈ ls.getLast?, IsPieceKind l.1 ∧ ∀ d ∈ rest'.head?, endsBefore l.1 d = true) :
    Scans lineStart' ls rest' := by
  induction ls generalizing lineStart lineStart' with
  | nil => trivial
  | cons l ls ih =>
      obtain ⟨⟨c, cs, htext, hscan⟩, hmore⟩ := h
      have hhead : lineStart' = lineStart ∨ IsPieceKind l.1 := hstart.imp_right fun h => h l rfl
      cases ls with
      | nil =>
          obtain ⟨hpiece, hends⟩ := hlast l rfl
          have hcut := (htext ▸ isPiece_of_scan hpiece hscan : IsPiece l.1 l.2).cutsOff hends
          exact ⟨hcut lineStart', trivial⟩
      | cons next ls =>
          refine ⟨⟨c, cs, htext, ?_⟩, ih hmore (fun l hl => hkinds l (List.mem_cons_of_mem _ hl))
            (.inl ?_) hlast⟩
          · obtain ⟨⟨d, ds, hnext, hscan'⟩, -⟩ := hmore
            have hnumber := not_number_of_scan
              (hkinds next (List.mem_cons_of_mem _ List.mem_cons_self)) hscan'
            rw [chars_cons, hnext, String.toList_ofList, List.cons_append, List.cons_append,
              List.append_assoc] at hscan ⊢
            exact scan_moved (hkinds l List.mem_cons_self) hscan hnumber hhead
          · -- Behind a token that is no blank no line starts.
            rcases hhead with rfl | hpiece
            · rfl
            · have hblank : (l.1 == .whitespace) = false := by
                refine beq_eq_false_iff_ne.mpr fun hblank => ?_
                have htrivia := isPieceKind_not_trivia hpiece
                rw [hblank] at htrivia
                cases htrivia
              simp [lineStartAfter, hblank]

end

end CSharpKit.Syntax.Token
