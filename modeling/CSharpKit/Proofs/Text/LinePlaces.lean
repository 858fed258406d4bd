import CSharpKit.Proofs.Text.Patches
import CSharpKit.Text.CharClass
import CSharpKit.Text.Lines

/-!
# Places by line and column

The lines of a text start at its beginning and right behind each line end. These starts
rise, so a position lies on the last line that starts at or before it, and its line and
column lead back to it.
-/

namespace CSharpKit.Text

/-- A place stands before another one, by line and then by column. -/
def LineCol.Precedes (a b : LineCol) : Prop := a.line < b.line ∨ a.line = b.line ∧ a.col < b.col

namespace Lines

/-! ## Where lines end -/

/-- A line ends with `before` if `behind` follows: at a line feed, or at a carriage return
that no line feed follows. -/
def EndsLine (before behind : List Char) : Prop :=
  before.getLast? = some '\n' ∨ before.getLast? = some '\r' ∧ behind.head? ≠ some '\n'

/-- A line starts at `s`, where the characters `cs` start at `pos`, and ends behind its start. -/
def StartsBehind (pos : Nat) (cs : List Char) (s : Nat) : Prop :=
  ∃ before behind, cs = before ++ behind ∧ pos + byteLength before = s ∧ EndsLine before behind

/-- How often a line feed stands right behind a carriage return. -/
def pairCount (cs : List Char) : Nat := (cs.zip cs.tail).count ('\r', '\n')

theorem not_endsLine_nil (behind : List Char) : ¬EndsLine [] behind := by simp [EndsLine]

theorem endsLine_singleton {c : Char} {behind : List Char} :
    EndsLine [c] behind ↔ c = '\n' ∨ c = '\r' ∧ behind.head? ≠ some '\n' := by simp [EndsLine]

theorem endsLine_append {front before behind : List Char} (h : before ≠ []) :
    EndsLine (front ++ before) behind ↔ EndsLine before behind := by
  rw [EndsLine, List.getLast?_append_of_ne_nil _ h, EndsLine]

theorem EndsLine.exists_break {before behind : List Char} (h : EndsLine before behind) :
    ∃ front c, before = front ++ [c] ∧ isLineBreak c = true := by
  rcases h with h | ⟨h, -⟩
  · obtain ⟨front, rfl⟩ := List.getLast?_eq_some_iff.mp h
    exact ⟨front, '\n', rfl, rfl⟩
  · obtain ⟨front, rfl⟩ := List.getLast?_eq_some_iff.mp h
    exact ⟨front, '\r', rfl, rfl⟩

/-- Where a line break stands, a line ends: behind it, or behind the line feed that follows. -/
theorem exists_endsLine {mid back : List Char} {c : Char} (hc : c ∈ mid)
    (hbreak : isLineBreak c = true) (hback : back.head? ≠ some '\n') :
    ∃ before behind, mid = before ++ behind ∧ EndsLine before (behind ++ back) := by
  obtain ⟨more, rest, rfl⟩ := List.append_of_mem hc
  rcases (by simpa [isLineBreak] using hbreak : c = '\n' ∨ c = '\r') with rfl | rfl
  · exact ⟨more ++ ['\n'], rest, by simp, .inl (by simp)⟩
  · by_cases hhead : (rest ++ back).head? = some '\n'
    · cases rest with
      | nil => exact absurd hhead hback
      | cons d rest =>
          obtain rfl : d = '\n' := Option.some.inj hhead
          exact ⟨more ++ ['\r', '\n'], rest, by simp, .inl (by simp)⟩
    · exact ⟨more ++ ['\r'], rest, by simp, .inr ⟨by simp, hhead⟩⟩

theorem startsBehind_nil {pos s : Nat} : ¬StartsBehind pos [] s := by
  rintro ⟨before, behind, h, -, hends⟩
  obtain ⟨rfl, rfl⟩ := List.append_eq_nil_iff.mp h.symm
  exact not_endsLine_nil [] hends

theorem startsBehind_cons {pos s : Nat} {c : Char} {rest : List Char} :
    StartsBehind pos (c :: rest) s ↔
      (pos + c.utf8Size = s ∧ EndsLine [c] rest) ∨ StartsBehind (pos + c.utf8Size) rest s := by
  constructor
  · rintro ⟨before, behind, h, rfl, hends⟩
    cases before with
    | nil => exact absurd hends (not_endsLine_nil behind)
    | cons d before =>
        obtain ⟨rfl, rfl⟩ := List.cons.inj h
        by_cases hnil : before = []
        · subst hnil
          exact .inl ⟨by simp, hends⟩
        · refine .inr ⟨before, behind, rfl, by simp [Nat.add_assoc], ?_⟩
          rwa [← List.singleton_append, endsLine_append hnil] at hends
  · rintro (⟨rfl, hends⟩ | ⟨before, behind, rfl, rfl, hends⟩)
    · exact ⟨[c], rest, rfl, by simp, hends⟩
    · have hne : before ≠ [] := by
        rintro rfl
        exact not_endsLine_nil behind hends
      refine ⟨c :: before, behind, rfl, by simp [Nat.add_assoc], ?_⟩
      rwa [← List.singleton_append, endsLine_append hne]

/-! ## The starts of lines -/

/-- The starts that are found are those behind a line end. -/
theorem mem_laterStarts {pos s : Nat} {cs : List Char} :
    s ∈ laterStarts pos cs ↔ StartsBehind pos cs s := by
  fun_induction laterStarts pos cs with
  | case1 => simp [startsBehind_nil]
  | case2 pos rest ih =>
      have hreturn : ¬EndsLine ['\r'] ('\n' :: rest) := by simp [endsLine_singleton]
      have hfeed : EndsLine ['\n'] rest := .inl rfl
      rw [List.mem_cons, ih, startsBehind_cons, startsBehind_cons]
      simp only [hreturn, hfeed, and_false, false_or, and_true]
      exact or_congr_left eq_comm
  | case3 pos c rest hpair hbreak ih =>
      have hends : EndsLine [c] rest ∧ c.utf8Size = 1 := by
        rcases (by simpa using hbreak : c = '\n' ∨ c = '\r') with rfl | rfl
        · exact ⟨.inl rfl, rfl⟩
        · refine ⟨endsLine_singleton.mpr (.inr ⟨rfl, fun hhead => ?_⟩), rfl⟩
          obtain ⟨more, rfl⟩ := List.head?_eq_some_iff.mp hhead
          exact hpair more rfl rfl
      rw [List.mem_cons, ih, startsBehind_cons, hends.2]
      simp only [hends.1, and_true]
      exact or_congr_left eq_comm
  | case4 pos c rest hpair hbreak ih =>
      have hends : ¬EndsLine [c] rest := by
        rw [endsLine_singleton]
        simp only [Bool.or_eq_true, beq_iff_eq, not_or] at hbreak
        exact fun h => h.elim hbreak.1 fun h => hbreak.2 h.1
      rw [ih, startsBehind_cons]
      simp only [hends, and_false, false_or]

theorem StartsBehind.bounds {pos s : Nat} {cs : List Char} (h : StartsBehind pos cs s) :
    pos < s ∧ s ≤ pos + byteLength cs := by
  obtain ⟨before, behind, rfl, rfl, hends⟩ := h
  have hpos : 0 < byteLength before := by
    refine Nat.pos_of_ne_zero fun hzero => ?_
    obtain rfl := eq_nil_of_byteLength_eq_zero hzero
    exact not_endsLine_nil behind hends
  rw [byteLength_append]
  omega

theorem pairwise_laterStarts (pos : Nat) (cs : List Char) :
    (laterStarts pos cs).Pairwise (· < ·) := by
  fun_induction laterStarts pos cs with
  | case1 => exact .nil
  | case2 pos rest ih =>
      exact List.pairwise_cons.mpr ⟨fun s hs => (mem_laterStarts.mp hs).bounds.1, ih⟩
  | case3 pos c rest _ _ ih =>
      exact List.pairwise_cons.mpr ⟨fun s hs => (mem_laterStarts.mp hs).bounds.1, ih⟩
  | case4 _ _ _ _ _ ih => exact ih

theorem pairCount_cons (c : Char) (rest : List Char) : pairCount (c :: rest) =
    (if c = '\r' ∧ rest.head? = some '\n' then 1 else 0) + pairCount rest := by
  cases rest with
  | nil => simp [pairCount]
  | cons d rest =>
      simp only [pairCount, List.tail_cons, List.zip_cons_cons, List.count_cons, List.head?_cons,
        Option.some.injEq, beq_iff_eq, Prod.mk.injEq]
      exact Nat.add_comm _ _

/-- Each line end has a line behind it; the two characters of a pair end one line. -/
theorem length_laterStarts (pos : Nat) (cs : List Char) :
    (laterStarts pos cs).length + pairCount cs = cs.count '\n' + cs.count '\r' := by
  fun_induction laterStarts pos cs with
  | case1 => rfl
  | case2 pos rest ih =>
      simp only [List.length_cons, pairCount_cons, List.head?_cons, List.count_cons]
      simp only [beq_iff_eq, Char.reduceEq, false_and, and_self, if_true, if_false]
      omega
  | case3 pos c rest hpair hbreak ih =>
      have hnone : ¬(c = '\r' ∧ rest.head? = some '\n') := by
        rintro ⟨rfl, hhead⟩
        obtain ⟨more, rfl⟩ := List.head?_eq_some_iff.mp hhead
        exact hpair more rfl rfl
      rw [List.length_cons, pairCount_cons, if_neg hnone, List.count_cons, List.count_cons]
      rcases (by simpa using hbreak : c = '\n' ∨ c = '\r') with rfl | rfl
      · simp only [beq_iff_eq, reduceIte, Char.reduceEq, if_false]
        omega
      · simp only [beq_iff_eq, reduceIte, Char.reduceEq, if_false]
        omega
  | case4 pos c rest hpair hbreak ih =>
      simp only [Bool.or_eq_true, beq_iff_eq, not_or] at hbreak
      simp [pairCount_cons, hbreak, ih]

/-- The starts of the lines of a text rise from zero to its length at most. -/
structure Ordered (lines : Lines) : Prop where
  first : lines.starts.head? = some 0
  rising : lines.starts.Pairwise (· < ·)
  bounded : ∀ s ∈ lines.starts, s ≤ lines.length

theorem mem_starts_ofText {text : String} {s : Nat} :
    s ∈ (ofText text).starts ↔ s = 0 ∨ StartsBehind 0 text.toList s := by
  rw [ofText, List.mem_cons, mem_laterStarts]

theorem ordered_ofText (text : String) : (ofText text).Ordered where
  first := rfl
  rising := List.pairwise_cons.mpr
    ⟨fun _ hs => (mem_laterStarts.mp hs).bounds.1, pairwise_laterStarts 0 text.toList⟩
  bounded := by
    intro s hs
    rcases mem_starts_ofText.mp hs with rfl | hs
    · exact Nat.zero_le _
    · have hle := hs.bounds.2
      rwa [Nat.zero_add, byteLength_toList] at hle

/-! ## The line of a position -/

/-- In a rising row the numbers up to a bound stand at the front. -/
theorem lt_length_takeWhile_iff {starts : List Nat} (h : starts.Pairwise (· < ·)) {i s : Nat}
    (hs : starts[i]? = some s) (pos : Nat) :
    i < (starts.takeWhile (· ≤ pos)).length ↔ s ≤ pos := by
  induction starts generalizing i with
  | nil => cases hs
  | cons first rest ih =>
      obtain ⟨hfirst, hrest⟩ := List.pairwise_cons.mp h
      by_cases hle : first ≤ pos
      · rw [List.takeWhile_cons_of_pos (by simpa using hle), List.length_cons]
        cases i with
        | zero =>
            obtain rfl := Option.some.inj hs
            exact iff_of_true (Nat.succ_pos _) hle
        | succ i =>
            rw [Nat.succ_lt_succ_iff]
            exact ih hrest hs
      · rw [List.takeWhile_cons_of_neg (by simpa using hle)]
        refine iff_of_false (Nat.not_lt_zero i) fun hspos => ?_
        rcases List.mem_cons.mp (List.mem_of_getElem? hs) with rfl | hmem
        · exact hle hspos
        · exact hle (Nat.le_trans (Nat.le_of_lt (hfirst s hmem)) hspos)

/-- A place names a position: its line is the last one that starts at or before the
position, and its column is the way from there. -/
def Names (lines : Lines) (place : LineCol) (pos : Nat) : Prop :=
  ∃ start, lines.start? place.line = some start ∧ start + place.col = pos ∧
    ∀ line s, lines.start? line = some s → s ≤ pos → line ≤ place.line

/-- A place leads to a position: its line reaches that far, where the start of the next line
still counts. -/
def Reaches (lines : Lines) (place : LineCol) (pos : Nat) : Prop :=
  ∃ start, lines.start? place.line = some start ∧ start + place.col = pos ∧
    (∀ next, lines.start? (place.line + 1) = some next → pos ≤ next) ∧
    (lines.start? (place.line + 1) = none → pos ≤ lines.length)

section

variable {lines : Lines} {pos pos' : Nat} {place place' : LineCol}

theorem Ordered.names_lineCol (h : lines.Ordered) (hpos : pos ≤ lines.length) :
    lines.Names (lines.lineCol pos) pos := by
  have hcount : 0 < (lines.starts.takeWhile (· ≤ pos)).length :=
    (lt_length_takeWhile_iff h.rising (List.head?_eq_getElem? ▸ h.first) pos).mpr (Nat.zero_le pos)
  have hline : (lines.lineCol pos).line = (lines.starts.takeWhile (· ≤ pos)).length - 1 := by
    rw [lineCol, Nat.min_eq_left hpos]
  have hbound : (lines.lineCol pos).line < lines.starts.length := by
    have hle := (List.takeWhile_prefix (l := lines.starts) (· ≤ pos)).length_le
    omega
  obtain ⟨start, hstart⟩ : ∃ start, lines.starts[(lines.lineCol pos).line]? = some start :=
    ⟨_, List.getElem?_eq_getElem hbound⟩
  have hcol : (lines.lineCol pos).col = pos - start := by
    have hvalue : (lines.lineCol pos).col =
        pos - (lines.starts[(lines.lineCol pos).line]?).getD 0 := by
      simp only [lineCol, start?, Nat.min_eq_left hpos]
    rw [hvalue, hstart, Option.getD_some]
  have hle : start ≤ pos := (lt_length_takeWhile_iff h.rising hstart pos).mp (by omega)
  refine ⟨start, hstart, by omega, fun line s hs hspos => ?_⟩
  have := (lt_length_takeWhile_iff h.rising hs pos).mpr hspos
  omega

/-- A position behind the end counts as the end. -/
theorem lineCol_of_le (h : lines.length ≤ pos) :
    lines.lineCol pos = lines.lineCol lines.length := by
  simp only [lineCol, Nat.min_eq_right h, Nat.min_self]

theorem Names.reaches (h : lines.Names place pos) (hpos : pos ≤ lines.length) :
    lines.Reaches place pos := by
  obtain ⟨start, hstart, hcol, hlast⟩ := h
  refine ⟨start, hstart, hcol, fun next hnext => ?_, fun _ => hpos⟩
  by_contra hlt
  have := hlast _ next hnext (by omega)
  omega

/-- Where the position would fit, it is found if the line reaches that far. -/
theorem exists_position?_eq
    (h : ∀ start, lines.start? place.line = some start → start + place.col < positionLimit) :
    ∃ answer, lines.position? place = .ok answer ∧
      ∀ pos, answer = some pos ↔ lines.Reaches place pos := by
  cases hstart : lines.start? place.line with
  | none =>
      refine ⟨none, by rw [position?, hstart], fun pos => ?_⟩
      refine iff_of_false nofun ?_
      rintro ⟨start, hsome, -⟩
      rw [hstart] at hsome
      cases hsome
  | some start =>
      have hfits : ¬positionLimit ≤ start + place.col := Nat.not_le_of_lt (h start hstart)
      refine ⟨_, by simp only [position?, hstart, if_neg hfits]; rfl, fun pos => ?_⟩
      simp only [Reaches, hstart, Option.some.injEq, exists_eq_left']
      rw [Option.ite_none_right_eq_some, Option.some.injEq]
      cases hnext : lines.start? (place.line + 1) with
      | none => simp +contextual [and_comm, eq_comm]
      | some next => simp +contextual [and_comm, eq_comm]

theorem Reaches.position?_eq (h : lines.Reaches place pos) (hfits : pos < positionLimit) :
    lines.position? place = .ok (some pos) := by
  have hplace : ∀ start, lines.start? place.line = some start →
      start + place.col < positionLimit := by
    intro start hstart
    obtain ⟨start', hstart', rfl, -⟩ := h
    obtain rfl := Option.some.inj (hstart.symm.trans hstart')
    exact hfits
  obtain ⟨answer, hanswer, hiff⟩ := exists_position?_eq hplace
  rw [hanswer, (hiff pos).mpr h]

/-! ## The order of places -/

theorem Names.line_le (h : lines.Names place pos) (h' : lines.Names place' pos')
    (hle : pos ≤ pos') : place.line ≤ place'.line := by
  obtain ⟨start, hstart, hcol, -⟩ := h
  obtain ⟨-, -, -, hlast⟩ := h'
  exact hlast _ start hstart (by omega)

theorem Names.precedes (h : lines.Names place pos) (h' : lines.Names place' pos')
    (hlt : pos < pos') : place.Precedes place' := by
  rcases Nat.lt_or_eq_of_le (h.line_le h' (Nat.le_of_lt hlt)) with hline | hline
  · exact .inl hline
  · obtain ⟨start, hstart, hcol, -⟩ := h
    obtain ⟨start', hstart', hcol', -⟩ := h'
    rw [hline] at hstart
    obtain rfl := Option.some.inj (hstart.symm.trans hstart')
    exact .inr ⟨hline, by omega⟩

theorem Ordered.start_le (h : lines.Ordered) {i j s t : Nat} (hs : lines.start? i = some s)
    (ht : lines.start? j = some t) (hij : i ≤ j) : s ≤ t := by
  rcases Nat.lt_or_eq_of_le hij with hlt | rfl
  · obtain ⟨hi, rfl⟩ := List.getElem?_eq_some_iff.mp hs
    obtain ⟨hj, rfl⟩ := List.getElem?_eq_some_iff.mp ht
    exact Nat.le_of_lt (List.pairwise_iff_getElem.mp h.rising i j hi hj hlt)
  · exact Nat.le_of_eq (Option.some.inj (hs.symm.trans ht))

/-- Positions are on one line if no line starts between them. -/
theorem Ordered.line_eq_iff (hordered : lines.Ordered) (h : lines.Names place pos)
    (h' : lines.Names place' pos') (hle : pos ≤ pos') :
    place.line = place'.line ↔ ∀ s ∈ lines.starts, s ≤ pos' → s ≤ pos := by
  have hline := h.line_le h' hle
  obtain ⟨start, hstart, hcol, hlast⟩ := h
  obtain ⟨start', hstart', hcol', hlast'⟩ := h'
  constructor
  · intro heq s hs hspos'
    obtain ⟨i, hi⟩ := List.mem_iff_getElem?.mp hs
    have hsstart := hordered.start_le hi hstart (heq ▸ hlast' i s hi hspos')
    omega
  · intro hnone
    have hstartpos := hnone start' (List.mem_of_getElem? hstart') (by omega)
    exact Nat.le_antisymm hline (hlast _ start' hstart' hstartpos)

end

/-! ## Texts -/

/-- A stretch of text that no line feed follows lies on one line if it holds no line break. -/
theorem line_ofText_eq_iff {text : String} {front mid back : List Char}
    (htext : text.toList = front ++ mid ++ back) (hback : back.head? ≠ some '\n') :
    ((ofText text).lineCol (byteLength front)).line =
        ((ofText text).lineCol (byteLength (front ++ mid))).line ↔
      ∀ c ∈ mid, isLineBreak c = false := by
  have hsize : byteLength (front ++ mid) ≤ (ofText text).length := by
    show _ ≤ text.utf8ByteSize
    rw [← byteLength_toList, htext, byteLength_append (front ++ mid)]
    exact Nat.le_add_right _ _
  have hle : byteLength front ≤ byteLength (front ++ mid) := by
    rw [byteLength_append]
    exact Nat.le_add_right _ _
  have hordered := ordered_ofText text
  rw [hordered.line_eq_iff (hordered.names_lineCol (Nat.le_trans hle hsize))
    (hordered.names_lineCol hsize) hle]
  constructor
  · intro hnone c hc
    by_contra hbreak
    obtain ⟨before, behind, rfl, hends⟩ := exists_endsLine hc (by simpa using hbreak) hback
    have hne : before ≠ [] := by
      rintro rfl
      exact not_endsLine_nil _ hends
    have hstart : StartsBehind 0 text.toList (byteLength (front ++ before)) := by
      refine ⟨front ++ before, behind ++ back, ?_, Nat.zero_add _, (endsLine_append hne).mpr hends⟩
      rw [htext, List.append_assoc, List.append_assoc, List.append_assoc]
    have hbefore := hnone _ (mem_starts_ofText.mpr (.inr hstart))
      (by simp only [byteLength_append]; omega)
    refine hne (eq_nil_of_byteLength_eq_zero ?_)
    rw [byteLength_append] at hbefore
    omega
  · intro hnone s hs hspos
    by_contra hlt
    rcases mem_starts_ofText.mp hs with rfl | ⟨before, behind, hsplit, rfl, hends⟩
    · exact hlt (Nat.zero_le _)
    rw [Nat.zero_add] at hspos hlt
    -- The line ends within the stretch.
    obtain ⟨more, rfl, hmore⟩ := exists_append_of_byteLength_le
      ((List.append_assoc _ _ _ ▸ htext).symm.trans hsplit) (Nat.le_of_not_le hlt)
    obtain ⟨rest, rfl, -⟩ := exists_append_of_byteLength_le (hmore.symm) (by
      simp only [byteLength_append] at hspos
      omega)
    have hne : more ≠ [] := by
      rintro rfl
      exact hlt (by simp)
    obtain ⟨last, c, rfl, hbreak⟩ := ((endsLine_append hne).mp hends).exists_break
    exact absurd (hnone c (by simp)) (by simp [hbreak])

/-- **Lines and columns are places.** The lines of a text start at its beginning and behind
each line end, a pair of carriage return and line feed being one. Their starts rise within
the text. Each position has the last line that starts at or before it and the way from
there, and is found again by them; later positions have later places, and those behind the
end the place of the end. A line and column lead to the position that far behind the start
of the line, unless there is no such line or it does not reach that far. -/
theorem ofText_places (text : String) (hsize : text.utf8ByteSize < positionLimit) :
    ((ofText text).count + pairCount text.toList =
        text.toList.count '\n' + text.toList.count '\r' + 1 ∧
      (∀ s, s ∈ (ofText text).starts ↔ s = 0 ∨ StartsBehind 0 text.toList s) ∧
      (ofText text).Ordered ∧ (ofText text).length = text.utf8ByteSize) ∧
    (∀ pos ≤ text.utf8ByteSize, (ofText text).Names ((ofText text).lineCol pos) pos ∧
      (ofText text).position? ((ofText text).lineCol pos) = .ok (some pos)) ∧
    (∀ pos pos', pos < pos' → pos' ≤ text.utf8ByteSize →
      ((ofText text).lineCol pos).Precedes ((ofText text).lineCol pos')) ∧
    (∀ pos, text.utf8ByteSize ≤ pos →
      (ofText text).lineCol pos = (ofText text).lineCol text.utf8ByteSize) ∧
    ∀ place, (∀ start, (ofText text).start? place.line = some start →
        start + place.col < positionLimit) →
      ∃ answer, (ofText text).position? place = .ok answer ∧
        ∀ pos, answer = some pos ↔ (ofText text).Reaches place pos := by
  have hordered := ordered_ofText text
  have hnames : ∀ pos ≤ text.utf8ByteSize, (ofText text).Names ((ofText text).lineCol pos) pos :=
    fun _ hpos => hordered.names_lineCol hpos
  refine ⟨⟨?_, fun _ => mem_starts_ofText, hordered, rfl⟩, fun pos hpos => ⟨hnames pos hpos, ?_⟩,
    fun pos pos' hlt hpos' => ?_, fun _ hpos => lineCol_of_le hpos, fun _ => exists_position?_eq⟩
  · have hlength := length_laterStarts 0 text.toList
    simp only [count, ofText, List.length_cons]
    omega
  · exact ((hnames pos hpos).reaches hpos).position?_eq (Nat.lt_of_le_of_lt hpos hsize)
  · exact (hnames pos (by omega)).precedes (hnames pos' hpos') hlt

/-- A text with all three line ends: a position within a pair, the end of the text, a
position behind it, and a column at the start of the next line. -/
theorem ofText_places_mixed :
    "a\r\nβ\r\r\n".utf8ByteSize < positionLimit ∧
    (ofText "a\r\nβ\r\r\n").starts = [0, 3, 6, 8] ∧
    (ofText "a\r\nβ\r\r\n").count + 2 = 2 + 3 + 1 ∧
    (ofText "a\r\nβ\r\r\n").position? ((ofText "a\r\nβ\r\r\n").lineCol 2) = .ok (some 2) ∧
    ((ofText "a\r\nβ\r\r\n").lineCol 7).Precedes ((ofText "a\r\nβ\r\r\n").lineCol 8) ∧
    (ofText "a\r\nβ\r\r\n").lineCol 100 = ⟨3, 0⟩ ∧
    (ofText "a\r\nβ\r\r\n").position? ⟨0, 3⟩ = .ok (some 3) := by
  have hsize : "a\r\nβ\r\r\n".utf8ByteSize = 8 := by decide +kernel
  have hstarts : (ofText "a\r\nβ\r\r\n").starts = [0, 3, 6, 8] := by decide +kernel
  obtain ⟨⟨hcount, -⟩, hfound, hrising, hbehind, hplaces⟩ :=
    ofText_places "a\r\nβ\r\r\n" (by rw [hsize]; decide)
  rw [hsize] at hfound hrising hbehind
  have hstart : ∀ start, (ofText "a\r\nβ\r\r\n").start? 0 = some start →
      start + 3 < positionLimit := by
    rintro start hsome
    rw [start?, hstarts] at hsome
    cases hsome
    decide
  obtain ⟨answer, hanswer, hreaches⟩ := hplaces ⟨0, 3⟩ hstart
  have hreached : answer = some 3 := by
    refine (hreaches 3).mpr ⟨0, by rw [start?, hstarts]; rfl, rfl, ?_, ?_⟩
    all_goals rw [start?, hstarts]
    · rintro next ⟨⟩
      exact Nat.le_refl 3
    · nofun
  refine ⟨by rw [hsize]; decide, hstarts, hcount, (hfound 2 (by decide)).2,
    hrising 7 8 (by decide) (Nat.le_refl 8), ?_, hreached ▸ hanswer⟩
  rw [hbehind 100 (by decide)]
  decide +kernel

end Lines

end CSharpKit.Text
