import CSharpKit.Proofs.Syntax.ExpressionReading
import CSharpKit.Proofs.Syntax.Leaves
import CSharpKit.Proofs.Syntax.Trivia

/-!
# Where complaints are made

A complaint is always about the next token that counts, and reading only moves on. So the
complaints of a run come in the order of the text. A node for what could not be read is
opened together with a complaint; when it is closed, the token of that complaint was either
read into it or is still the next one.

`Located` says this of a state. It is kept by each single step of a parser, and hence by
every parser that is put together from such steps.
-/

namespace CSharpKit.Syntax

open Syntax.Tree CSharpKit.Syntax.Parser Text

/-! ## Tokens in a row -/

namespace Token

/-- The bytes that tokens in a row take. -/
def rowWidth (ts : List Token) : Nat := leavesWidth (ts.map leaf)

/-- The tokens stand side by side from a position on, and only the last one may be empty. -/
def Tiled : Nat → List Token → Prop
  | _, [] => True
  | pos, t :: ts => t.start = pos ∧ (ts ≠ [] → t.start < t.span.stop) ∧ Tiled t.span.stop ts

theorem rowWidth_append (xs ys : List Token) : rowWidth (xs ++ ys) = rowWidth xs + rowWidth ys := by
  simp [rowWidth]

theorem rowWidth_cons (t : Token) (ts : List Token) :
    rowWidth (t :: ts) = t.text.utf8ByteSize + rowWidth ts := by
  simp [rowWidth, leavesWidth, leaf]

theorem Tiled.append {xs ys : List Token} {pos : Nat} (h : Tiled pos (xs ++ ys)) :
    Tiled (pos + rowWidth xs) ys := by
  induction xs generalizing pos with
  | nil => exact h
  | cons t xs ih =>
      obtain ⟨rfl, -, hrest⟩ := h
      rw [rowWidth_cons, ← Nat.add_assoc]
      exact ih hrest

/-- The tokens stand behind the position at which the first of them starts. -/
theorem Tiled.le_start {ts : List Token} {pos : Nat} (h : Tiled pos ts) :
    ∀ t ∈ ts, pos ≤ t.start := by
  induction ts generalizing pos with
  | nil => exact List.forall_mem_nil _
  | cons t ts ih =>
      obtain ⟨rfl, -, hrest⟩ := h
      refine List.forall_mem_cons.mpr ⟨Nat.le_refl _, fun u hu => ?_⟩
      exact Nat.le_trans t.span.start_le_stop (ih hrest u hu)

/-- Tokens before others are not empty and end before these start. -/
theorem Tiled.stop_le {xs ys : List Token} {pos : Nat} (h : Tiled pos (xs ++ ys)) (hys : ys ≠ []) :
    ∀ t ∈ xs, t.start < t.span.stop ∧ t.span.stop ≤ pos + rowWidth xs := by
  induction xs generalizing pos with
  | nil => exact List.forall_mem_nil _
  | cons t xs ih =>
      obtain ⟨rfl, hpos, hrest⟩ := h
      have hsum : t.start + rowWidth (t :: xs) = t.span.stop + rowWidth xs := by
        rw [rowWidth_cons, ← Nat.add_assoc]
        rfl
      rw [hsum]
      refine List.forall_mem_cons.mpr ⟨⟨hpos (by simp [hys]), Nat.le_add_right _ _⟩, fun u hu => ?_⟩
      exact ih hrest u hu

theorem tiled_lexFrom (lineStart : Bool) (start : Nat) (cs : List Char) :
    Tiled start (lexFrom lineStart start cs) := by
  fun_induction lexFrom lineStart start cs with
  | case1 => exact ⟨rfl, fun h => absurd rfl h, trivial⟩
  | case2 lineStart start c rest kind n hscan chars token ih =>
      refine ⟨rfl, fun _ => ?_, ih⟩
      have hwidth : 0 < token.text.utf8ByteSize := by
        refine Nat.pos_of_ne_zero fun hzero => ?_
        have hempty : String.ofList chars = "" := String.utf8ByteSize_eq_zero_iff.mp hzero
        simpa [chars] using congrArg String.toList hempty
      exact Nat.lt_add_of_pos_right hwidth

end Token

/-! ## Nodes at their places -/

namespace Tree

mutual

/-- Every node of a tree that starts at a position has the property `P` of its kind and
its span. -/
def AllAt (P : Kind → Span → Prop) (start : Nat) : Tree → Prop
  | .node k cs => P k ⟨start, forestWidth cs⟩ ∧ AllAtIn P start cs
  | .token _ _ => True

/-- Every node of trees in a row, the first of which starts at a position. -/
def AllAtIn (P : Kind → Span → Prop) (start : Nat) : Forest → Prop
  | [] => True
  | t :: ts => AllAt P start t ∧ AllAtIn P (start + t.width) ts

end

variable {P Q : Kind → Span → Prop}

mutual

theorem AllAt.imp (h : ∀ k span, P k span → Q k span) :
    ∀ {t : Tree} {start : Nat}, AllAt P start t → AllAt Q start t
  | .token _ _, _, _ => trivial
  | .node _ _, _, hnode => ⟨h _ _ hnode.1, AllAtIn.imp h hnode.2⟩

theorem AllAtIn.imp (h : ∀ k span, P k span → Q k span) :
    ∀ {ts : Forest} {start : Nat}, AllAtIn P start ts → AllAtIn Q start ts
  | [], _, _ => trivial
  | _ :: _, _, hrow => ⟨AllAt.imp h hrow.1, AllAtIn.imp h hrow.2⟩

end

theorem allAtIn_append {xs ys : Forest} {start : Nat} : AllAtIn P start (xs ++ ys) ↔
    AllAtIn P start xs ∧ AllAtIn P (start + forestWidth xs) ys := by
  induction xs generalizing start with
  | nil => simp [AllAtIn, forestWidth]
  | cons t xs ih => simp [AllAtIn, ih, forestWidth, and_assoc, Nat.add_assoc]

/-- Nothing is said of tokens. -/
theorem allAtIn_tokens {ts : Forest} (h : ∀ t ∈ ts, t.isToken = true) (start : Nat) :
    AllAtIn P start ts := by
  induction ts generalizing start with
  | nil => exact trivial
  | cons t ts ih =>
      obtain ⟨ht, hts⟩ := List.forall_mem_cons.mp h
      cases t with
      | node k cs => cases ht
      | token k text => exact ⟨trivial, ih hts _⟩

end Tree

/-! ## States -/

section

variable {all : List Token} {e : ParseError} {t : Token} {s s' : ParserState}

/-- A complaint about a token that is not behind the next one ahead. -/
structure About (all rest : List Token) (e : ParseError) (t : Token) : Prop where
  mem : t ∈ all
  plain : t.isTrivia = false
  span : e.span = t.span
  due : ∀ u ∈ rest, u.isTrivia = false → t.start ≤ u.start

/-- Some complaint is about a token inside a stretch of the text, or about the first token
behind it that is no trivia. -/
def Blamed (all : List Token) (errors : List ParseError) (span : Span) : Prop :=
  ∃ e ∈ errors, ∃ t ∈ all, t.isTrivia = false ∧ e.span = t.span ∧ span.start ≤ t.span.start ∧
    (t.span.stop ≤ span.stop ∨ span.stop ≤ t.span.start ∧
      ∀ u ∈ all, u.isTrivia = false → span.stop ≤ u.span.start → t.span.start ≤ u.span.start)

/-- What is known of the nodes in the trees of a reader: errors are blamed. -/
def BlamedAt (all : List Token) (errors : List ParseError) (k : Kind) (span : Span) : Prop :=
  k = .error → Blamed all errors span

namespace Builder

/-- The finished trees from left to right. -/
def forest (b : Builder) : Forest := b.done.reverse

/-- A closed node has the trees since its first one. -/
theorem finishNode?_eq_some {b b' : Builder} (h : b.finishNode? = some b') :
    ∃ k first, b.opened = (k, first) :: b'.opened ∧
      b'.forest = b.forest.take first ++ [.node k (b.forest.drop first)] := by
  unfold finishNode? at h
  split at h
  · cases h
  · next k first outer hopened =>
    split at h
    · next hfirst =>
      cases h
      refine ⟨k, first, hopened, ?_⟩
      have hlength : first ≤ b.done.length := hfirst
      have hfront : (b.done.drop (b.mark - first)).reverse = b.forest.take first := by
        rw [List.reverse_drop, forest, mark, Nat.sub_sub_self hlength]
      have hchildren : (b.done.take (b.mark - first)).reverse = b.forest.drop first := by
        rw [List.reverse_take, forest, mark, Nat.sub_sub_self hlength]
      rw [forest, List.reverse_cons, hfront, hchildren]
    · cases h

end Builder

/-- In a state of a reader of some tokens, the tokens that were read stand in the trees. The
complaints are about tokens that count, in their order, and none is about a token behind
the next one. For each node of an error there is a complaint about it, or, as long as it is
open, one about a token from its start on. -/
structure Located (all : List Token) (s : ParserState) : Prop where
  tiled : Token.Tiled 0 all
  ended : Ended s.rest
  read : ∃ front, all = front ++ s.rest ∧ Token.rowWidth front = forestWidth s.builder.forest
  about : ∀ e ∈ s.errors, ∃ t, About all s.rest e t
  sorted : s.errors.Pairwise fun newer older => older.span.start ≤ newer.span.start
  nested : s.builder.opened.Pairwise fun inner outer => outer.2 ≤ inner.2
  inside : ∀ o ∈ s.builder.opened, o.2 ≤ s.builder.forest.length
  blamed : AllAtIn (BlamedAt all s.errors) 0 s.builder.forest
  awaited : ∀ o ∈ s.builder.opened, o.1 = .error → ∃ e ∈ s.errors, ∃ t, About all s.rest e t ∧
    forestWidth (s.builder.forest.take o.2) ≤ t.start

theorem About.suffix {rest rest' : List Token} (h : About all rest e t) (hrest : rest' <:+ rest) :
    About all rest' e t :=
  ⟨h.mem, h.plain, h.span, fun u hu => h.due u (hrest.subset hu)⟩

theorem BlamedAt.mono {errors errors' : List ParseError} {k : Kind} {span : Span}
    (hsub : errors ⊆ errors') (h : BlamedAt all errors k span) : BlamedAt all errors' k span := by
  intro hk
  obtain ⟨e, he, hrest⟩ := h hk
  exact ⟨e, hsub he, hrest⟩

namespace Located

/-- The tokens ahead start where the trees end. -/
theorem le_start (h : Located all s) :
    ∀ t ∈ s.rest, forestWidth s.builder.forest ≤ t.start := by
  obtain ⟨front, hall, hwidth⟩ := h.read
  have htiled : Token.Tiled (0 + Token.rowWidth front) s.rest := (hall ▸ h.tiled).append
  rw [Nat.zero_add, hwidth] at htiled
  exact htiled.le_start

/-- The next token that counts, which a complaint is about. -/
theorem exists_next (h : Located all s) : ∃ t rest, Lookahead.significant s.rest = t :: rest ∧
    t ∈ s.rest ∧ ∀ message, About all s.rest ⟨message, t.span⟩ t := by
  obtain ⟨t, rest, hnext⟩ := List.exists_cons_of_ne_nil h.ended.significant_ne_nil
  obtain ⟨front, hall, -⟩ := h.read
  have hsplit : s.rest = s.rest.takeWhile Token.isTrivia ++ t :: rest := by
    rw [← hnext]
    exact List.takeWhile_append_dropWhile.symm
  have hmem : t ∈ s.rest := by
    rw [hsplit]
    exact List.mem_append_right _ List.mem_cons_self
  have htrivia : ∀ u ∈ s.rest.takeWhile Token.isTrivia, u.isTrivia = true :=
    fun u hu => List.mem_takeWhile_imp hu
  refine ⟨t, rest, hnext, hmem, fun message => ⟨?_, ?_, rfl, fun u hu hplain => ?_⟩⟩
  · rw [hall]
    exact List.mem_append_right _ hmem
  · exact not_isTrivia_of_significant hnext
  · have htiled : Token.Tiled 0 (front ++ s.rest.takeWhile Token.isTrivia ++ t :: rest) := by
      rw [List.append_assoc, ← hsplit, ← hall]
      exact h.tiled
    obtain ⟨hstart, -, hrest⟩ := htiled.append
    rw [hsplit, List.mem_append] at hu
    rcases hu with hu | hu
    · rw [htrivia u hu] at hplain
      cases hplain
    · rcases List.mem_cons.mp hu with rfl | hu
      · exact Nat.le_refl _
      · exact Nat.le_trans t.span.start_le_stop (hrest.le_start u hu)

/-- Reading on puts tokens from the rest into the trees. -/
theorem reads {new : Forest} (h : Located all s) (hext : Extends s s' new)
    (hnew : ∀ t ∈ new, t.isToken = true) (herrors : s'.errors = s.errors) : Located all s' := by
  have hforest : s'.builder.forest = s.builder.forest ++ new := by
    simp [Builder.forest, hext.done]
  obtain ⟨front, hall, hwidth⟩ := h.read
  obtain ⟨tokens, hrest, hleaves, -⟩ := hext.taken
  have hnewWidth : forestWidth new = Token.rowWidth tokens := by
    rw [← leavesWidth_forestLeaves, hleaves, Token.rowWidth]
  refine ⟨h.tiled, hext.ended h.ended, ⟨front ++ tokens, ?_, ?_⟩, ?_, herrors ▸ h.sorted, ?_, ?_, ?_, ?_⟩
  · rw [hall, hrest, List.append_assoc]
  · rw [Token.rowWidth_append, hforest, forestWidth_append, hwidth, hnewWidth]
  · intro e he
    obtain ⟨t, ht⟩ := h.about e (herrors ▸ he)
    exact ⟨t, ht.suffix hext.suffix⟩
  · rw [hext.opened]
    exact h.nested
  · intro o ho
    rw [hforest, List.length_append]
    exact Nat.le_add_right_of_le (h.inside o (hext.opened ▸ ho))
  · rw [hforest, herrors, allAtIn_append]
    exact ⟨h.blamed, allAtIn_tokens hnew _⟩
  · intro o ho hk
    rw [hext.opened] at ho
    obtain ⟨e, he, t, ht, hle⟩ := h.awaited o ho hk
    refine ⟨e, herrors ▸ he, t, ht.suffix hext.suffix, ?_⟩
    rwa [hforest, List.take_append_of_le_length (h.inside o ho)]

/-- A complaint is about the next token, so it comes behind all others. -/
theorem complains (h : Located all s) (message : String) :
    Located all ((complain message).run s).2 := by
  obtain ⟨t, rest, hnext, hmem, habout⟩ := h.exists_next
  have hrun : ((complain message).run s).2 = { s with errors := ⟨message, t.span⟩ :: s.errors } := by
    rw [complain_run, hnext]
    rfl
  rw [hrun]
  have hsub : s.errors ⊆ ⟨message, t.span⟩ :: s.errors := List.subset_cons_self _ _
  refine ⟨h.tiled, h.ended, h.read, ?_, ?_, h.nested, h.inside, ?_, fun o ho hk => ?_⟩
  · exact List.forall_mem_cons.mpr ⟨⟨t, habout message⟩, h.about⟩
  · refine List.pairwise_cons.mpr ⟨fun e he => ?_, h.sorted⟩
    obtain ⟨u, hu⟩ := h.about e he
    rw [hu.span]
    exact hu.due t hmem (habout message).plain
  · exact AllAtIn.imp (fun _ _ => BlamedAt.mono hsub) h.blamed
  · obtain ⟨e, he, hrest⟩ := h.awaited o ho hk
    exact ⟨e, hsub he, hrest⟩

/-- A node may open at a mark that lies in the open one, for an error behind a complaint. -/
theorem opens {kind : Kind} {first : Nat} (h : Located all s)
    (hadmits : s.builder.admits first = true)
    (hawaited : kind = .error → ∃ e ∈ s.errors, ∃ t, About all s.rest e t ∧
      forestWidth (s.builder.forest.take first) ≤ t.start) :
    Located all (opening s kind first) := by
  simp only [Builder.admits, Bool.and_eq_true, decide_eq_true_eq] at hadmits
  have hfirst : first ≤ s.builder.forest.length := by
    rw [Builder.forest, List.length_reverse]
    exact hadmits.1
  have houter : ∀ o ∈ s.builder.opened, o.2 ≤ first := by
    have hnested := h.nested
    have hhead := hadmits.2
    cases hopened : s.builder.opened with
    | nil => exact List.forall_mem_nil _
    | cons top outer =>
        rw [hopened] at hnested hhead
        have htop : top.2 ≤ first := by simpa using hhead
        refine List.forall_mem_cons.mpr ⟨htop, fun o ho => ?_⟩
        exact Nat.le_trans ((List.pairwise_cons.mp hnested).1 o ho) htop
  refine ⟨h.tiled, h.ended, h.read, h.about, h.sorted, ?_, ?_, h.blamed, ?_⟩
  · exact List.pairwise_cons.mpr ⟨houter, h.nested⟩
  · exact List.forall_mem_cons.mpr ⟨hfirst, h.inside⟩
  · exact List.forall_mem_cons.mpr ⟨hawaited, h.awaited⟩

/-- The place of the next tree lies in the open node. -/
theorem sound (h : Located all s) : Sound s := by
  have hinside := h.inside
  rw [Builder.forest, List.length_reverse] at hinside
  simp only [Sound, Builder.admits, Nat.le_refl, decide_true, Bool.true_and]
  cases hopened : s.builder.opened with
  | nil => rfl
  | cons top outer => exact decide_eq_true (hinside top (by simp [hopened]))

/-- A node for an error opens together with a complaint. -/
theorem opens_error {first : Nat} (h : Located all s) (hadmits : s.builder.admits first = true)
    (message : String) : Located all ((complain message).run (opening s .error first)).2 := by
  obtain ⟨t, rest, hnext, hmem, habout⟩ := h.exists_next
  have hrun : ((complain message).run (opening s .error first)).2 =
      opening ((complain message).run s).2 .error first := by
    have hsame : (Lookahead.significant (opening s .error first).rest).head? = some t :=
      congrArg List.head? hnext
    rw [complain_run, complain_run, hsame, hnext]
    rfl
  have hcomplaint : ((complain message).run s).2 = { s with errors := ⟨message, t.span⟩ :: s.errors } := by
    rw [complain_run, hnext]
    rfl
  rw [hrun]
  refine (h.complains message).opens ?_ fun _ => ?_
  · rw [hcomplaint]
    exact hadmits
  · rw [hcomplaint]
    refine ⟨_, List.mem_cons_self, t, habout message, ?_⟩
    exact Nat.le_trans (forestWidth_take_le _ _) (h.le_start t hmem)

/-- A closed node of an error is blamed: the token of the complaint was read into it, or it
is the next one. -/
theorem blamed_of_about {first : Nat} {e : ParseError} (h : Located all s) (he : e ∈ s.errors)
    (habout : About all s.rest e t) (hle : forestWidth (s.builder.forest.take first) ≤ t.start) :
    Blamed all s.errors
      ⟨forestWidth (s.builder.forest.take first), forestWidth (s.builder.forest.drop first)⟩ := by
  have hstop : forestWidth (s.builder.forest.take first) + forestWidth (s.builder.forest.drop first) =
      forestWidth s.builder.forest := by
    rw [← forestWidth_append, List.take_append_drop]
  obtain ⟨front, hall, hwidth⟩ := h.read
  have hrest : s.rest ≠ [] := fun hnil => h.ended.significant_ne_nil (by rw [hnil]; rfl)
  have hfront : ∀ u ∈ front, u.start < u.span.stop ∧ u.span.stop ≤ forestWidth s.builder.forest := by
    have hread := (hall ▸ h.tiled : Token.Tiled 0 (front ++ s.rest)).stop_le hrest
    rwa [Nat.zero_add, hwidth] at hread
  refine ⟨e, he, t, habout.mem, habout.plain, habout.span, hle, ?_⟩
  simp only [Span.stop, hstop]
  have hmem := habout.mem
  rw [hall, List.mem_append] at hmem
  rcases hmem with hmem | hmem
  · exact .inl (hfront t hmem).2
  · refine .inr ⟨h.le_start t hmem, fun u hu hplain hbehind => ?_⟩
    rw [hall, List.mem_append] at hu
    rcases hu with hu | hu
    · obtain ⟨hlt, hstop⟩ := hfront u hu
      exact absurd hbehind (Nat.not_le_of_lt (Nat.lt_of_lt_of_le hlt hstop))
    · exact habout.due u hu hplain

/-- The faults do not matter. -/
theorem of_same (h : Located all s) (hrest : s'.rest = s.rest) (hbuilder : s'.builder = s.builder)
    (herrors : s'.errors = s.errors) : Located all s' := by
  obtain ⟨rest, builder, errors, faults⟩ := s'
  obtain rfl : rest = s.rest := hrest
  obtain rfl : builder = s.builder := hbuilder
  obtain rfl : errors = s.errors := herrors
  exact ⟨h.tiled, h.ended, h.read, h.about, h.sorted, h.nested, h.inside, h.blamed, h.awaited⟩

/-- Closing a node makes one tree of those since its first one. -/
theorem closes (h : Located all s) : Located all (finishNode.run s).2 := by
  cases hclose : s.builder.finishNode? with
  | none =>
      have hrun : (finishNode.run s).2 = { s with faults := .nothingToFinish :: s.faults } := by
        simp only [finishNode, build, StateT.run_modify, hclose]
        rfl
      rw [hrun]
      exact h.of_same rfl rfl rfl
  | some builder =>
      rw [finishNode, run_build hclose]
      obtain ⟨k, first, hopened, hforest⟩ := Builder.finishNode?_eq_some hclose
      obtain ⟨front, hall, hwidth⟩ := h.read
      have hnested := h.nested
      have hinside := h.inside
      have hawaited := h.awaited
      have hblamed := h.blamed
      rw [hopened] at hnested hinside hawaited
      obtain ⟨houter, hnested⟩ := List.pairwise_cons.mp hnested
      obtain ⟨hfirst, -⟩ := List.forall_mem_cons.mp hinside
      obtain ⟨htop, hawaited⟩ := List.forall_mem_cons.mp hawaited
      have hsplit : s.builder.forest.take first ++ s.builder.forest.drop first = s.builder.forest :=
        List.take_append_drop first _
      rw [← hsplit, allAtIn_append, Nat.zero_add] at hblamed
      have hlength : (s.builder.forest.take first).length = first :=
        List.length_take_of_le hfirst
      refine ⟨h.tiled, h.ended, ⟨front, hall, ?_⟩, h.about, h.sorted, hnested, fun o ho => ?_, ?_,
        fun o ho hk => ?_⟩
      · calc Token.rowWidth front
            = forestWidth (s.builder.forest.take first ++ s.builder.forest.drop first) := by
              rw [hwidth, hsplit]
          _ = forestWidth builder.forest := by
              rw [hforest, forestWidth_append, forestWidth_append]
              simp [forestWidth, width]
      · rw [hforest, List.length_append, hlength]
        exact Nat.le_add_right_of_le (houter o ho)
      · rw [hforest, allAtIn_append, Nat.zero_add]
        refine ⟨hblamed.1, ⟨fun hk => ?_, hblamed.2⟩, trivial⟩
        obtain ⟨e, he, t, ht, hle⟩ := htop hk
        exact h.blamed_of_about he ht hle
      · obtain ⟨e, he, t, ht, hle⟩ := hawaited o ho hk
        refine ⟨e, he, t, ht, ?_⟩
        have htake : builder.forest.take o.2 = s.builder.forest.take o.2 := by
          rw [hforest, List.take_append_of_le_length (hlength.symm ▸ houter o ho), List.take_take,
            Nat.min_eq_left (houter o ho)]
        rwa [htake]

end Located

end

/-! ## Parsers -/

namespace Parser

variable {α β : Type} {all : List Token} {C C' : List Token → Prop}

/-- A parser keeps what is known of the complaints, if the tokens ahead are as `C` says. -/
def LocatesIf (all : List Token) (C : List Token → Prop) (p : Parser α) : Prop :=
  ∀ s, Located all s → C s.rest → Located all (p.run s).2

abbrev Locates (all : List Token) (p : Parser α) : Prop := LocatesIf all (fun _ => True) p

namespace LocatesIf

variable {p q : Parser α} {f : α → Parser β}

theorem under (h : Locates all p) : LocatesIf all C p := fun s hs _ => h s hs trivial

theorem pure (a : α) : LocatesIf all C (Pure.pure a : Parser α) := fun _ hs _ => hs

theorem bind (hp : LocatesIf all C p) (hf : ∀ a, Locates all (f a)) :
    LocatesIf all C (p >>= f) := fun s hs hc => hf _ _ (hp s hs hc) trivial

/-- What follows a parser knows how it leaves the tokens ahead. -/
theorem seq (hp : LocatesIf all C p) (hleaves : ∀ s, C s.rest → C' (p.run s).2.rest)
    (hf : ∀ a, LocatesIf all C' (f a)) : LocatesIf all C (p >>= f) :=
  fun s hs hc => hf _ _ (hp s hs hc) (hleaves s hc)

theorem get_bind {f : ParserState → Parser β} (hf : ∀ s, LocatesIf all C (f s)) :
    LocatesIf all C (get >>= f) := fun s => hf s s

/-- What follows a question knows the answer. -/
theorem ask_bind {question : List Token → α}
    (hf : ∀ a, LocatesIf all (fun ts => C ts ∧ question ts = a) (f a)) :
    LocatesIf all C (ask question >>= f) := fun s hs hc => hf _ s hs ⟨hc, rfl⟩

theorem ask (question : List Token → α) : LocatesIf all C (ask question) := fun _ hs _ => hs

theorem ite {c : Prop} [Decidable c] (hp : LocatesIf all C p) (hq : LocatesIf all C q) :
    LocatesIf all C (if c then p else q) := by
  split
  · exact hp
  · exact hq

/-- A part that may be left out. -/
theorem opt {c : Prop} [Decidable c] {p : Parser Unit} {f : Unit → Parser β} (hp : Locates all p)
    (hf : ∀ u, Locates all (f u)) : LocatesIf all C (if c then p >>= f else f ()) :=
  ite (hp.under.bind hf) (hf ()).under

/-! ### Single tokens -/

theorem flushTrivia : LocatesIf all C flushTrivia := fun s hs _ =>
  hs.reads (extends_flushTrivia s) (triviaAhead_all (fun _ _ _ => rfl) _) rfl

theorem mark : LocatesIf all C mark := fun s hs _ => flushTrivia (C := fun _ => True) s hs trivial

theorem grownSince (start : Nat) : LocatesIf all C (grownSince start) := fun _ hs _ => hs

theorem bump : LocatesIf all C bump := by
  intro s hs _
  by_cases heof : Lookahead.kind s.rest = .eof
  · rw [bump_at_eof heof]
    exact flushTrivia (C := fun _ => True) s hs trivial
  · obtain ⟨new, hext, t, -, -, rfl⟩ := yields_bump heof
    refine hs.reads hext (fun u hu => ?_) (errors_bump s)
    rcases List.mem_append.mp hu with hu | hu
    · exact triviaAhead_all (P := fun t => t.isToken = true) (fun _ _ _ => rfl) _ u hu
    · rw [List.mem_singleton.mp hu]
      rfl

theorem take : LocatesIf all (fun ts => ∃ t rest, ts = t :: rest ∧ t.kind ≠ .eof) take := by
  rintro s hs ⟨t, rest, hrest, hne⟩
  refine hs.reads (extends_take hrest hne).1 (fun u hu => ?_) (by simp [take_run, hrest])
  rw [List.mem_singleton.mp hu]
  rfl

theorem complain (message : String) : LocatesIf all C (complain message) :=
  fun _ hs _ => hs.complains message

theorem skip : LocatesIf all C skip := ask_bind fun _ => ite (pure _) bump

theorem eat (kind : Kind) : LocatesIf all C (eat kind) :=
  ask_bind fun _ => ite (bump.bind fun _ => pure _) (pure _)

theorem expect (kind : Kind) (message : String) : LocatesIf all C (expect kind message) :=
  ask_bind fun _ => ite (bump.bind fun _ => pure _) ((complain message).bind fun _ => pure _)

theorem require (kind : Kind) (message : String) : LocatesIf all C (require kind message) :=
  (expect kind message).bind fun _ => pure _

theorem countDown (n : Nat) : LocatesIf all C (countDown n) := by
  cases n with
  | zero => exact fun s hs _ => hs.of_same rfl rfl rfl
  | succ n => exact pure n

/-! ### Nodes -/

theorem finishNode : LocatesIf all C finishNode := fun _ hs _ => hs.closes

/-- A node opens at its mark, or the builder refuses it. -/
theorem build_startNodeAt? (kind : Kind) (first : Nat) (s : ParserState) :
    ((build .misplacedStart (·.startNodeAt? first kind)).run s).2 = opening s kind first ∧
      s.builder.admits first = true ∨
    ((build .misplacedStart (·.startNodeAt? first kind)).run s).2 =
      { s with faults := .misplacedStart :: s.faults } := by
  by_cases hadmits : s.builder.admits first = true
  · exact .inl ⟨run_build (by rw [Builder.startNodeAt?, if_pos hadmits]), hadmits⟩
  · right
    have hnone : s.builder.startNodeAt? first kind = none := by
      rw [Builder.startNodeAt?, if_neg hadmits]
    simp only [build, StateT.run_modify, hnone]
    rfl

theorem nodeFrom {kind : Kind} {body : Parser Unit} (hkind : kind ≠ .error) (start : Nat)
    (hbody : LocatesIf all C body) : LocatesIf all C (nodeFrom start kind body) := by
  refine seq (fun s hs _ => ?_) (fun s hc => ?_) fun _ => hbody.bind fun _ => finishNode
  · rcases build_startNodeAt? kind start s with ⟨hrun, hadmits⟩ | hrun
    · rw [hrun]
      exact hs.opens hadmits fun hk => absurd hk hkind
    · rw [hrun]
      exact hs.of_same rfl rfl rfl
  · rcases build_startNodeAt? kind start s with ⟨hrun, -⟩ | hrun <;> rwa [hrun]

/-- What could not be read is complained about at once. -/
theorem nodeFrom_error {message : String} {more : Parser Unit} (start : Nat)
    (hmore : Locates all more) :
    LocatesIf all C (Parser.nodeFrom start .error (Parser.complain message >>= fun _ => more)) := by
  have hopens : LocatesIf all C (build .misplacedStart (·.startNodeAt? start .error) >>=
      fun _ => Parser.complain message) := by
    intro s hs _
    show Located all ((Parser.complain message).run
      ((build .misplacedStart (·.startNodeAt? start .error)).run s).2).2
    rcases build_startNodeAt? .error start s with ⟨hrun, hadmits⟩ | hrun
    · rw [hrun]
      exact hs.opens_error hadmits message
    · rw [hrun]
      have hsame : Located all { s with faults := .misplacedStart :: s.faults } :=
        hs.of_same rfl rfl rfl
      exact hsame.complains message
  exact hopens.bind fun _ => hmore.bind fun _ => finishNode

theorem node {kind : Kind} {body : Parser Unit} (hkind : kind ≠ .error) (hbody : Locates all body) :
    LocatesIf all C (node kind body) := by
  have hopens : LocatesIf all C (Parser.flushTrivia >>= fun _ =>
      modify fun s => { s with builder := s.builder.startNode kind }) := fun s hs hc =>
    have hflushed := flushTrivia s hs hc
    hflushed.opens hflushed.sound fun hk => absurd hk hkind
  exact hopens.bind fun _ => hbody.bind fun _ => finishNode

theorem node_error {message : String} {more : Parser Unit} (hmore : Locates all more) :
    LocatesIf all C (Parser.node .error (Parser.complain message >>= fun _ => more)) := by
  have hopens : LocatesIf all C (Parser.flushTrivia >>= fun _ =>
      (modify fun s => { s with builder := s.builder.startNode .error } : Parser Unit) >>= fun _ =>
        Parser.complain message) := fun s hs hc =>
    have hflushed := flushTrivia s hs hc
    hflushed.opens_error hflushed.sound message
  exact hopens.bind fun _ => hmore.bind fun _ => finishNode

/-! ### Repetition -/

theorem loopUpTo {step : Parser Bool} (h : Locates all step) (n : Nat) :
    Locates all (loopUpTo step n) := by
  induction n with
  | zero => exact pure _
  | succ n ih => exact h.bind fun _ => ite ih (pure _)

theorem loop {step : Parser Bool} (h : Locates all step) : LocatesIf all C (loop step) :=
  get_bind fun _ => (loopUpTo h _).under

theorem untilAny {kinds : List Kind} {body : Parser Unit} (h : Locates all body) :
    LocatesIf all C (untilAny kinds body) :=
  loop (ask_bind fun _ => ite (pure _) (h.under.bind fun _ => pure _))

theorem whileAhead {question : List Token → Bool} {body : Parser Unit} (h : Locates all body) :
    LocatesIf all C (whileAhead question body) :=
  loop (ask_bind fun _ => ite (h.under.bind fun _ => pure _) (pure _))

theorem separated {item : Parser Unit} (h : Locates all item) :
    LocatesIf all C (separated item) := loop (h.bind fun _ => eat _)

theorem separatedUntil {kinds : List Kind} {item : Parser Unit} (h : Locates all item) :
    LocatesIf all C (separatedUntil kinds item) :=
  loop (ask_bind fun _ => ite (pure _) (h.under.bind fun _ => eat _))

theorem skipTo (kinds : List Kind) : LocatesIf all C (skipTo kinds) := untilAny bump

end LocatesIf

end Parser

end CSharpKit.Syntax
