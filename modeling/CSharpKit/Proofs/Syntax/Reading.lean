import CSharpKit.Proofs.Syntax.Shape
import CSharpKit.Syntax.Parser
import Mathlib.Data.List.DropRight

/-!
# What a parser reads

`Extends s₀ s new` says what may have happened between two states: tokens moved
from the rest into the trees `new`, none was lost and the end of the text was
not among them, every node that was opened is closed, and no fault came up. All
parsers only ever do this, however they are put together.

A parser that opens a node at a mark reaches back behind the state it starts
in. What it does is said from the state at the mark, so `YieldsFrom` carries
that state along.
-/

namespace CSharpKit.Syntax

open Tree

/-- A token as a tree. -/
def Token.tree (t : Token) : Tree := .token t.kind t.text

/-- A token as a leaf of a tree. -/
def Token.leaf (t : Token) : Kind × String := (t.kind, t.text)

namespace Parser

variable {α β : Type}

/-! ## States -/

/-- The place of the next tree lies in the open node. -/
def Sound (s : ParserState) : Prop := s.builder.admits s.builder.mark = true

/-- The state `s` comes from `s₀` by reading tokens into the trees `new`. -/
structure Extends (s₀ s : ParserState) (new : Forest) : Prop where
  done : s.builder.done = new.reverse ++ s₀.builder.done
  opened : s.builder.opened = s₀.builder.opened
  faults : s.faults = s₀.faults
  taken : ∃ tokens : List Token, s₀.rest = tokens ++ s.rest ∧
    forestLeaves new = tokens.map Token.leaf ∧ ∀ t ∈ tokens, t.kind ≠ .eof

namespace Extends

variable {s₀ s₁ s₂ : ParserState} {new more : Forest}

theorem refl (s : ParserState) : Extends s s [] :=
  ⟨rfl, rfl, rfl, [], rfl, rfl, by simp⟩

theorem trans (h₁ : Extends s₀ s₁ new) (h₂ : Extends s₁ s₂ more) : Extends s₀ s₂ (new ++ more) := by
  obtain ⟨tokens₁, hrest₁, hleaves₁, heof₁⟩ := h₁.taken
  obtain ⟨tokens₂, hrest₂, hleaves₂, heof₂⟩ := h₂.taken
  refine ⟨?_, h₂.opened.trans h₁.opened, h₂.faults.trans h₁.faults, tokens₁ ++ tokens₂, ?_, ?_, ?_⟩
  · rw [h₂.done, h₁.done, List.reverse_append, List.append_assoc]
  · rw [hrest₁, hrest₂, List.append_assoc]
  · rw [forestLeaves_append, hleaves₁, hleaves₂, List.map_append]
  · intro t ht
    rcases List.mem_append.mp ht with ht | ht
    · exact heof₁ t ht
    · exact heof₂ t ht

theorem mark_eq (h : Extends s₀ s₁ new) : s₁.builder.mark = s₀.builder.mark + new.length := by
  simp [Builder.mark, h.done, Nat.add_comm]

theorem admits (h : Extends s₀ s₁ new) (hs : Sound s₀) :
    s₁.builder.admits s₀.builder.mark = true := by
  simp only [Sound, Builder.admits, Bool.and_eq_true, decide_eq_true_eq] at hs ⊢
  rw [h.opened, h.mark_eq]
  exact ⟨Nat.le_add_right .., hs.2⟩

theorem sound (h : Extends s₀ s₁ new) (hs : Sound s₀) : Sound s₁ := by
  simp only [Sound, Builder.admits, Bool.and_eq_true, decide_eq_true_eq] at hs ⊢
  rw [h.opened, h.mark_eq]
  refine ⟨Nat.le_refl _, ?_⟩
  cases hopen : s₀.builder.opened.head? with
  | none => rfl
  | some top =>
      have := hs.2
      simp only [hopen, Option.all_some, decide_eq_true_eq] at this ⊢
      omega

theorem suffix (h : Extends s₀ s₁ new) : s₁.rest <:+ s₀.rest := by
  obtain ⟨tokens, hrest, -⟩ := h.taken
  exact ⟨tokens, hrest.symm⟩

/-- Only the complaints differ. -/
theorem of_same {s s' : ParserState} (hrest : s'.rest = s.rest) (hbuilder : s'.builder = s.builder)
    (hfaults : s'.faults = s.faults) : Extends s s' [] :=
  ⟨by simp [hbuilder], by rw [hbuilder], hfaults, [], by simp [hrest], rfl, by simp⟩

end Extends

/-! ## What a parser yields -/

/-- Seen from `s₀`, running a parser in the state `s` reads on, and what it
returns, all that was read and what is left have the property `Q`. -/
def YieldsFrom (s₀ : ParserState) (p : Parser α) (s : ParserState)
    (Q : α → Forest → List Token → Prop) : Prop :=
  ∃ new, Extends s₀ (p.run s).2 new ∧ Q (p.run s).1 new (p.run s).2.rest

/-- What a parser yields, seen from the state it starts in. -/
abbrev Yields (p : Parser α) (s : ParserState) (Q : α → Forest → List Token → Prop) : Prop :=
  YieldsFrom s p s Q

section

variable {s₀ s : ParserState} {p : Parser α} {f : α → Parser β} {front : Forest}
  {Q R : α → Forest → List Token → Prop} {Q' : β → Forest → List Token → Prop}

theorem YieldsFrom.mono (h : YieldsFrom s₀ p s R)
    (hRQ : ∀ a new rest, R a new rest → Q a new rest) : YieldsFrom s₀ p s Q := by
  obtain ⟨new, hext, hR⟩ := h
  exact ⟨new, hext, hRQ _ _ _ hR⟩

theorem YieldsFrom.pure {a : α} (h : Extends s₀ s front) (hQ : Q a front s.rest) :
    YieldsFrom s₀ (pure a) s Q := ⟨front, h, hQ⟩

theorem YieldsFrom.bind (hp : YieldsFrom s₀ p s R)
    (hf : ∀ a new s', Extends s₀ s' new → R a new s'.rest → YieldsFrom s₀ (f a) s' Q') :
    YieldsFrom s₀ (p >>= f) s Q' := by
  obtain ⟨new, hext, hR⟩ := hp
  exact hf _ _ _ hext hR

/-- To run two parsers is to run the second where the first one ends. -/
theorem YieldsFrom.run_bind (h : YieldsFrom s₀ (f (p.run s).1) (p.run s).2 Q') :
    YieldsFrom s₀ (p >>= f) s Q' := h

/-- What a parser yields, seen from an earlier state. -/
theorem Yields.from (hp : Yields p s R) (h : Extends s₀ s front)
    (hRQ : ∀ a new rest, R a new rest → Q a (front ++ new) rest) : YieldsFrom s₀ p s Q := by
  obtain ⟨new, hext, hR⟩ := hp
  exact ⟨front ++ new, h.trans hext, hRQ _ _ _ hR⟩

theorem Yields.seq (hp : Yields p s R)
    (hf : ∀ a new s', Extends s s' new → R a new s'.rest →
      Yields (f a) s' fun b more rest => Q' b (new ++ more) rest) : Yields (p >>= f) s Q' :=
  YieldsFrom.bind hp fun a new s' hext hR => (hf a new s' hext hR).from hext fun _ _ _ h => h

theorem Yields.suffix (h : Yields p s Q) :
    Yields p s fun a new rest => Q a new rest ∧ rest <:+ s.rest := by
  obtain ⟨new, hext, hQ⟩ := h
  exact ⟨new, hext, hQ, hext.suffix⟩

/-- The trees that were read are determined by the states. -/
theorem Extends.unique {s' : ParserState} {new more : Forest} (h : Extends s₀ s' new)
    (h' : Extends s₀ s' more) : new = more := by
  have hdone : new.reverse ++ s₀.builder.done = more.reverse ++ s₀.builder.done :=
    h.done.symm.trans h'.done
  exact List.reverse_injective (List.append_cancel_right hdone)

theorem YieldsFrom.and (h : YieldsFrom s₀ p s Q) (h' : YieldsFrom s₀ p s R) :
    YieldsFrom s₀ p s fun a new rest => Q a new rest ∧ R a new rest := by
  obtain ⟨new, hext, hQ⟩ := h
  obtain ⟨more, hext', hR⟩ := h'
  obtain rfl := hext.unique hext'
  exact ⟨new, hext, hQ, hR⟩

/-- A question about the tokens ahead changes nothing. -/
theorem Yields.ask {question : List Token → α} (h : YieldsFrom s₀ (f (question s.rest)) s Q') :
    YieldsFrom s₀ (Parser.ask question >>= f) s Q' := h

theorem Yields.get {f : ParserState → Parser β} (h : YieldsFrom s₀ (f s) s Q') :
    YieldsFrom s₀ (MonadState.get >>= f) s Q' := h

theorem complain_run (message : String) (s : ParserState) :
    ((complain message).run s).2 =
      match (Lookahead.significant s.rest).head? with
      | some t => { s with errors := ⟨message, t.span⟩ :: s.errors }
      | none => s := rfl

/-- A complaint changes nothing else. -/
theorem yields_complain (message : String) (s : ParserState) :
    Yields (complain message) s fun _ new rest => new = [] ∧ rest = s.rest := by
  have hext : Extends s ((complain message).run s).2 [] ∧
      ((complain message).run s).2.rest = s.rest := by
    rw [complain_run]
    cases (Lookahead.significant s.rest).head? with
    | none => exact ⟨Extends.refl s, rfl⟩
    | some t => exact ⟨Extends.of_same rfl rfl rfl, rfl⟩
  exact ⟨[], hext.1, rfl, hext.2⟩

end

/-! ## Single tokens -/

section

open Lookahead

variable {s : ParserState}

/-- The trivia at the front of a list, as trees. -/
def triviaAhead (ts : List Token) : Forest := (ts.takeWhile Token.isTrivia).map Token.tree

theorem forestLeaves_map_tree (ts : List Token) :
    forestLeaves (ts.map Token.tree) = ts.map Token.leaf := by
  induction ts with
  | nil => rfl
  | cons t ts ih => simp [forestLeaves, leaves, Token.tree, Token.leaf, ih]

theorem ne_eof_of_isTrivia {t : Token} (h : t.isTrivia = true) : t.kind ≠ .eof := by
  intro heof
  simp [Token.isTrivia, heof, Kind.isTrivia] at h

theorem splitTrivia_eq (b : Builder) (ts : List Token) :
    splitTrivia b ts = ({ b with done := (triviaAhead ts).reverse ++ b.done }, significant ts) := by
  induction ts generalizing b with
  | nil => rfl
  | cons t ts ih =>
      by_cases ht : t.isTrivia = true
      · simp [splitTrivia, triviaAhead, significant, ht, ih, Builder.add, Token.tree]
      · simp [splitTrivia, triviaAhead, significant, ht]

theorem rest_flushTrivia (s : ParserState) : (flushTrivia.run s).2.rest = significant s.rest := by
  show (splitTrivia s.builder s.rest).2 = _
  rw [splitTrivia_eq]

theorem extends_flushTrivia (s : ParserState) :
    Extends s (flushTrivia.run s).2 (triviaAhead s.rest) := by
  have hbuilder : (flushTrivia.run s).2.builder = (splitTrivia s.builder s.rest).1 := rfl
  rw [splitTrivia_eq] at hbuilder
  refine ⟨by rw [hbuilder], by rw [hbuilder], rfl, s.rest.takeWhile Token.isTrivia, ?_, ?_, ?_⟩
  · rw [rest_flushTrivia]
    exact List.takeWhile_append_dropWhile.symm
  · exact forestLeaves_map_tree _
  · intro t ht
    exact ne_eof_of_isTrivia (List.mem_takeWhile_imp ht)

theorem yields_mark (s : ParserState) : Yields mark s fun _ new rest =>
    new = triviaAhead s.rest ∧ rest = significant s.rest :=
  ⟨triviaAhead s.rest, extends_flushTrivia s, rfl, rest_flushTrivia s⟩

theorem Yields.mark {s₀ : ParserState} {f : Nat → Parser β} {Q : β → Forest → List Token → Prop}
    (h : YieldsFrom s₀ (f (flushTrivia.run s).2.builder.mark) (flushTrivia.run s).2 Q) :
    YieldsFrom s₀ (Parser.mark >>= f) s Q := h

/-- The trees of trivia are tokens that are trivia. -/
theorem triviaAhead_all {P : Tree → Prop} (hP : ∀ k s, k.isTrivia = true → P (.token k s))
    (ts : List Token) : ∀ t ∈ triviaAhead ts, P t := by
  intro t ht
  obtain ⟨token, hmem, rfl⟩ := List.mem_map.mp ht
  have htrivia : token.isTrivia = true := List.mem_takeWhile_imp hmem
  exact hP _ _ htrivia

@[simp] theorem significant_significant (ts : List Token) :
    significant (significant ts) = significant ts := List.dropWhile_idempotent ..

@[simp] theorem kind_significant (ts : List Token) : Lookahead.kind (significant ts) = Lookahead.kind ts := by
  simp [Lookahead.kind]

@[simp] theorem triviaAhead_significant (ts : List Token) : triviaAhead (significant ts) = [] := by
  induction ts with
  | nil => rfl
  | cons t ts ih =>
      by_cases ht : t.isTrivia = true
      · simpa [significant, ht] using ih
      · simp [significant, triviaAhead, ht]

theorem ne_eof_of_kind_eq {k : Kind} (hk : k ≠ .eof) {ts : List Token} (h : Lookahead.kind ts = k) :
    Lookahead.kind ts ≠ .eof := h ▸ hk

/-- A reader that goes by the next kind has a token ahead in each branch but that for the end. -/
theorem ne_eof_of_and_eq {C : List Token → Prop} {k : Kind} (hk : k ≠ .eof) (ts : List Token)
    (h : C ts ∧ Lookahead.kind ts = k) : Lookahead.kind ts ≠ .eof :=
  ne_eof_of_kind_eq hk h.2

/-- The token behind a name is asked for only where a name is ahead. -/
theorem ne_eof_of_follower {k : Kind} {ts : List Token} (h : (if Lookahead.kind ts == .identifier then
    Lookahead.kindAt? 1 ts else none) = some k) : Lookahead.kind ts ≠ .eof := by
  intro heof
  simp [heof] at h

theorem exists_next {ts : List Token} (h : Lookahead.kind ts ≠ .eof) :
    ∃ t rest, significant ts = t :: rest ∧ t.kind = Lookahead.kind ts := by
  cases hs : significant ts with
  | nil => simp [Lookahead.kind, headKind?, hs] at h
  | cons t rest => exact ⟨t, rest, rfl, by simp [Lookahead.kind, headKind?, hs]⟩

theorem take_run (s : ParserState) : (take.run s).2 =
    match s.rest with
    | [] => s
    | t :: rest => { s with rest, builder := s.builder.add t.tree } := rfl

theorem extends_take {t : Token} {rest : List Token} (hrest : s.rest = t :: rest)
    (ht : t.kind ≠ .eof) : Extends s (take.run s).2 [t.tree] ∧ (take.run s).2.rest = rest := by
  have hrun : (take.run s).2 = { s with rest, builder := s.builder.add t.tree } := by
    rw [take_run, hrest]
  rw [hrun]
  refine ⟨⟨rfl, rfl, rfl, [t], by simpa using hrest, ?_, by simpa using ht⟩, rfl⟩
  simp [forestLeaves, leaves, Token.tree, Token.leaf]

/-- Before a token that is not the end, `bump` reads the trivia and the token. -/
theorem yields_bump (h : Lookahead.kind s.rest ≠ .eof) : Yields bump s fun _ new rest => ∃ t,
    significant s.rest = t :: rest ∧ t.kind = Lookahead.kind s.rest ∧
      new = triviaAhead s.rest ++ [t.tree] := by
  obtain ⟨t, rest, hs, ht⟩ := exists_next h
  have hflush := extends_flushTrivia s
  have hrest : (flushTrivia.run s).2.rest = t :: rest := (rest_flushTrivia s).trans hs
  have hne : t.kind ≠ .eof := ht ▸ h
  obtain ⟨htake, hafter⟩ := extends_take hrest hne
  have hrun : (bump.run s).2 = (take.run (flushTrivia.run s).2).2 := by
    show ((if startsWith .eof (flushTrivia.run s).2.rest = true then pure () else take : Parser Unit).run
      (flushTrivia.run s).2).2 = _
    rw [if_neg]
    simp [startsWith, headKind?, hrest, hne]
  refine ⟨_, hrun ▸ hflush.trans htake, t, ?_, ht, rfl⟩
  rw [hs, hrun, hafter]

theorem yields_require {kind : Kind} (message : String) (h : Lookahead.kind s.rest = kind)
    (hkind : kind ≠ .eof) : Yields (require kind message) s fun _ new rest => ∃ t,
      significant s.rest = t :: rest ∧ t.kind = kind ∧ new = triviaAhead s.rest ++ [t.tree] := by
  subst h
  have hrun : ((require (Lookahead.kind s.rest) message).run s).2 = (bump.run s).2 := by
    show ((if (Lookahead.kind s.rest == Lookahead.kind s.rest) = true then bump >>= fun _ => pure true
      else complain message >>= fun _ => pure false : Parser Bool).run s).2 = _
    rw [if_pos (by simp)]
    rfl
  simpa only [YieldsFrom, hrun] using yields_bump hkind

theorem yields_require_of_not {kind : Kind} (message : String) (h : Lookahead.kind s.rest ≠ kind) :
    Yields (require kind message) s fun _ new rest => new = [] ∧ rest = s.rest := by
  have hrun : ((require kind message).run s).2 = ((complain message).run s).2 := by
    show ((if (Lookahead.kind s.rest == kind) = true then bump >>= fun _ => pure true
      else complain message >>= fun _ => pure false : Parser Bool).run s).2 = _
    rw [if_neg (by simpa using h)]
    rfl
  simpa only [YieldsFrom, hrun] using yields_complain message s

/-- Before the end, `bump` reads the trivia only. -/
theorem bump_at_eof (h : Lookahead.kind s.rest = .eof) : (bump.run s).2 = (flushTrivia.run s).2 := by
  show ((if startsWith .eof (flushTrivia.run s).2.rest = true then pure () else take : Parser Unit).run
    (flushTrivia.run s).2).2 = _
  split
  · rfl
  case isFalse hnot =>
    rw [rest_flushTrivia] at hnot
    cases hs : significant s.rest with
    | nil =>
        rw [take_run, rest_flushTrivia, hs]
    | cons t rest => simp [Lookahead.kind, startsWith, headKind?, hs] at h hnot; exact absurd h hnot

theorem errors_bump (s : ParserState) : (bump.run s).2.errors = s.errors := by
  by_cases heof : Lookahead.kind s.rest = .eof
  · rw [bump_at_eof heof]
    rfl
  · show ((if Lookahead.startsWith .eof (flushTrivia.run s).2.rest = true then pure () else take :
      Parser Unit).run (flushTrivia.run s).2).2.errors = _
    split
    · rfl
    · rw [take_run]
      split <;> rfl

end

/-! ## Nodes -/

/-- A node is open in a state. -/
def opening (s : ParserState) (kind : Kind) (first : Nat) : ParserState :=
  { s with builder := { s.builder with opened := (kind, first) :: s.builder.opened } }

section

variable {s₀ s s' : ParserState} {new front : Forest} {kind : Kind} {body : Parser Unit}

theorem Extends.opening (h : Extends s₀ s new) (kind : Kind) (first : Nat) :
    Extends (opening s₀ kind first) (opening s kind first) new :=
  ⟨h.done, congrArg (fun outer => (kind, first) :: outer) h.opened, h.faults, h.taken⟩

/-- In a node that starts at a mark that lies in the open one, trees may be added. -/
theorem sound_opening (h : Extends s₀ s new) (kind : Kind) :
    Sound (opening s kind s₀.builder.mark) := by
  have hmark : s₀.builder.mark ≤ s.builder.mark := h.mark_eq ▸ Nat.le_add_right ..
  simp only [Sound, Builder.admits, Parser.opening, Builder.mark, List.head?_cons,
    Option.all_some, Nat.le_refl, decide_true, Bool.true_and]
  exact decide_eq_true hmark

/-- A change that the builder does not refuse is made, and nothing else changes. -/
theorem run_build {fault : Fault} {change : Builder → Option Builder} {builder : Builder}
    (h : change s.builder = some builder) :
    ((build fault change).run s).2 = { s with builder } := by
  simp only [build, StateT.run_modify, h]
  rfl

theorem errors_finishNode (s : ParserState) : (finishNode.run s).2.errors = s.errors := by
  cases hclose : s.builder.finishNode? with
  | some builder => rw [finishNode, run_build hclose]
  | none =>
      simp only [finishNode, build, StateT.run_modify, hclose]
      rfl

/-- Closing a node makes one tree of all that was read since its start. -/
theorem extends_finishNode (h : Extends (opening s kind s.builder.mark) s' new) :
    Extends s (finishNode.run s').2 [.node kind new] ∧
      (finishNode.run s').2.rest = s'.rest := by
  have hmark : s'.builder.mark = s.builder.mark + new.length := h.mark_eq
  have hclose : s'.builder.finishNode? =
      some ⟨.node kind new :: s.builder.done, s.builder.opened⟩ := by
    have hopened : s'.builder.opened = (kind, s.builder.mark) :: s.builder.opened := h.opened
    have hdone : s'.builder.done = new.reverse ++ s.builder.done := h.done
    have hcount : s.builder.mark + new.length - s.builder.mark = new.reverse.length := by simp
    simp only [Builder.finishNode?, hopened, hmark, Nat.le_add_right, if_true, hcount, hdone,
      List.take_left', List.drop_left', List.reverse_reverse]
  have hrun : (finishNode.run s').2 =
      { s' with builder := ⟨.node kind new :: s.builder.done, s.builder.opened⟩ } :=
    run_build hclose
  rw [hrun]
  obtain ⟨tokens, hrest, hleaves, heof⟩ := h.taken
  refine ⟨⟨rfl, rfl, h.faults, tokens, hrest, ?_, heof⟩, rfl⟩
  simpa [forestLeaves, leaves] using hleaves

/-- A node opens at a mark that lies in the open one. -/
theorem run_nodeFrom_of_admits {first : Nat} (h : s.builder.admits first = true) :
    ((nodeFrom first kind body).run s).2 = (finishNode.run (body.run (opening s kind first)).2).2 := by
  have hopen : ((build .misplacedStart (·.startNodeAt? first kind)).run s).2 = opening s kind first :=
    run_build (by rw [Builder.startNodeAt?, if_pos h])
  rw [← hopen]
  rfl

/-- A node that starts at a mark takes over all that was read since. The body may
itself reach back, to a state `s₁` behind the mark. -/
theorem YieldsFrom.nodeFrom {s₁ : ParserState} {between : Forest}
    {R : Unit → Forest → List Token → Prop} (hs : Sound s₀) (h₁ : Extends s₀ s₁ front)
    (h : Extends s₁ s between)
    (hbody : YieldsFrom (opening s₁ kind s₀.builder.mark) body (opening s kind s₀.builder.mark) R) :
    YieldsFrom s₀ (nodeFrom s₀.builder.mark kind body) s fun _ new rest =>
      ∃ more, new = [.node kind (front ++ more)] ∧ R () more rest := by
  obtain ⟨more, hext, hR⟩ := hbody
  obtain ⟨hclosed, hrest⟩ := extends_finishNode ((h₁.opening kind s₀.builder.mark).trans hext)
  have hrun : ((Parser.nodeFrom s₀.builder.mark kind body).run s).2 =
      (finishNode.run (body.run (opening s kind s₀.builder.mark)).2).2 :=
    run_nodeFrom_of_admits ((h₁.trans h).admits hs)
  refine ⟨_, hrun ▸ hclosed, more, rfl, ?_⟩
  rw [hrun, hrest]
  exact hR

/-- A node takes what its body reads; the trivia before it stays outside. -/
theorem Yields.node {R : Unit → Forest → List Token → Prop}
    (hbody : Yields body (opening (flushTrivia.run s).2 kind (flushTrivia.run s).2.builder.mark) R) :
    Yields (node kind body) s fun _ new rest =>
      ∃ cs, new = triviaAhead s.rest ++ [.node kind cs] ∧ R () cs rest := by
  obtain ⟨cs, hext, hR⟩ := hbody
  obtain ⟨hclosed, hrest⟩ := extends_finishNode hext
  refine ⟨_, (extends_flushTrivia s).trans hclosed, cs, rfl, ?_⟩
  rw [← hrest] at hR
  exact hR

end

end Parser

end CSharpKit.Syntax
