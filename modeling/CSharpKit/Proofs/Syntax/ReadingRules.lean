import CSharpKit.Proofs.Syntax.Reading

/-!
# Rules for readers

`Reads P p` says that all trees which `p` hands to the builder have the property
`P`. There is one rule for each way to put parsers together, so the proof for a
reader follows its text. In `ReadsIf C G p` the tokens ahead have the property
`C` at the start, and `G` is a property of all trees in a row.

A reader that takes a mark is a function of it. `ReadsFrom C F G p` says that the
trees since the mark have the property `G` once `p` is done, if they had the
property `F` before.
-/

namespace CSharpKit.Syntax.Parser

open Tree

variable {α β : Type} {C C' : List Token → Prop} {P P' : Tree → Prop} {F G H : Forest → Prop}

/-- All trees in a row have a property. -/
abbrev Each (P : Tree → Prop) (ts : Forest) : Prop := ∀ t ∈ ts, P t

theorem Each.append {xs ys : Forest} (hx : Each P xs) (hy : Each P ys) : Each P (xs ++ ys) :=
  List.forall_mem_append.mpr ⟨hx, hy⟩

theorem Each.nil : Each P [] := List.forall_mem_nil P

theorem Each.singleton {t : Tree} (h : P t) : Each P [t] := List.forall_mem_singleton.mpr h

/-- A property that tokens of trivia have. -/
class OfTrivia (P : Tree → Prop) : Prop where
  of_trivia : ∀ k s, k.isTrivia = true → P (.token k s)

/-- A property that all tokens have. -/
class OfTokens (P : Tree → Prop) : Prop extends OfTrivia P where
  of_token : ∀ k s, P (.token k s)
  of_trivia := fun k s _ => of_token k s

theorem OfTrivia.ahead [OfTrivia P] (ts : List Token) : Each P (triviaAhead ts) :=
  triviaAhead_all OfTrivia.of_trivia ts

/-- What a parser reads has a property, if the tokens ahead are as `C` says. -/
def ReadsIf (C : List Token → Prop) (G : Forest → Prop) (p : Parser α) : Prop :=
  ∀ s, Sound s → C s.rest → Yields p s fun _ new _ => G new

/-- All trees a parser reads have a property. -/
abbrev Reads (P : Tree → Prop) (p : Parser α) : Prop := ReadsIf (fun _ => True) (Each P) p

namespace ReadsIf

variable {p q : Parser α} {f : α → Parser β}

theorem weaken (h : ReadsIf C' G p) (hC : ∀ ts, C ts → C' ts) : ReadsIf C G p :=
  fun s hs hc => h s hs (hC _ hc)

theorem imp (h : ReadsIf C G p) (hGH : ∀ new, G new → H new) : ReadsIf C H p :=
  fun s hs hc => (h s hs hc).mono fun _ new _ hnew => hGH new hnew

theorem and (h : ReadsIf C G p) (h' : ReadsIf C H p) : ReadsIf C (fun new => G new ∧ H new) p :=
  fun s hs hc => (h s hs hc).and (h' s hs hc)

theorem pure_of (hG : G []) (a : α) : ReadsIf C G (Pure.pure a : Parser α) :=
  fun s _ _ => .pure (Extends.refl s) hG

theorem pure (a : α) : ReadsIf C (Each P) (Pure.pure a : Parser α) := pure_of Each.nil a

theorem seq (hp : ReadsIf C F p) (hf : ∀ a, ReadsIf (fun _ => True) G (f a))
    (happend : ∀ new more, F new → G more → H (new ++ more)) : ReadsIf C H (p >>= f) := by
  intro s hs hc
  refine (hp s hs hc).seq fun a new s' hext hnew => ?_
  refine (hf a s' (hext.sound hs) trivial).mono fun _ more _ hmore => ?_
  exact happend new more hnew hmore

theorem bind (hp : ReadsIf C (Each P) p) (hf : ∀ a, Reads P (f a)) : ReadsIf C (Each P) (p >>= f) :=
  seq hp hf fun _ _ => Each.append

/-- A reader that starts with a token, and whatever follows. -/
theorem token_bind (hp : ReadsIf C (fun new => Each P new ∧ HasToken new) p)
    (hf : ∀ a, Reads P (f a)) : ReadsIf C (fun new => Each P new ∧ HasToken new) (p >>= f) :=
  seq hp hf fun _ _ hnew hmore => ⟨hnew.1.append hmore, hnew.2.imp fun _ h =>
    ⟨List.mem_append_left _ h.1, h.2⟩⟩

theorem get_bind {f : ParserState → Parser β} (hf : ∀ s, ReadsIf C G (f s)) :
    ReadsIf C G (get >>= f) :=
  fun s hs hc => hf s s hs hc

/-- What follows a question knows the answer. -/
theorem ask_bind {question : List Token → α}
    (hf : ∀ a, ReadsIf (fun ts => C ts ∧ question ts = a) G (f a)) :
    ReadsIf C G (ask question >>= f) :=
  fun s hs hc => Yields.ask (hf _ s hs ⟨hc, rfl⟩)

theorem ite {c : Prop} [Decidable c] (hp : c → ReadsIf C G p) (hq : ¬c → ReadsIf C G q) :
    ReadsIf C G (if c then p else q) := by
  split
  · exact hp ‹_›
  · exact hq ‹_›

theorem bump [OfTrivia P] (hP : ∀ ts s, C ts → P (.token (Lookahead.kind ts) s)) :
    ReadsIf C (Each P) bump := by
  intro s _ hc
  by_cases heof : Lookahead.kind s.rest = .eof
  · refine ⟨triviaAhead s.rest, ?_, OfTrivia.ahead _⟩
    rw [bump_at_eof heof]
    exact extends_flushTrivia s
  · refine (yields_bump heof).mono ?_
    rintro - new rest ⟨token, -, hkind, rfl⟩
    refine Each.append (OfTrivia.ahead _) (Each.singleton ?_)
    show P (.token token.kind token.text)
    rw [hkind]
    exact hP _ token.text hc

/-- Before a token that is not the end, `bump` reads a token. -/
theorem bump_token [OfTrivia P] (hP : ∀ ts s, C ts → P (.token (Lookahead.kind ts) s))
    (hne : ∀ ts, C ts → Lookahead.kind ts ≠ .eof) :
    ReadsIf C (fun new => Each P new ∧ HasToken new) Parser.bump := by
  intro s hs hc
  refine ((bump hP s hs hc).and (yields_bump (hne _ hc))).mono ?_
  rintro - new rest ⟨hnew, t, -, -, rfl⟩
  exact ⟨hnew, t.tree, by simp, rfl⟩

/-- The trivia before a node, and the node with what its body reads. -/
theorem yields_node {kind : Kind} {body : Parser Unit} (hbody : ReadsIf C G body) {s : ParserState}
    (hc : C (Lookahead.significant s.rest)) : Yields (node kind body) s fun _ new _ =>
      ∃ cs, new = triviaAhead s.rest ++ [.node kind cs] ∧ G cs := by
  refine Yields.node (hbody _ (sound_opening (Extends.refl _) kind) ?_)
  show C (flushTrivia.run s).2.rest
  rw [rest_flushTrivia]
  exact hc

theorem node [OfTrivia P] {kind : Kind} {body : Parser Unit} (hbody : ReadsIf C G body)
    (hC : ∀ ts, C ts → C (Lookahead.significant ts))
    (hnode : ∀ cs, G cs → P (.node kind cs)) : ReadsIf C (Each P) (node kind body) := by
  intro s _ hc
  refine (yields_node hbody (hC _ hc)).mono ?_
  rintro - new rest ⟨cs, rfl, hcs⟩
  exact Each.append (OfTrivia.ahead _) (Each.singleton (hnode cs hcs))

end ReadsIf

/-! ## Readers for any tokens ahead -/

namespace Reads

variable {p q : Parser α} {f : α → Parser β}

theorem ask (question : List Token → α) : Reads P (ask question) :=
  fun s _ _ => ⟨[], Extends.refl s, Each.nil⟩

theorem peek : Reads P peek := ask _

theorem isAt (kind : Kind) : Reads P (isAt kind) := ask _

theorem isAtAny (kinds : List Kind) : Reads P (isAtAny kinds) := ask _

theorem isAtNth (n : Nat) (kind : Kind) : Reads P (isAtNth n kind) := ask _

theorem ite {c : Prop} [Decidable c] (hp : Reads P p) (hq : Reads P q) :
    Reads P (if c then p else q) := ReadsIf.ite (fun _ => hp) fun _ => hq

/-- A part that may be left out. -/
theorem opt {c : Prop} [Decidable c] {p : Parser Unit} {f : Unit → Parser β} (hp : Reads P p)
    (hf : ∀ u, Reads P (f u)) : Reads P (if c then p >>= f else f ()) :=
  ite (hp.bind hf) (hf ())

/-- A part that may be left out before parts with a property of their own. -/
theorem opt_seq {c : Prop} [Decidable c] {p : Parser Unit} {f : Unit → Parser β} (hp : Reads P p)
    (hf : ∀ u, ReadsIf (fun _ => True) G (f u))
    (happend : ∀ new more, Each P new → G more → G (new ++ more)) :
    ReadsIf (fun _ => True) G (if c then p >>= f else f ()) :=
  ReadsIf.ite (fun _ => hp.seq hf happend) fun _ => hf ()

theorem complain (message : String) : Reads P (complain message) := by
  intro s _ _
  refine (yields_complain message s).mono ?_
  rintro - new rest ⟨rfl, -⟩
  exact Each.nil

theorem node [OfTrivia P'] {kind : Kind} {body : Parser Unit} (hbody : Reads P body)
    (hnode : ∀ cs, Each P cs → P' (.node kind cs)) : Reads P' (node kind body) :=
  ReadsIf.node hbody (fun _ _ => trivial) hnode

/-- A token that is read only if it has the right kind. -/
theorem eat_of [OfTrivia P] {kind : Kind} (hP : ∀ s, P (.token kind s)) : Reads P (eat kind) := by
  refine ReadsIf.ask_bind fun a => ReadsIf.ite (fun ha => ?_) fun _ => ReadsIf.pure _
  refine ReadsIf.bind (ReadsIf.bump fun ts s hts => ?_) fun _ => ReadsIf.pure _
  have hkind : Lookahead.kind ts = kind := by simpa [ha] using hts.2
  exact hkind ▸ hP s

theorem expect_of [OfTrivia P] {kind : Kind} (hP : ∀ s, P (.token kind s)) (message : String) :
    Reads P (expect kind message) := by
  refine ReadsIf.ask_bind fun a => ReadsIf.ite (fun ha => ?_) fun _ => ?_
  · refine ReadsIf.bind (ReadsIf.bump fun ts s hts => ?_) fun _ => ReadsIf.pure _
    have hkind : Lookahead.kind ts = kind := by simpa [ha] using hts.2
    exact hkind ▸ hP s
  · refine ReadsIf.bind ?_ fun _ => ReadsIf.pure _
    exact (complain message).weaken fun _ _ => trivial

theorem require_of [OfTrivia P] {kind : Kind} (hP : ∀ s, P (.token kind s)) (message : String) :
    Reads P (require kind message) := (expect_of hP message).bind fun _ => ReadsIf.pure _

section

variable [OfTokens P]

theorem bump : Reads P bump := ReadsIf.bump fun _ s _ => OfTokens.of_token _ s

theorem bump_token : ReadsIf (fun ts => Lookahead.kind ts ≠ .eof)
    (fun new => Each P new ∧ HasToken new) Parser.bump :=
  ReadsIf.bump_token (fun _ s _ => OfTokens.of_token _ s) fun _ => id

theorem skip : Reads P skip := (isAt .eof).bind fun _ => ite (ReadsIf.pure _) bump

theorem eat (kind : Kind) : Reads P (eat kind) := eat_of (OfTokens.of_token kind)

theorem expect (kind : Kind) (message : String) : Reads P (expect kind message) :=
  expect_of (OfTokens.of_token kind) message

theorem require (kind : Kind) (message : String) : Reads P (require kind message) :=
  require_of (OfTokens.of_token kind) message

end

/-- A token that stands ahead is read where it is required. -/
theorem require_token [OfTokens P] {kind : Kind} (hkind : kind ≠ .eof) (message : String) :
    ReadsIf (fun ts => Lookahead.kind ts = kind) (fun new => Each P new ∧ HasToken new)
      (Parser.require kind message) := by
  intro s hs hc
  refine ((require (P := P) kind message s hs trivial).and (yields_require message hc hkind)).mono ?_
  rintro - new rest ⟨hnew, t, -, -, rfl⟩
  exact ⟨hnew, t.tree, by simp, rfl⟩

/-! ## Repetition -/

theorem loopUpTo {step : Parser Bool} (h : Reads P step) (n : Nat) : Reads P (loopUpTo step n) := by
  induction n with
  | zero => exact ReadsIf.pure _
  | succ n ih => exact h.bind fun _ => ite ih (ReadsIf.pure _)

theorem loop {step : Parser Bool} (h : Reads P step) : Reads P (loop step) :=
  ReadsIf.get_bind fun _ => loopUpTo h _

theorem untilAny {body : Parser Unit} (kinds : List Kind) (h : Reads P body) :
    Reads P (untilAny kinds body) :=
  loop <| (isAtAny kinds).bind fun _ => ite (ReadsIf.pure _) (h.bind fun _ => ReadsIf.pure _)

theorem whileAhead_step {body : Parser Unit} {question : List Token → Bool}
    (h : ReadsIf (fun ts => question ts = true) (Each P) body) :
    Reads P (Parser.ask question >>= fun more =>
      if more then body >>= fun _ => Pure.pure true else Pure.pure false) := by
  refine ReadsIf.ask_bind fun a => ReadsIf.ite (fun ha => ?_) fun _ => ReadsIf.pure _
  refine ReadsIf.bind (h.weaken ?_) fun _ => ReadsIf.pure _
  rintro ts ⟨-, hts⟩
  exact hts.trans ha

theorem whileAhead_of {body : Parser Unit} {question : List Token → Bool}
    (h : ReadsIf (fun ts => question ts = true) (Each P) body) : Reads P (whileAhead question body) :=
  loop (whileAhead_step h)

theorem whileAhead {body : Parser Unit} {question : List Token → Bool} (h : Reads P body) :
    Reads P (whileAhead question body) := whileAhead_of (h.weaken fun _ _ => trivial)

section

variable [OfTokens P]

theorem separated {item : Parser Unit} (h : Reads P item) : Reads P (separated item) :=
  loop (h.bind fun _ => eat .comma)

theorem separatedUntil {item : Parser Unit} (kinds : List Kind) (h : Reads P item) :
    Reads P (separatedUntil kinds item) :=
  loop <| (isAtAny kinds).bind fun _ => ite (ReadsIf.pure _) (h.bind fun _ => eat .comma)

theorem skipTo (kinds : List Kind) : Reads P (skipTo kinds) := untilAny _ bump

end

end Reads

/-! ## Readers that open a node at a mark -/

/-- What was read since a mark has the property `G` when a parser is done, if it
had the property `F` before, and the tokens ahead are as `C` says. What was read
before the parser started is not read again. -/
def ReadsFrom (C : List Token → Prop) (F G : Forest → Prop) (p : Nat → Parser α) : Prop :=
  ∀ s₀ s front, Sound s₀ → Extends s₀ s front → F front → C s.rest →
    YieldsFrom s₀ (p s₀.builder.mark) s fun _ new rest => G new ∧ rest <:+ s.rest

namespace ReadsFrom

variable {p q : Nat → Parser α} {f : Nat → α → Parser β}

theorem weaken (h : ReadsFrom C' F G p) (hC : ∀ ts, C ts → C' ts) : ReadsFrom C F G p :=
  fun s₀ s front hs hext hfront hc => h s₀ s front hs hext hfront (hC _ hc)

theorem of_reads_append {p : Parser α} (h : ReadsIf C G p)
    (happend : ∀ front new, F front → G new → H (front ++ new)) : ReadsFrom C F H fun _ => p := by
  intro s₀ s front hs hext hfront hc
  exact (h s (hext.sound hs) hc).suffix.from hext fun _ new _ hnew =>
    ⟨happend front new hfront hnew.1, hnew.2⟩

theorem of_reads {p : Parser α} (h : ReadsIf C (Each P) p) :
    ReadsFrom C (Each P) (Each P) fun _ => p :=
  of_reads_append h fun _ _ => Each.append

theorem pure (a : α) : ReadsFrom C F F fun _ => (Pure.pure a : Parser α) :=
  fun _ s _ _ hext hfront _ => .pure hext ⟨hfront, List.suffix_refl s.rest⟩

theorem bind (hp : ReadsFrom C F G p) (hf : ∀ a, ReadsFrom (fun _ => True) G H (f · a)) :
    ReadsFrom C F H fun start => p start >>= f start := by
  intro s₀ s front hs hext hfront hc
  refine (hp s₀ s front hs hext hfront hc).bind fun a new s' hext' hnew => ?_
  refine (hf a s₀ s' new hs hext' hnew.1 trivial).mono fun _ more rest hmore => ?_
  exact ⟨hmore.1, hmore.2.trans hnew.2⟩

/-- A step of a loop that asks for another one. -/
theorem andContinue {p : Nat → Parser Unit} (h : ReadsFrom C F G p) :
    ReadsFrom C F G fun start => p start >>= fun _ => Pure.pure true :=
  bind h fun _ => pure true

theorem grownSince : ReadsFrom C F F grownSince :=
  fun _ s front _ hext hfront _ => ⟨front, hext, hfront, List.suffix_refl s.rest⟩

theorem ask_bind {question : List Token → α}
    (hf : ∀ a, ReadsFrom (fun ts => C ts ∧ question ts = a) F G (f · a)) :
    ReadsFrom C F G fun start => ask question >>= f start :=
  fun s₀ s front hs hext hfront hc =>
    Yields.ask (hf _ s₀ s front hs hext hfront ⟨hc, rfl⟩)

theorem ite {c : Prop} [Decidable c] (hp : c → ReadsFrom C F G p) (hq : ¬c → ReadsFrom C F G q) :
    ReadsFrom C F G fun start => if c then p start else q start := by
  split
  · exact hp ‹_›
  · exact hq ‹_›

theorem nodeFrom {kind : Kind} {body : Parser Unit} (hbody : ReadsIf C G body)
    (hnode : ∀ front more, F front → G more → H [.node kind (front ++ more)]) :
    ReadsFrom C F H fun start => nodeFrom start kind body := by
  intro s₀ s front hs hext hfront hc
  have hbody := (hbody _ (sound_opening hext kind) hc).suffix
  refine (YieldsFrom.nodeFrom hs hext (Extends.refl s) hbody).mono ?_
  rintro - new rest ⟨more, rfl, hmore, hrest⟩
  exact ⟨hnode front more hfront hmore, hrest⟩

theorem loopUpTo {step : Nat → Parser Bool} (h : ReadsFrom (fun _ => True) F F step) (n : Nat) :
    ReadsFrom (fun _ => True) F F fun start => loopUpTo (step start) n := by
  induction n with
  | zero => exact pure _
  | succ n ih => exact bind h fun _ => ite (fun _ => ih) fun _ => pure _

theorem loop {step : Nat → Parser Bool} (h : ReadsFrom (fun _ => True) F F step) :
    ReadsFrom (fun _ => True) F F fun start => loop (step start) :=
  fun s₀ s front => loopUpTo h _ s₀ s front

theorem whileAhead {question : List Token → Bool} {body : Nat → Parser Unit}
    (h : ReadsFrom (fun ts => question ts = true) F F body) :
    ReadsFrom (fun _ => True) F F fun start => whileAhead question (body start) := by
  refine loop (ask_bind fun a => ite (fun ha => ?_) fun _ => pure _)
  refine bind (h.weaken ?_) fun _ => pure _
  rintro ts ⟨-, hts⟩
  exact hts.trans ha

end ReadsFrom

/-- No trivia stands before the next token. -/
def Ready (ts : List Token) : Prop := triviaAhead ts = []

/-- A reader that puts the trivia before its trees, where there is none. -/
theorem ReadsFrom.of_ready {p : Parser α} (hC : ∀ ts, C ts → Ready ts)
    (h : ∀ s, Sound s → C s.rest → Yields p s fun _ new _ =>
      ∃ more, new = triviaAhead s.rest ++ more ∧ G more) :
    ReadsFrom C (· = []) G fun _ => p := by
  refine of_reads_append (G := G) (fun s hs hc => (h s hs hc).mono ?_) ?_
  · rintro - new rest ⟨more, rfl, hmore⟩
    rw [hC _ hc]
    exact hmore
  · rintro front new rfl hnew
    exact hnew

/-- A reader that starts with a mark has nothing behind it yet. -/
theorem yields_mark_bind {f : Nat → Parser α} {s : ParserState}
    (hf : ReadsFrom C (· = []) G f) (hs : Sound s) (hc : C (Lookahead.significant s.rest)) :
    Yields (mark >>= f) s fun _ new _ => ∃ more, new = triviaAhead s.rest ++ more ∧ G more := by
  have hflush := extends_flushTrivia s
  obtain ⟨new, hext, hnew⟩ := hf (flushTrivia.run s).2 (flushTrivia.run s).2 [] (hflush.sound hs)
    (Extends.refl _) rfl (by rw [rest_flushTrivia]; exact hc)
  exact ⟨triviaAhead s.rest ++ new, hflush.trans hext, new, rfl, hnew.1⟩

theorem Reads.mark_bind [OfTrivia P] {f : Nat → Parser α}
    (hf : ReadsFrom (fun _ => True) (· = []) (Each P) f) : Reads P (mark >>= f) := by
  intro s hs _
  refine (yields_mark_bind hf hs trivial).mono ?_
  rintro - new rest ⟨more, rfl, hmore⟩
  exact Each.append (OfTrivia.ahead _) hmore

end CSharpKit.Syntax.Parser
