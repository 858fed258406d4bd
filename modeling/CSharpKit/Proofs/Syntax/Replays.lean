import CSharpKit.Proofs.Syntax.CleanTypes
import CSharpKit.Proofs.Syntax.Horizons
import CSharpKit.Proofs.Syntax.Termination

/-!
# The same tokens read twice

What a reader makes of the tokens up to the end of a text without a complaint, it makes of the
same tokens before a semicolon, wherever they stand.

`Abreast` is about two runs that started side by side and have read the same trees so far, and
`Replays` says of a parser that it keeps two runs abreast, as long as the first one has nothing
to complain about. There is one rule for each way to put parsers together, so the proof for a
reader follows its text. A reader inside of brackets may count on it that the first run does
not come to the end of the text.
-/

namespace CSharpKit.Syntax

open Syntax.Tree CSharpKit.Syntax.Parser
open Lookahead (Alike Closes)

namespace Parser

variable {α β γ : Type} {a b ts us : List Token} {inside : Bool} {C C' : List Token → Prop}

/-! ## Ends -/

/-- No token stands behind one for an end. -/
def EndsOnce (ts : List Token) : Prop :=
  ∀ front t rest, ts = front ++ t :: rest → t.kind = .eof → rest = []

theorem EndsOnce.suffix (h : EndsOnce ts) (hus : us <:+ ts) : EndsOnce us := by
  obtain ⟨taken, rfl⟩ := hus
  intro front t rest heq
  exact h (taken ++ front) t rest (by rw [heq, List.append_assoc])

/-- Where the end is next, it stays so. -/
theorem EndsOnce.kind_eq_eof (h : EndsOnce ts) (hus : us <:+ ts)
    (heof : Lookahead.kind ts = .eof) : Lookahead.kind us = .eof := by
  by_cases hlt : pending us < pending ts
  · have hsplit : pending ts = pending (Lookahead.significant ts) := by
      have happend : pending (ts.takeWhile Token.isTrivia ++ Lookahead.significant ts) = pending ts :=
        congrArg pending List.takeWhile_append_dropWhile
      have hnone : pending (ts.takeWhile Token.isTrivia) = 0 :=
        List.countP_eq_zero.mpr fun t ht => by simp [List.mem_takeWhile_imp ht]
      rw [← happend, pending, List.countP_append]
      exact (Nat.add_right_cancel_iff.mpr hnone).trans (Nat.zero_add _)
    have hle : pending (Lookahead.significant ts) ≤ 1 := by
      cases hts : Lookahead.significant ts with
      | nil => exact Nat.zero_le 1
      | cons t rest =>
          have ht : t.kind = .eof := by simpa [Lookahead.kind, Lookahead.headKind?, hts] using heof
          obtain rfl : rest = [] := by
            refine h (ts.takeWhile Token.isTrivia) t rest ?_ ht
            rw [← hts]
            exact List.takeWhile_append_dropWhile.symm
          exact pending_le_length [t]
    exact Parser.kind_eq_eof (by omega)
  · rw [← kind_significant, significant_eq hus hlt, kind_significant, heof]

/-- A state in the middle of a text whose end stands behind all other tokens. -/
structure Poised (s : ParserState) : Prop where
  underway : Underway s
  once : EndsOnce s.rest

theorem Extends.poised {s s' : ParserState} {new : Forest} (hext : Extends s s' new)
    (h : Poised s) : Poised s' :=
  ⟨hext.underway h.underway, h.once.suffix hext.suffix⟩

theorem Poised.opening {s₀ s : ParserState} {front : Forest} (h : Poised s₀)
    (hext : Extends s₀ s front) (kind : Kind) : Poised (opening s kind s₀.builder.mark) :=
  ⟨⟨sound_opening hext kind, (hext.underway h.underway).ended⟩, (hext.poised h).once⟩

/-! ## Readers that go on -/

/-- A parser leaves an end of the tokens ahead, and keeps the complaints there are. -/
structure Onward (p : Parser α) : Prop where
  shrinks : Shrinks p
  grows : Grows p

namespace Onward

variable {p q : Parser α} {f : α → Parser β}

theorem pure (x : α) : Onward (Pure.pure x : Parser α) := ⟨fun s => List.suffix_refl s.rest, .pure x⟩

theorem bind (hp : Onward p) (hf : ∀ x, Onward (f x)) : Onward (p >>= f) :=
  ⟨fun s => ((hf _).shrinks _).trans (hp.shrinks s), hp.grows.bind fun x => (hf x).grows⟩

theorem ask (question : List Token → α) : Onward (Parser.ask question) :=
  ⟨fun s => List.suffix_refl s.rest, .ask question⟩

theorem ite {c : Prop} [Decidable c] (hp : Onward p) (hq : Onward q) :
    Onward (if c then p else q) := by
  split
  · exact hp
  · exact hq

theorem bump : Onward bump := ⟨shrinks_bump, .bump⟩

theorem complain (message : String) : Onward (complain message) :=
  ⟨AgreeIf.shrinks fun _ => Agree.complain message, .complain message⟩

theorem take : Onward take := by
  refine ⟨shrinks_take, .of_eq fun s => ?_⟩
  rw [take_run]
  split <;> rfl

theorem require (kind : Kind) (message : String) : Onward (require kind message) :=
  ⟨AgreeIf.shrinks fun _ => Agree.require kind message, .require kind message⟩

theorem skip : Onward skip := (ask _).bind fun _ => ite (pure _) bump

theorem mark : Onward mark := ⟨shrinks_flushTrivia, .mark⟩

theorem grownSince (start : Nat) : Onward (grownSince start) :=
  ⟨fun s => List.suffix_refl s.rest, .of_eq fun _ => rfl⟩

theorem node {kind : Kind} {body : Parser Unit} (h : Onward body) : Onward (node kind body) :=
  ⟨AgreeIf.shrinks fun _ => Agree.node (.of_shrinks h.shrinks), h.grows.node⟩

theorem nodeFrom {kind : Kind} {body : Parser Unit} (start : Nat) (h : Onward body) :
    Onward (nodeFrom start kind body) :=
  ⟨AgreeIf.shrinks fun _ => AgreeIf.nodeFrom (.of_shrinks h.shrinks), h.grows.nodeFrom start⟩

theorem loop {step : Parser Bool} (h : Onward step) : Onward (loop step) :=
  ⟨AgreeIf.shrinks fun _ => Agree.loop (.of_shrinks h.shrinks), h.grows.loop⟩

end Onward

/-- Nothing was complained about between two states, and the end of the text was not taken; a
parser that is called inside of brackets has not come to it. -/
structure Calm (inside : Bool) (s s' : ParserState) : Prop where
  errors : s'.errors = s.errors
  rest : s'.rest ≠ []
  inside : inside = true → Lookahead.kind s'.rest ≠ .eof

namespace Calm

variable {s s' : ParserState} {p : Parser α} {f : α → Parser β}

theorem outside (h : Calm inside s s') : Calm false s s' := ⟨h.errors, h.rest, nofun⟩

/-- Where a run ends before the end of the text, it starts there. -/
theorem ne_eof (h : Calm true s (p.run s).2) (hp : Onward p) (hs : EndsOnce s.rest) :
    Lookahead.kind s.rest ≠ .eof :=
  fun heof => h.inside rfl (hs.kind_eq_eof (hp.shrinks s) heof)

/-- Both parts of a calm run are calm. -/
theorem split (h : Calm inside s ((p >>= f).run s).2) (hp : Onward p) (hf : ∀ x, Onward (f x))
    (hs : EndsOnce s.rest) : Calm inside s (p.run s).2 ∧
      Calm inside (p.run s).2 ((f (p.run s).1).run (p.run s).2).2 := by
  have hshrinks := (hf (p.run s).1).shrinks (p.run s).2
  have hgrows := (hf (p.run s).1).grows (p.run s).2
  have herrors : (p.run s).2.errors = s.errors := by
    refine ((hp.grows s).eq_of_length_le ?_).symm
    rw [← h.errors]
    exact hgrows.length_le
  have hnil : (p.run s).2.rest ≠ [] := by
    intro hnil
    rw [hnil, List.suffix_nil] at hshrinks
    exact h.rest hshrinks
  refine ⟨⟨herrors, hnil, fun hinside heof => h.inside hinside ?_⟩, h.errors.trans herrors.symm,
    h.rest, h.inside⟩
  exact (hs.suffix (hp.shrinks s)).kind_eq_eof hshrinks heof

end Calm

theorem Ended.suffix (h : Ended ts) (hus : us <:+ ts) (hne : us ≠ []) : Ended us := by
  obtain ⟨front, last, rfl, hlast⟩ := h
  rcases List.suffix_concat_iff.mp hus with rfl | ⟨front', rfl, -⟩
  · exact absurd rfl hne
  · exact ⟨front', last, rfl, hlast⟩

theorem Calm.since {s s₁ s' : ParserState} (h : Calm inside s s') (hs : s₁.errors = s.errors) :
    Calm inside s₁ s' :=
  ⟨h.errors.trans hs.symm, h.rest, h.inside⟩

theorem Calm.of_finishNode {s s' : ParserState} (h : Calm inside s (finishNode.run s').2) :
    Calm inside s s' := by
  have hrest : (finishNode.run s').2.rest = s'.rest := rest_build _ _ s'
  exact ⟨errors_finishNode s' ▸ h.errors, hrest ▸ h.rest, hrest ▸ h.inside⟩

/-! ## Two runs -/

/-- Two runs started at `s₀` and `s₀'` and have come to `s` and `s'`: they have read the same
trees, and the same tokens are ahead up to the ends `a` and `b`. The second one has nothing to
complain about. -/
structure Abreast (a b : List Token) (s₀ s s₀' s' : ParserState) (new : Forest) : Prop where
  poised : Poised s₀
  sound : Sound s₀'
  left : Extends s₀ s new
  right : Extends s₀' s' new
  errors : s'.errors = s₀'.errors
  alike : Alike a b s.rest s'.rest

namespace Abreast

variable {s₀ s s₁ s₀' s' s₁' : ParserState} {f g : Forest}

/-- Two runs that have not read anything yet. -/
theorem start (hs : Poised s) (hs' : Sound s') (h : Alike a b s.rest s'.rest) :
    Abreast a b s s s' s' [] :=
  ⟨hs, hs', .refl s, .refl s', rfl, h⟩

theorem here (h : Abreast a b s₀ s s₀' s' f) : Abreast a b s s s' s' [] :=
  start (h.left.poised h.poised) (h.right.sound h.sound) h.alike

theorem trans (h : Abreast a b s₀ s s₀' s' f) (h' : Abreast a b s s₁ s' s₁' g) :
    Abreast a b s₀ s₁ s₀' s₁' (f ++ g) :=
  ⟨h.poised, h.sound, h.left.trans h'.left, h.right.trans h'.right, h'.errors.trans h.errors,
    h'.alike⟩

theorem opened (h : Abreast a b s₀ s s₀' s' f) (kind : Kind) :
    Abreast a b (opening s₀ kind s₀.builder.mark) (opening s kind s₀.builder.mark)
      (opening s₀' kind s₀'.builder.mark) (opening s' kind s₀'.builder.mark) f :=
  ⟨h.poised.opening (.refl s₀) kind, sound_opening (.refl s₀') kind, h.left.opening _ _,
    h.right.opening _ _, h.errors, h.alike⟩

/-- Each run closes the node that it opened at its start. -/
theorem closed {kind : Kind} (hs : Poised s₀) (hs' : Sound s₀')
    (h : Abreast a b (opening s₀ kind s₀.builder.mark) s (opening s₀' kind s₀'.builder.mark) s' f) :
    Abreast a b s₀ (finishNode.run s).2 s₀' (finishNode.run s').2 [.node kind f] := by
  obtain ⟨hleft, hrest⟩ := extends_finishNode h.left
  obtain ⟨hright, hrest'⟩ := extends_finishNode h.right
  exact ⟨hs, hs', hleft, hright, (errors_finishNode s').trans h.errors, by
    rw [hrest, hrest']; exact h.alike⟩

theorem flushed (hc : Closes a b) (h : Abreast a b s s s' s' []) :
    Abreast a b s (flushTrivia.run s).2 s' (flushTrivia.run s').2 (triviaAhead s.rest) := by
  refine ⟨h.poised, h.sound, extends_flushTrivia s, ?_, rfl, ?_⟩
  · rw [hc.triviaAhead_eq h.alike]
    exact extends_flushTrivia s'
  · rw [rest_flushTrivia, rest_flushTrivia]
    exact hc.ahead h.alike

end Abreast

/-- Two runs end with the same value, and are still abreast. -/
def Keeps (a b : List Token) (s₀ s₀' : ParserState) (end₁ end₂ : α × ParserState) : Prop :=
  end₁.1 = end₂.1 ∧ ∃ new, Abreast a b s₀ end₁.2 s₀' end₂.2 new

/-- A parser that may know of a mark keeps two runs abreast, if the tokens ahead are as `C` says
and the first of the runs is calm. -/
structure Replays (a b : List Token) (inside : Bool) (C : List Token → Prop) (p : Nat → Parser α) :
    Prop where
  onward : ∀ start, Onward (p start)
  again : ∀ {s₀ s s₀' s' front}, Abreast a b s₀ s s₀' s' front → C s.rest →
    Calm inside s ((p s₀.builder.mark).run s).2 →
    Keeps a b s₀ s₀' ((p s₀.builder.mark).run s) ((p s₀'.builder.mark).run s')

namespace Replays

variable {p q : Nat → Parser α} {f : Nat → α → Parser β}

/-- A parser that knows of no mark, seen from where it starts. -/
theorem of_here {p : Parser α} (honward : Onward p)
    (h : ∀ s s', Abreast a b s s s' s' [] → C s.rest → Calm inside s (p.run s).2 →
      Keeps a b s s' (p.run s) (p.run s')) : Replays a b inside C fun _ => p := by
  refine ⟨fun _ => honward, fun hstart hC hcalm => ?_⟩
  obtain ⟨hvalue, new, hnew⟩ := h _ _ hstart.here hC hcalm
  exact ⟨hvalue, _, hstart.trans hnew⟩

theorem weaken (h : Replays a b inside C' p) (hC : ∀ ts, C ts → C' ts) : Replays a b inside C p :=
  ⟨h.onward, fun hstart hc => h.again hstart (hC _ hc)⟩

theorem under (h : Replays a b inside (fun _ => True) p) : Replays a b inside C p :=
  h.weaken fun _ _ => trivial

/-- Outside of brackets less is known. -/
theorem within (h : Replays a b false C p) : Replays a b inside C p :=
  ⟨h.onward, fun hstart hC hcalm => h.again hstart hC hcalm.outside⟩

theorem pure (x : α) : Replays a b inside C fun _ => (Pure.pure x : Parser α) :=
  ⟨fun _ => .pure x, fun hstart _ _ => ⟨rfl, _, hstart⟩⟩

/-- What follows a parser knows how it leaves the tokens ahead. -/
theorem seq (hp : Replays a b inside C p) (hleaves : ∀ start, Leaves C C' (p start))
    (hf : ∀ x, Replays a b inside C' fun start => f start x) :
    Replays a b inside C fun start => p start >>= f start := by
  refine ⟨fun start => (hp.onward start).bind fun x => (hf x).onward start,
    fun {s₀ s s₀' s' front} hstart hC hcalm => ?_⟩
  have honce := (hstart.left.poised hstart.poised).once
  obtain ⟨hfirst, hsecond⟩ := hcalm.split (hp.onward _) (fun x => (hf x).onward _) honce
  obtain ⟨hvalue, new, hmid⟩ := hp.again hstart hC hfirst
  have hend := (hf ((p s₀.builder.mark).run s).1).again hmid (hleaves _ s hC).2 hsecond
  show Keeps a b s₀ s₀'
    ((f s₀.builder.mark ((p s₀.builder.mark).run s).1).run ((p s₀.builder.mark).run s).2)
    ((f s₀'.builder.mark ((p s₀'.builder.mark).run s').1).run ((p s₀'.builder.mark).run s').2)
  rwa [← hvalue]

theorem bind (hp : Replays a b inside C p)
    (hf : ∀ x, Replays a b inside (fun _ => True) fun start => f start x) :
    Replays a b inside C fun start => p start >>= f start :=
  seq hp (fun start s _ => ⟨(hp.onward start).shrinks s, trivial⟩) hf

theorem ite {c : Prop} [Decidable c] (hp : c → Replays a b inside C p)
    (hq : ¬c → Replays a b inside C q) :
    Replays a b inside C fun start => if c then p start else q start := by
  split
  · exact hp ‹_›
  · exact hq ‹_›

/-- A part that may be left out before another. -/
theorem opt {c : Prop} [Decidable c] {p : Nat → Parser Unit} {f : Nat → Unit → Parser β}
    (hp : c → Replays a b inside C p)
    (hf : ∀ u, Replays a b inside (fun _ => True) fun start => f start u) :
    Replays a b inside C fun start => if c then p start >>= f start else f start () :=
  ite (fun hc => (hp hc).bind hf) fun _ => (hf ()).under

/-! ### Questions -/

/-- What follows a question does the same in both runs, as the first one is calm. -/
theorem ask_bind_of {question : List Token → γ} {f : Nat → γ → Parser α}
    (hsame : ∀ s us start, Poised s → Alike a b s.rest us → C s.rest →
      Calm inside s ((f start (question s.rest)).run s).2 →
      ∀ start', f start' (question s.rest) = f start' (question us))
    (hf : ∀ x, Replays a b inside (fun ts => C ts ∧ question ts = x) fun start => f start x) :
    Replays a b inside C fun start => ask question >>= f start := by
  refine ⟨fun start => (Onward.ask question).bind fun x => (hf x).onward start,
    fun {s₀ s s₀' s' front} hstart hC hcalm => ?_⟩
  have hpoised := hstart.left.poised hstart.poised
  have hagain := (hf (question s.rest)).again hstart ⟨hC, rfl⟩ hcalm
  rw [hsame s s'.rest _ hpoised hstart.alike hC hcalm s₀'.builder.mark] at hagain
  exact hagain

/-- A question whose answer is the same in both runs, or does not matter. -/
theorem ask_bind {question : List Token → γ} {f : Nat → γ → Parser α}
    (hsame : ∀ ts us, Alike a b ts us → C ts → (inside = true → Lookahead.kind ts ≠ .eof) →
      ∀ start, f start (question ts) = f start (question us))
    (hf : ∀ x, Replays a b inside (fun ts => C ts ∧ question ts = x) fun start => f start x) :
    Replays a b inside C fun start => ask question >>= f start := by
  refine ask_bind_of (fun s us start hs halike hC hcalm => hsame _ _ halike hC ?_) hf
  rintro rfl
  exact Calm.ne_eof hcalm ((hf _).onward start) hs.once

section

variable (hc : Closes a b)
include hc

/-- A question about the next kind that has the same answer at both ends, or whose answer does
not matter there. -/
theorem kind_bind {g : Kind → γ} {f : Nat → γ → Parser α}
    (hends : inside = true ∨ ∀ start, f start (g .eof) = f start (g .semicolon))
    (hf : ∀ x, Replays a b inside (fun ts => C ts ∧ g (Lookahead.kind ts) = x)
      fun start => f start x) :
    Replays a b inside C fun start => ask (fun ts => g (Lookahead.kind ts)) >>= f start := by
  refine ask_bind (fun ts us h _ hne start => ?_) hf
  rcases hends with hinside | hends
  · rw [hc.kind_eq h (hne hinside)]
  · exact hc.congr_kind (g := fun k => f start (g k)) (hends start) h

theorem peek_bind {f : Nat → Kind → Parser α}
    (hends : inside = true ∨ ∀ start, f start .eof = f start .semicolon)
    (hf : ∀ k, Replays a b inside (fun ts => C ts ∧ Lookahead.kind ts = k) fun start => f start k) :
    Replays a b inside C fun start => peek >>= f start := kind_bind hc (g := id) hends hf

theorem isAt_bind {kind : Kind} {f : Nat → Bool → Parser α}
    (hends : inside = true ∨ ∀ start, f start (.eof == kind) = f start (.semicolon == kind))
    (hf : ∀ x, Replays a b inside (fun ts => C ts ∧ (Lookahead.kind ts == kind) = x)
      fun start => f start x) :
    Replays a b inside C fun start => isAt kind >>= f start :=
  kind_bind hc (g := (· == kind)) hends hf

theorem isAtAny_bind {kinds : List Kind} {f : Nat → Bool → Parser α}
    (hends : inside = true ∨
      ∀ start, f start (kinds.contains .eof) = f start (kinds.contains .semicolon))
    (hf : ∀ x, Replays a b inside (fun ts => C ts ∧ kinds.contains (Lookahead.kind ts) = x)
      fun start => f start x) :
    Replays a b inside C fun start => isAtAny kinds >>= f start :=
  kind_bind hc (g := (kinds.contains ·)) hends hf

/-- A question about the token behind the next one, where its answer matters before the end
only. -/
theorem isAtNth_bind {kind : Kind} {f : Nat → Bool → Parser α}
    (hkind : kind ≠ .eof ∧ kind ≠ .semicolon)
    (hends : inside = true ∨
      ∀ ts, C ts → Lookahead.kind ts = .eof → ∀ start x y, f start x = f start y)
    (hf : ∀ x, Replays a b inside (fun ts => C ts ∧ (Lookahead.kindAt? 1 ts == some kind) = x)
      fun start => f start x) :
    Replays a b inside C fun start => isAtNth 1 kind >>= f start := by
  refine ask_bind (fun ts us h hC hne start => ?_) hf
  by_cases heof : Lookahead.kind ts = .eof
  · rcases hends with hinside | hends
    · exact absurd heof (hne hinside)
    · exact hends ts hC heof start _ _
  · refine congrArg (f start) (hc.congr_kindAt?_one (g := (· == some kind)) ?_ h heof)
    simp [hkind.1.symm, hkind.2.symm]

/-! ### Single tokens -/

theorem bump (hne : inside = true ∨ ∀ ts, C ts → Lookahead.kind ts ≠ .eof) :
    Replays a b inside C fun _ => Parser.bump := by
  refine of_here .bump fun s s' hstart hC hcalm => ?_
  have hkind : Lookahead.kind s.rest ≠ .eof := by
    rcases hne with rfl | hne
    · exact hcalm.ne_eof .bump hstart.poised.once
    · exact hne _ hC
  have hkind' : Lookahead.kind s'.rest ≠ .eof := by
    rw [hc.kind_eq hstart.alike hkind]
    exact hkind
  obtain ⟨t, t', rest, rest', hts, hts', hleaf, hrest⟩ := hc.exists_next hstart.alike hkind
  obtain ⟨new, hext, u, hu, -, rfl⟩ := yields_bump hkind
  obtain ⟨new', hext', u', hu', -, rfl⟩ := yields_bump hkind'
  obtain ⟨rfl, hend⟩ := List.cons.inj (hu.symm.trans hts)
  obtain ⟨rfl, hend'⟩ := List.cons.inj (hu'.symm.trans hts')
  rw [← hc.triviaAhead_eq hstart.alike, ← Token.tree_eq_of_leaf hleaf] at hext'
  refine ⟨rfl, _, hstart.poised, hstart.sound, hext, hext', errors_bump s', ?_⟩
  rwa [hend, hend']

theorem bump_the {k : Kind} (hC : ∀ ts, C ts → Lookahead.kind ts = k) (hk : k ≠ .eof) :
    Replays a b inside C fun _ => Parser.bump := bump hc (.inr fun ts hts => hC ts hts ▸ hk)

omit hc in
/-- A calm run has no complaints. -/
theorem complain (message : String) : Replays a b inside C fun _ => complain message := by
  refine of_here (.complain message) fun s s' hstart _ hcalm => ?_
  have herrors := hcalm.errors
  rw [run_complain message hstart.poised.underway.ended] at herrors
  exact absurd herrors (List.cons_ne_self _ _)

omit hc in
/-- Whatever follows a complaint is not part of a calm run. -/
theorem complain_bind (message : String) {f : Nat → Unit → Parser α}
    (hf : ∀ start, Onward (f start ())) :
    Replays a b inside C fun start => Parser.complain message >>= f start := by
  refine ⟨fun start => (Onward.complain message).bind fun _ => hf start,
    fun {s₀ s s₀' s' front} hstart _ hcalm => ?_⟩
  have hpoised := hstart.left.poised hstart.poised
  obtain ⟨hfirst, -⟩ := hcalm.split (.complain message) (fun _ => hf _) hpoised.once
  have herrors := hfirst.errors
  rw [run_complain message hpoised.underway.ended] at herrors
  exact absurd herrors (List.cons_ne_self _ _)

/-- A token that stands ahead without trivia before it. -/
theorem take : Replays a b inside
    (fun ts => ∃ t rest, ts = t :: rest ∧ t.isTrivia = false ∧ t.kind ≠ .eof) fun _ => take := by
  refine of_here .take fun s s' hstart hC _ => ?_
  obtain ⟨t, rest, hts, -, hne⟩ := hC
  rcases hstart.alike.split with ⟨hend, -⟩ | ⟨u, u', more, more', hu, hu', hleaf, hmore⟩
  · obtain ⟨last, rfl, hlast⟩ := hc.ended
    obtain ⟨rfl, -⟩ := List.cons.inj (hts.symm.trans hend)
    exact absurd hlast hne
  · obtain ⟨rfl, rfl⟩ := List.cons.inj (hts.symm.trans hu)
    have hkind : u'.kind ≠ .eof := by
      have hsame : t.kind = u'.kind := congrArg Prod.fst hleaf
      rwa [← hsame]
    obtain ⟨hext, hrest⟩ := extends_take hu hne
    obtain ⟨hext', hrest'⟩ := extends_take hu' hkind
    rw [← Token.tree_eq_of_leaf hleaf] at hext'
    have herrors : (Parser.take.run s').2.errors = s'.errors := by rw [take_run, hu']
    exact ⟨rfl, _, hstart.poised, hstart.sound, hext, hext', herrors, by rwa [hrest, hrest']⟩

theorem expect {kind : Kind} (hkind : kind ≠ .eof) (hends : inside = true ∨ kind ≠ .semicolon)
    (message : String) : Replays a b inside C fun _ => expect kind message := by
  refine isAt_bind hc (hends.imp_right fun hne _ => ?_) fun x => ite (fun hx => ?_) fun _ => ?_
  · rw [beq_false_of_ne hkind.symm, beq_false_of_ne hne.symm]
  · refine (bump hc (.inr ?_)).bind fun _ => pure _
    rintro ts ⟨-, rfl⟩
    exact eq_of_beq hx ▸ hkind
  · exact (complain _).bind fun _ => pure _

theorem require {kind : Kind} (hkind : kind ≠ .eof) (hends : inside = true ∨ kind ≠ .semicolon)
    (message : String) : Replays a b inside C fun _ => require kind message :=
  (expect hc hkind hends message).bind fun _ => pure _

theorem eat {kind : Kind} (hkind : kind ≠ .eof) (hends : inside = true ∨ kind ≠ .semicolon) :
    Replays a b inside C fun _ => eat kind := by
  refine isAt_bind hc (hends.imp_right fun hne _ => ?_) fun x => ite (fun hx => ?_) fun _ => pure _
  · rw [beq_false_of_ne hkind.symm, beq_false_of_ne hne.symm]
  · refine (bump hc (.inr ?_)).bind fun _ => pure _
    rintro ts ⟨-, rfl⟩
    exact eq_of_beq hx ▸ hkind

/-! ### Nodes -/

omit hc in
/-- A node that takes over what the runs have read since the mark. -/
theorem nodeFrom {kind : Kind} {body : Parser Unit} (hbody : Replays a b inside C fun _ => body) :
    Replays a b inside C fun start => nodeFrom start kind body := by
  refine ⟨fun start => (hbody.onward 0).nodeFrom start,
    fun {s₀ s s₀' s' front} hstart hC hcalm => ?_⟩
  have hadmits := hstart.left.admits hstart.poised.underway.sound
  have hadmits' := hstart.right.admits hstart.sound
  rw [run_nodeFrom_of_admits hadmits] at hcalm
  obtain ⟨-, new, hnew⟩ := hbody.again (hstart.opened kind) hC (hcalm.of_finishNode.since rfl)
  have hclosed := hnew.closed hstart.poised hstart.sound
  rw [← run_nodeFrom_of_admits hadmits, ← run_nodeFrom_of_admits hadmits'] at hclosed
  exact ⟨rfl, _, hclosed⟩

theorem node {kind : Kind} {body : Parser Unit} (hC : Steady C)
    (hbody : Replays a b inside C fun _ => body) :
    Replays a b inside C fun _ => node kind body := by
  refine of_here (hbody.onward 0).node fun s s' hstart hts hcalm => ?_
  have hflushed := hstart.flushed hc
  have hopened := hflushed.here.opened kind
  have hahead : C (flushTrivia.run s).2.rest := rest_flushTrivia s ▸ hC _ hts
  obtain ⟨-, new, hnew⟩ := hbody.again hopened hahead ((Calm.of_finishNode hcalm).since rfl)
  have hclosed := hnew.closed hflushed.here.poised hflushed.here.sound
  exact ⟨rfl, _, hflushed.trans hclosed⟩

theorem mark_bind {f : Nat → Parser α} (hf : Replays a b inside (fun _ => True) f) :
    Replays a b inside C fun _ => mark >>= f := by
  refine of_here (Onward.mark.bind hf.onward) fun s s' hstart _ hcalm => ?_
  have hflushed := hstart.flushed hc
  obtain ⟨hvalue, new, hnew⟩ := hf.again hflushed.here trivial (hcalm.since rfl)
  exact ⟨hvalue, _, hflushed.trans hnew⟩

omit hc in
theorem grownSince : Replays a b inside C grownSince := by
  refine ⟨.grownSince, fun {s₀ s s₀' s' front} hstart _ _ => ⟨?_, _, hstart⟩⟩
  have hmark := hstart.left.mark_eq
  have hmark' := hstart.right.mark_eq
  show decide (s₀.builder.mark < s.builder.mark) = decide (s₀'.builder.mark < s'.builder.mark)
  rw [decide_eq_decide, hmark, hmark']
  omega

/-! ### Repetition -/

omit hc in
theorem loopUpTo {step : Nat → Parser Bool} (h : Replays a b inside (fun _ => True) step)
    (count : Nat) : Replays a b inside (fun _ => True) fun start => loopUpTo (step start) count := by
  induction count with
  | zero => exact pure _
  | succ count ih => exact h.bind fun _ => ite (fun _ => ih) fun _ => pure _

omit hc in
/-- A loop in both runs ends before its bound. -/
theorem loop {step : Nat → Parser Bool} (h : Replays a b inside (fun _ => True) step)
    (hprogress : ∀ start, Progresses (step start)) :
    Replays a b inside C fun start => loop (step start) := by
  refine ⟨fun start => (h.onward start).loop, fun {s₀ s s₀' s' front} hstart _ hcalm => ?_⟩
  have hrun : ∀ start (s : ParserState) n, s.rest.length < n →
      (Parser.loop (step start)).run s = (Parser.loopUpTo (step start) n).run s := fun start s n hn =>
    have hpending := pending_le_length s.rest
    loopUpTo_run_eq (hprogress start) (by omega) (by omega)
  have hcount : s.rest.length < s.rest.length + s'.rest.length + 1 ∧
      s'.rest.length < s.rest.length + s'.rest.length + 1 := by omega
  rw [hrun _ s _ hcount.1] at hcalm ⊢
  rw [hrun _ s' _ hcount.2]
  exact (loopUpTo h _).again hstart trivial hcalm

omit hc in
theorem whileAhead {question : List Token → Bool} {body : Nat → Parser Unit}
    (hsame : ∀ ts us, Alike a b ts us → question ts = question us)
    (hbody : Replays a b inside (fun ts => question ts = true) body)
    (htakes : ∀ start, Takes (fun ts => question ts = true) (body start)) :
    Replays a b inside C fun start => whileAhead question (body start) := by
  have hstep : Replays a b inside (fun _ => True) fun start =>
      Grammar.stepWhile question (body start) := by
    refine ask_bind (fun ts us h _ _ _ => by rw [hsame ts us h]) fun more => ite (fun hmore => ?_)
      fun _ => pure _
    exact (hbody.weaken fun ts hts => hts.2.trans hmore).bind fun _ => pure _
  exact hstep.loop fun start => Steps.progresses fun n => Grammar.steps_while (.of_takes (htakes start))

theorem separated {item : Parser Unit} (hitem : Replays a b inside (fun _ => True) fun _ => item) :
    Replays a b inside C fun _ => separated item := by
  have hstep : Replays a b inside (fun _ => True) fun _ => Grammar.stepSeparated item :=
    hitem.bind fun _ => eat hc (by decide) (.inr (by decide))
  exact hstep.loop fun _ => Steps.progresses fun n =>
    Grammar.steps_separated (.of_shrinks (hitem.onward 0).shrinks)

/-- Inside of brackets the kinds that end a list may be any. -/
theorem separatedUntil {kinds : List Kind} {item : Parser Unit}
    (hitem : Replays a b true (fun _ => True) fun _ => item) :
    Replays a b true C fun _ => separatedUntil kinds item := by
  have hstep : Replays a b true (fun _ => True) fun _ => Grammar.stepSeparatedUntil kinds item :=
    isAtAny_bind hc (.inl rfl) fun _ => ite (fun _ => pure _) fun _ =>
      hitem.under.bind fun _ => eat hc (by decide) (.inl rfl)
  exact hstep.loop fun _ => Steps.progresses fun n =>
    Grammar.steps_separatedUntil (.of_shrinks (hitem.onward 0).shrinks)

theorem untilAny {kinds : List Kind} {body : Parser Unit}
    (hbody : Replays a b true (fun _ => True) fun _ => body)
    (htakes : Takes (fun ts => kinds.contains (Lookahead.kind ts) = false) body) :
    Replays a b true C fun _ => untilAny kinds body := by
  have hstep : Replays a b true (fun _ => True) fun _ => Grammar.stepUntil kinds body :=
    isAtAny_bind hc (.inl rfl) fun _ => ite (fun _ => pure _) fun _ =>
      hbody.under.bind fun _ => pure _
  exact hstep.loop fun _ => Steps.progresses fun n => Grammar.steps_until (.of_takes htakes)

/-- The reader of brackets sees to it that a token stands behind what is inside of them. -/
theorem closed_by {p : Parser α} {closing : Kind} (hp : Replays a b true C fun _ => p)
    (hclosing : closing ≠ .eof ∧ closing ≠ .semicolon) (message : String) :
    Replays a b false C fun _ => p >>= fun _ => Parser.require closing message := by
  have hrequire : Replays a b false (fun _ => True) fun _ => Parser.require closing message :=
    require hc hclosing.1 (.inr hclosing.2) message
  refine of_here ((hp.onward 0).bind fun _ => hrequire.onward 0) fun s s' hstart hC hcalm => ?_
  obtain ⟨hfirst, hsecond⟩ :=
    hcalm.split (hp.onward 0) (fun _ => hrequire.onward 0) hstart.poised.once
  have hended := hstart.poised.underway.ended.suffix ((hp.onward 0).shrinks s) hfirst.rest
  have hkind : Lookahead.kind (p.run s).2.rest = closing := kind_of_require hended hsecond.errors
  obtain ⟨-, new, hmid⟩ := hp.again hstart hC ⟨hfirst.errors, hfirst.rest, fun _ => hkind ▸ hclosing.1⟩
  exact hrequire.again hmid trivial hsecond

end

end Replays

/-! ## Semicolons -/

/-- A parser complains, unless there is a semicolon ahead. -/
def WantsSemicolon (p : Parser α) : Prop := ∀ s, Ended s.rest → EndsOnce s.rest →
  Calm false s (p.run s).2 → ∃ t ∈ s.rest, t.kind = .semicolon

namespace WantsSemicolon

variable {p q : Parser α} {f : α → Parser β}

theorem complain (message : String) : WantsSemicolon (complain message) := by
  intro s hend _ hcalm
  have herrors := hcalm.errors
  rw [run_complain message hend] at herrors
  exact absurd herrors (List.cons_ne_self _ _)

theorem require (message : String) : WantsSemicolon (require .semicolon message) := by
  intro s hend _ hcalm
  have hkind := kind_of_require hend hcalm.errors
  obtain ⟨t, rest, hrest, ht⟩ := exists_next (show Lookahead.kind s.rest ≠ .eof by rw [hkind]; decide)
  exact ⟨t, (significant_suffix _).mem (hrest ▸ List.mem_cons_self), ht.trans hkind⟩

theorem left (hp : WantsSemicolon p) (honward : Onward p) (hf : ∀ x, Onward (f x)) :
    WantsSemicolon (p >>= f) :=
  fun s hend honce hcalm => hp s hend honce (hcalm.split honward hf honce).1

theorem right (hp : Onward p) (hf : ∀ x, Onward (f x)) (h : ∀ x, WantsSemicolon (f x)) :
    WantsSemicolon (p >>= f) := by
  intro s hend honce hcalm
  obtain ⟨hfirst, hsecond⟩ := hcalm.split hp hf honce
  have hsuffix := hp.shrinks s
  obtain ⟨t, ht, hkind⟩ := h _ _ (hend.suffix hsuffix hfirst.rest) (honce.suffix hsuffix) hsecond
  exact ⟨t, hsuffix.subset ht, hkind⟩

theorem ask_bind {question : List Token → γ} {f : γ → Parser α} (h : ∀ x, WantsSemicolon (f x)) :
    WantsSemicolon (ask question >>= f) := fun s => h _ s

theorem ite {c : Prop} [Decidable c] (hp : WantsSemicolon p) (hq : WantsSemicolon q) :
    WantsSemicolon (if c then p else q) := by
  split
  · exact hp
  · exact hq

theorem node {kind : Kind} {body : Parser Unit} (h : WantsSemicolon body) :
    WantsSemicolon (node kind body) := by
  intro s hend honce hcalm
  have hsuffix : (flushTrivia.run s).2.rest <:+ s.rest := shrinks_flushTrivia s
  obtain ⟨t, ht, hkind⟩ := h (opening (flushTrivia.run s).2 kind (flushTrivia.run s).2.builder.mark)
    ((extends_flushTrivia s).ended hend) (honce.suffix hsuffix) ((Calm.of_finishNode hcalm).since rfl)
  exact ⟨t, hsuffix.subset ht, hkind⟩

end WantsSemicolon

/-- Whether a declaration follows is the same in both runs, if what follows needs a semicolon. -/
theorem Replays.atLocalDeclaration_bind (hc : Closes a b) {f : Nat → Bool → Parser α}
    (hwants : ∀ start x, WantsSemicolon (f start x))
    (hf : ∀ x, Replays a b inside (fun ts => C ts ∧ Lookahead.atLocalDeclaration ts = x)
      fun start => f start x) :
    Replays a b inside C fun start => ask Lookahead.atLocalDeclaration >>= f start := by
  refine ask_bind_of (fun s us start hs halike _ hcalm start' => ?_) hf
  rw [hc.atLocalDeclaration_eq halike (hwants start _ s hs.underway.ended hs.once hcalm.outside)]

end Parser

end CSharpKit.Syntax
