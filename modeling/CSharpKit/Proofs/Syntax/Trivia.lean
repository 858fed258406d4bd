import CSharpKit.Proofs.Syntax.Consumption
import CSharpKit.Proofs.Syntax.ReadingRules

/-!
# Where trivia goes

Trivia is moved to the trees before the next token or node is, so a node opens with a
token that is no trivia, if it has any token. As long as there is nothing to complain
about, readers take what they are for: no node is empty, and none closes with trivia.

`Passage` says this of a run. Its second part is about a run without a complaint; a
reader that is called inside brackets may also count on a token behind it, because the
reader of the brackets complains if the text ends there.
-/

namespace CSharpKit.Syntax

namespace Tree

/-- The first token in a row of trees, if there is one, is no trivia. -/
def OpensPlain (cs : Forest) : Prop := ∀ l ∈ (forestLeaves cs).head?, l.1.isTrivia = false

/-- The last token in a row of trees, if there is one, is no trivia. -/
def ClosesPlain (cs : Forest) : Prop := ∀ l ∈ (forestLeaves cs).getLast?, l.1.isTrivia = false

/-- Every node is empty or opens with a token that is no trivia. -/
def Attached : Tree → Prop := All (fun _ cs => OpensPlain cs) fun _ _ => True

/-- Every node opens and closes with a token that is no trivia, and none is an error. -/
def Flawless : Tree → Prop :=
  All (fun k cs => k ≠ .error ∧ forestLeaves cs ≠ [] ∧ OpensPlain cs ∧ ClosesPlain cs) fun _ _ => True

theorem attached_token (k : Kind) (text : String) : Attached (.token k text) := by simp [Attached]

theorem flawless_token (k : Kind) (text : String) : Flawless (.token k text) := by simp [Flawless]

theorem attached_node {k : Kind} {cs : Forest} :
    Attached (.node k cs) ↔ OpensPlain cs ∧ ∀ c ∈ cs, Attached c := all_node

theorem flawless_node {k : Kind} {cs : Forest} : Flawless (.node k cs) ↔
    (k ≠ .error ∧ forestLeaves cs ≠ [] ∧ OpensPlain cs ∧ ClosesPlain cs) ∧ ∀ c ∈ cs, Flawless c :=
  all_node

theorem closesPlain_nil : ClosesPlain [] := by simp [ClosesPlain, forestLeaves]

theorem ClosesPlain.append {f g : Forest} (hf : ClosesPlain f) (hg : ClosesPlain g) :
    ClosesPlain (f ++ g) := by
  intro l hl
  rw [forestLeaves_append, List.getLast?_append] at hl
  cases hlast : (forestLeaves g).getLast? with
  | none => exact hf l (by simpa [hlast] using hl)
  | some last => exact hg l (by simpa [hlast] using hl)

/-- Trees that close plain, behind any others. -/
theorem ClosesPlain.append_of_ne_nil {g : Forest} (hg : ClosesPlain g) (hne : forestLeaves g ≠ [])
    (f : Forest) : ClosesPlain (f ++ g) := by
  intro l hl
  rw [forestLeaves_append, List.getLast?_append_of_ne_nil _ hne] at hl
  exact hg l hl

@[simp] theorem closesPlain_node {k : Kind} {cs : Forest} :
    ClosesPlain [.node k cs] ↔ ClosesPlain cs := by
  simp [ClosesPlain, forestLeaves, leaves]

end Tree

open Syntax.Tree

namespace Parser

variable {α β : Type} {inside : Bool} {n m : Prop} {C C' : List Token → Prop}

/-! ## Tokens up to the end -/

/-- The tokens up to the one for the end of a text. -/
def Ended (ts : List Token) : Prop := ∃ front last, ts = front ++ [last] ∧ last.kind = .eof

theorem kind_append_ne_eof {tokens rest : List Token} (htokens : ∀ t ∈ tokens, t.kind ≠ .eof)
    (hrest : Lookahead.kind rest ≠ .eof) : Lookahead.kind (tokens ++ rest) ≠ .eof := by
  induction tokens with
  | nil => exact hrest
  | cons t tokens ih =>
      have hmore := ih fun t ht => htokens t (List.mem_cons_of_mem _ ht)
      by_cases ht : t.isTrivia = true
      · simpa [Lookahead.kind, Lookahead.significant, ht] using hmore
      · simpa [Lookahead.kind, Lookahead.significant, Lookahead.headKind?, ht] using
          htokens t List.mem_cons_self

section

variable {s s' : ParserState} {new : Forest}

theorem Extends.ended (h : Extends s s' new) (hs : Ended s.rest) : Ended s'.rest := by
  obtain ⟨tokens, hrest, -, htokens⟩ := h.taken
  obtain ⟨front, last, hfront, hlast⟩ := hs
  rw [hrest, List.append_eq_append_iff] at hfront
  rcases hfront with ⟨more, rfl, hmore⟩ | ⟨more, rfl, hmore⟩
  · exact ⟨more, last, hmore, hlast⟩
  · cases more with
    | nil => exact ⟨[], last, hmore.symm, hlast⟩
    | cons t more =>
        obtain ⟨rfl, -⟩ := List.cons.inj hmore
        exact absurd hlast (htokens last (by simp))

theorem Ended.significant_ne_nil {ts : List Token} (h : Ended ts) : Lookahead.significant ts ≠ [] := by
  obtain ⟨front, last, rfl, hlast⟩ := h
  intro hnil
  have htrivia := List.dropWhile_eq_nil_iff.mp hnil last (by simp)
  simp [Token.isTrivia, hlast, Kind.isTrivia] at htrivia

/-- A complaint is recorded, as there is a token to complain about. -/
theorem run_complain (message : String) (h : Ended s.rest) :
    ((complain message).run s).2 = { s with errors :=
      ⟨message, ((Lookahead.significant s.rest).head h.significant_ne_nil).span⟩ :: s.errors } := by
  rw [complain_run, List.head?_eq_some_head h.significant_ne_nil]

/-- A token that is asked for without a complaint is there. -/
theorem kind_of_require {kind : Kind} {message : String} (hend : Ended s.rest)
    (h : ((require kind message).run s).2.errors = s.errors) : Lookahead.kind s.rest = kind := by
  by_contra hkind
  have hrun : ((require kind message).run s).2 = ((complain message).run s).2 := by
    show ((if (Lookahead.kind s.rest == kind) = true then bump >>= fun _ => pure true
      else complain message >>= fun _ => pure false : Parser Bool).run s).2 = _
    rw [if_neg (by simpa using hkind)]
    rfl
  rw [hrun, run_complain message hend] at h
  exact List.cons_ne_self _ _ h

/-- The end of the text stays ahead. -/
theorem Extends.ne_eof (h : Extends s s' new) (hne : Lookahead.kind s'.rest ≠ .eof) :
    Lookahead.kind s.rest ≠ .eof := by
  obtain ⟨tokens, hrest, -, htokens⟩ := h.taken
  rw [hrest]
  exact kind_append_ne_eof htokens hne

/-- What is read from a token on that is no trivia opens plain. -/
theorem Extends.opensPlain (h : Extends s s' new) (hready : Ready s.rest) : OpensPlain new := by
  obtain ⟨tokens, hrest, hleaves, -⟩ := h.taken
  intro l hl
  cases tokens with
  | nil => simp [hleaves] at hl
  | cons t tokens =>
      obtain rfl : t.leaf = l := by simpa [hleaves] using hl
      show t.isTrivia = false
      by_contra htrivia
      simp [Ready, triviaAhead, hrest, htrivia] at hready

end

/-! ## Runs -/

/-- Nothing was complained about between two states, and a parser that is called inside
brackets has not come to the end of the text. -/
def Smooth (inside : Bool) (s s' : ParserState) : Prop :=
  s'.errors = s.errors ∧ (inside = true → Lookahead.kind s'.rest ≠ .eof)

/-- A run without a complaint is so up to any state on its way, and from there on. -/
theorem Smooth.split {s s₁ s₂ : ParserState} {new : Forest} (h : Smooth inside s s₂)
    (h₁ : s.errors <:+ s₁.errors) (hext : Extends s₁ s₂ new) (h₂ : s₁.errors <:+ s₂.errors) :
    Smooth inside s s₁ ∧ Smooth inside s₁ s₂ := by
  have herrors : s₁.errors = s.errors := by
    refine (h₁.eq_of_length_le ?_).symm
    rw [← h.1]
    exact h₂.length_le
  refine ⟨⟨herrors, fun hinside => hext.ne_eof (h.2 hinside)⟩, h.1.trans herrors.symm, h.2⟩

/-- The run from `s` to `s'` reads the trees `new` as the rules for trivia have it, and
takes a token, if `takes` holds and there is nothing to complain about. -/
structure Passage (inside : Bool) (takes : Prop) (s s' : ParserState) (new : Forest) : Prop where
  ext : Extends s s' new
  errors : s.errors <:+ s'.errors
  attached : Each Attached new
  flawless : Smooth inside s s' →
    Each Flawless new ∧ ClosesPlain new ∧ (takes → forestLeaves new ≠ [])

namespace Passage

variable {s s₁ s₂ : ParserState} {f g : Forest}

theorem refl (s : ParserState) : Passage inside False s s [] :=
  ⟨Extends.refl s, List.suffix_refl _, Each.nil, fun _ => ⟨Each.nil, closesPlain_nil, False.elim⟩⟩

theorem imp (h : Passage inside n s s₁ f) (hmn : m → n) : Passage inside m s s₁ f :=
  ⟨h.ext, h.errors, h.attached, fun hsmooth =>
    (h.flawless hsmooth).imp_right (And.imp_right fun htakes hm => htakes (hmn hm))⟩

/-- A run without a complaint is so up to any state on its way. -/
theorem smooth (h : Smooth inside s s₂) (h₁ : s.errors <:+ s₁.errors)
    (h₂ : Passage inside n s₁ s₂ g) : Smooth inside s s₁ ∧ Smooth inside s₁ s₂ :=
  h.split h₁ h₂.ext h₂.errors

theorem trans (h : Passage inside n s s₁ f) (h' : Passage inside m s₁ s₂ g) :
    Passage inside (n ∨ m) s s₂ (f ++ g) := by
  refine ⟨h.ext.trans h'.ext, h.errors.trans h'.errors, h.attached.append h'.attached,
    fun hsmooth => ?_⟩
  obtain ⟨hfirst, hsecond⟩ := smooth hsmooth h.errors h'
  obtain ⟨hf, hfplain, hftakes⟩ := h.flawless hfirst
  obtain ⟨hg, hgplain, hgtakes⟩ := h'.flawless hsecond
  refine ⟨hf.append hg, hfplain.append hgplain, ?_⟩
  rw [forestLeaves_append, ne_eq, List.append_eq_nil_iff, not_and_or]
  exact Or.imp hftakes hgtakes

/-- Trivia before a run that takes a token. -/
theorem behind_trivia (h : Passage inside True (flushTrivia.run s).2 s₁ f) :
    Passage inside True s s₁ (triviaAhead s.rest ++ f) := by
  refine ⟨(extends_flushTrivia s).trans h.ext, h.errors, ?_, fun hsmooth => ?_⟩
  · exact Each.append (triviaAhead_all (fun k text _ => attached_token k text) _) h.attached
  · obtain ⟨hf, hplain, htakes⟩ := h.flawless hsmooth
    have hne := htakes trivial
    refine ⟨Each.append (triviaAhead_all (fun k text _ => flawless_token k text) _) hf,
      hplain.append_of_ne_nil hne _, fun _ => ?_⟩
    simp [forestLeaves_append, hne]

theorem opened (h : Passage inside n s s₁ f) (kind : Kind) (first : Nat) :
    Passage inside n (opening s kind first) (opening s₁ kind first) f :=
  ⟨h.ext.opening kind first, h.errors, h.attached, h.flawless⟩

/-- A node around what was read since the start of a run. -/
theorem closed {kind : Kind} (h : Passage inside True (opening s kind s.builder.mark) s₁ f)
    (hready : Ready s.rest) (hkind : kind = .error → s₁.errors ≠ s.errors) :
    Passage inside True s (finishNode.run s₁).2 [.node kind f] := by
  obtain ⟨hext, hrest⟩ := extends_finishNode h.ext
  have herrors := errors_finishNode s₁
  have hopens : OpensPlain f := h.ext.opensPlain hready
  refine ⟨hext, herrors ▸ h.errors, Each.singleton (attached_node.mpr ⟨hopens, h.attached⟩),
    fun hsmooth => ?_⟩
  rw [Smooth, herrors, hrest] at hsmooth
  obtain ⟨hf, hplain, htakes⟩ := h.flawless hsmooth
  have hne := htakes trivial
  refine ⟨Each.singleton (flawless_node.mpr ⟨⟨?_, hne, hopens, hplain⟩, hf⟩), ?_, fun _ => ?_⟩
  · exact fun hk => hkind hk hsmooth.1
  · exact closesPlain_node.mpr hplain
  · simpa [forestLeaves, leaves] using hne

end Passage

/-! ## Readers -/

/-- Seen from `s₀`, running a parser in the state `s` reads on as the rules have it. -/
abbrev Passes (inside : Bool) (takes : Prop) (s₀ : ParserState) (p : Parser α) (s : ParserState) :
    Prop := ∃ new, Passage inside takes s₀ (p.run s).2 new

theorem Passes.run_bind {s₀ s : ParserState} {p : Parser α} {f : α → Parser β}
    (h : Passes inside n s₀ (f (p.run s).1) (p.run s).2) : Passes inside n s₀ (p >>= f) s := h

theorem Passes.mark {s₀ s : ParserState} {f : Nat → Parser β}
    (h : Passes inside n s₀ (f (flushTrivia.run s).2.builder.mark) (flushTrivia.run s).2) :
    Passes inside n s₀ (mark >>= f) s := h

theorem Passes.ask {s₀ s : ParserState} {question : List Token → α} {f : α → Parser β}
    (h : Passes inside n s₀ (f (question s.rest)) s) :
    Passes inside n s₀ (ask question >>= f) s := h

theorem Passes.congr {s₀ s s' : ParserState} {p q : Parser α} (heq : (p.run s).2 = (q.run s').2)
    (h : Passes inside n s₀ q s') : Passes inside n s₀ p s := by
  obtain ⟨new, hnew⟩ := h
  exact ⟨new, heq ▸ hnew⟩

/-- The runs of a parser read trees as the rules for trivia have it, if the tokens ahead
are as `C` says; they take a token, if `takes` holds and there is nothing to complain about. -/
def NeatIf (inside : Bool) (takes : Prop) (C : List Token → Prop) (p : Parser α) : Prop :=
  ∀ s, Sound s → Ended s.rest → C s.rest → Passes inside takes s p s

abbrev Neat (inside : Bool) (takes : Prop) (p : Parser α) : Prop :=
  NeatIf inside takes (fun _ => True) p

/-- A parser of trivia ahead leaves what it is asked for. -/
def Steady (C : List Token → Prop) : Prop := ∀ ts, C ts → C (Lookahead.significant ts)

namespace NeatIf

variable {p q : Parser α} {f : α → Parser β}

theorem weaken (h : NeatIf inside n C' p) (hC : ∀ ts, C ts → C' ts) : NeatIf inside n C p :=
  fun s hs hend hc => h s hs hend (hC _ hc)

theorem under (h : Neat inside n p) : NeatIf inside n C p := h.weaken fun _ _ => trivial

theorem imp (h : NeatIf inside n C p) (hmn : m → n) : NeatIf inside m C p := fun s hs hend hc =>
  (h s hs hend hc).imp fun _ hnew => hnew.imp hmn

theorem neat (h : NeatIf inside n C p) : NeatIf inside False C p := h.imp False.elim

/-- Outside of brackets less is known. -/
theorem within (h : NeatIf false n C p) : NeatIf inside n C p := fun s hs hend hc =>
  (h s hs hend hc).imp fun _ hnew =>
    ⟨hnew.ext, hnew.errors, hnew.attached, fun hsmooth => hnew.flawless ⟨hsmooth.1, nofun⟩⟩

theorem pure (a : α) : NeatIf inside False C (Pure.pure a : Parser α) :=
  fun s _ _ _ => ⟨[], .refl s⟩

/-- What follows a parser knows how it leaves the tokens ahead. -/
theorem seq (hp : NeatIf inside n C p) (hleaves : Leaves C C' p)
    (hf : ∀ a, NeatIf inside m C' (f a)) : NeatIf inside n C (p >>= f) := by
  intro s hs hend hc
  obtain ⟨new, hnew⟩ := hp s hs hend hc
  obtain ⟨more, hmore⟩ := hf (p.run s).1 (p.run s).2 (hnew.ext.sound hs) (hnew.ext.ended hend)
    (hleaves s hc).2
  exact ⟨new ++ more, (hnew.trans hmore).imp .inl⟩

/-- The first parser takes what has to be taken. -/
theorem bind (hp : NeatIf inside n C p) (hf : ∀ a, Neat inside m (f a)) :
    NeatIf inside n C (p >>= f) := by
  intro s hs hend hc
  obtain ⟨new, hnew⟩ := hp s hs hend hc
  obtain ⟨more, hmore⟩ := hf (p.run s).1 (p.run s).2 (hnew.ext.sound hs) (hnew.ext.ended hend) trivial
  exact ⟨new ++ more, (hnew.trans hmore).imp .inl⟩

/-- The second parser takes what has to be taken. -/
theorem next (hp : NeatIf inside n C p) (hf : ∀ a, Neat inside m (f a)) :
    NeatIf inside m C (p >>= f) := by
  intro s hs hend hc
  obtain ⟨new, hnew⟩ := hp s hs hend hc
  obtain ⟨more, hmore⟩ := hf (p.run s).1 (p.run s).2 (hnew.ext.sound hs) (hnew.ext.ended hend) trivial
  exact ⟨new ++ more, (hnew.trans hmore).imp .inr⟩

theorem get_bind {f : ParserState → Parser β} (hf : ∀ s, NeatIf inside n C (f s)) :
    NeatIf inside n C (get >>= f) := fun s => hf s s

/-- What follows a question knows the answer. -/
theorem ask_bind {question : List Token → α}
    (hf : ∀ a, NeatIf inside n (fun ts => C ts ∧ question ts = a) (f a)) :
    NeatIf inside n C (ask question >>= f) := fun s hs hend hc => hf _ s hs hend ⟨hc, rfl⟩

theorem ask (question : List Token → α) : NeatIf inside False C (ask question) :=
  fun s _ _ _ => ⟨[], .refl s⟩

theorem ite {c : Prop} [Decidable c] (hp : c → NeatIf inside n C p) (hq : ¬c → NeatIf inside n C q) :
    NeatIf inside n C (if c then p else q) := by
  split
  · exact hp ‹_›
  · exact hq ‹_›

/-- A part that may be left out. -/
theorem opt {c : Prop} [Decidable c] {p : Parser Unit} {f : Unit → Parser β}
    (hp : c → NeatIf inside n C p) (hf : ∀ u, Neat inside m (f u)) :
    NeatIf inside m C (if c then p >>= f else f ()) :=
  ite (fun hc => (hp hc).next hf) fun _ => (hf ()).under

/-- A complaint is what makes up for a token that is missing. -/
theorem complain (message : String) : NeatIf inside True C (complain message) := by
  intro s _ hend _
  unfold Passes
  rw [run_complain message hend]
  refine ⟨[], .of_same rfl rfl rfl, List.suffix_cons _ _, Each.nil, fun hsmooth => ?_⟩
  exact absurd (congrArg List.length hsmooth.1) (Nat.succ_ne_self _)

theorem bump (hC : ∀ ts, C ts → Lookahead.kind ts ≠ .eof) : NeatIf inside True C bump := by
  intro s _ _ hc
  obtain ⟨new, hext, t, hrest, -, rfl⟩ := yields_bump (hC _ hc)
  have hplain := not_isTrivia_of_significant hrest
  refine ⟨_, hext, ?_, ?_, fun _ => ⟨?_, ?_, fun _ => ?_⟩⟩
  · simp [errors_bump]
  · exact Each.append (triviaAhead_all (fun k text _ => attached_token k text) _)
      (Each.singleton (attached_token _ _))
  · exact Each.append (triviaAhead_all (fun k text _ => flawless_token k text) _)
      (Each.singleton (flawless_token _ _))
  · intro l hl
    obtain rfl : t.leaf = l := by
      simpa [forestLeaves_append, forestLeaves, leaves, Token.tree, Token.leaf] using hl
    exact hplain
  · simp [forestLeaves_append, forestLeaves, leaves, Token.tree]

/-- Inside brackets there is always a token to take. -/
theorem bump_inside : NeatIf true True C Parser.bump := by
  intro s hs hend _
  by_cases heof : Lookahead.kind s.rest = .eof
  · unfold Passes
    rw [bump_at_eof heof]
    refine ⟨triviaAhead s.rest, extends_flushTrivia s, List.suffix_refl _,
      triviaAhead_all (fun k text _ => attached_token k text) _, fun hsmooth => ?_⟩
    have hne := hsmooth.2 rfl
    rw [rest_flushTrivia, kind_significant] at hne
    exact absurd heof hne
  · exact bump (C := fun ts => Lookahead.kind ts ≠ .eof) (fun _ => id) s hs hend heof

/-- A body is never read without a complaint. -/
def Complains (body : Parser Unit) : Prop :=
  ∀ s, Sound s → Ended s.rest → (body.run s).2.errors ≠ s.errors

theorem node_of {kind : Kind} {body : Parser Unit} (hC : Steady C)
    (hbody : NeatIf inside True C body) (hkind : kind = .error → Complains body) :
    NeatIf inside True C (Parser.node kind body) := by
  intro s _ hend hc
  have hrest := rest_flushTrivia s
  have hended := (extends_flushTrivia s).ended hend
  have hready : Ready (flushTrivia.run s).2.rest := hrest ▸ triviaAhead_significant s.rest
  have hahead : C (flushTrivia.run s).2.rest := hrest ▸ hC _ hc
  have hsound := sound_opening (Extends.refl (flushTrivia.run s).2) kind
  obtain ⟨new, hnew⟩ := hbody _ hsound hended hahead
  exact ⟨_, (hnew.closed hready fun hk => hkind hk _ hsound hended).behind_trivia⟩

theorem node {kind : Kind} {body : Parser Unit} (hkind : kind ≠ .error) (hC : Steady C)
    (hbody : NeatIf inside True C body) : NeatIf inside True C (Parser.node kind body) :=
  node_of hC hbody fun h => absurd h hkind

theorem complains_bind {message : String} {more : Parser Unit} (hmore : Neat inside n more) :
    Complains (Parser.complain message >>= fun _ => more) := by
  intro s hs hend herrors
  have hrun := run_complain message hend
  obtain ⟨new, hnew⟩ := hmore ((Parser.complain message).run s).2 (hrun ▸ hs) (hrun ▸ hend) trivial
  have hlength : ((Parser.complain message).run s).2.errors.length ≤ s.errors.length :=
    herrors ▸ hnew.errors.length_le
  rw [hrun] at hlength
  exact absurd hlength (Nat.not_succ_le_self _)

/-- An error is read with a complaint. -/
theorem node_error {message : String} {more : Parser Unit} (hmore : Neat inside n more) :
    NeatIf inside True C (Parser.node .error (Parser.complain message >>= fun _ => more)) :=
  under (node_of (fun _ => id) ((complain message).bind fun _ => hmore) fun _ => complains_bind hmore)

/-! ### Single tokens -/

theorem eat {kind : Kind} (hkind : kind ≠ .eof) : NeatIf inside False C (eat kind) := by
  refine ask_bind fun a => ite (fun ha => ?_) fun _ => .pure _
  refine ((bump ?_).bind fun _ => .pure _).neat
  rintro ts ⟨-, rfl⟩
  exact eq_of_beq ha ▸ hkind

/-- What follows a token that is read where it stands ahead. -/
theorem eat_bind {kind : Kind} (hkind : kind ≠ .eof) {f : Bool → Parser β}
    (htaken : Neat inside m (f true)) (hmissing : NeatIf inside n C (f false)) :
    NeatIf inside n C (Parser.eat kind >>= f) := by
  intro s hs hend hc
  unfold Passes
  rw [run_eat_bind]
  split
  case isTrue hat =>
    have hne : Lookahead.kind s.rest ≠ .eof := eq_of_beq hat ▸ hkind
    have hbump : NeatIf inside True (fun ts => Lookahead.kind ts ≠ .eof)
        (Parser.bump >>= fun _ => f true) := (bump fun _ => id).bind fun _ => htaken
    exact hbump.imp (fun _ => trivial) s hs hend hne
  case isFalse => exact hmissing s hs hend hc

theorem expect {kind : Kind} (hkind : kind ≠ .eof) (message : String) :
    NeatIf inside True C (expect kind message) := by
  refine ask_bind fun a => ite (fun ha => (bump ?_).bind fun _ => .pure _) fun _ =>
    (complain message).bind fun _ => .pure _
  rintro ts ⟨-, rfl⟩
  exact eq_of_beq ha ▸ hkind

theorem require {kind : Kind} (hkind : kind ≠ .eof) (message : String) :
    NeatIf inside True C (require kind message) := (expect hkind message).bind fun _ => .pure _

/-- The reader of brackets sees to it that a token stands behind what is inside them. -/
theorem closed_by {closing : Kind} (hp : NeatIf true n C p) (hclosing : closing ≠ .eof)
    (message : String) : NeatIf false True C (p >>= fun _ => Parser.require closing message) := by
  intro s hs hend hc
  obtain ⟨new, hnew⟩ := hp s hs hend hc
  have hsound := hnew.ext.sound hs
  have hended := hnew.ext.ended hend
  have hrequire : NeatIf false True (fun _ => True) (Parser.require closing message) :=
    require hclosing message
  obtain ⟨more, hmore⟩ := hrequire (p.run s).2 hsound hended trivial
  refine ⟨new ++ more, hnew.ext.trans hmore.ext, hnew.errors.trans hmore.errors,
    hnew.attached.append hmore.attached, fun hsmooth => ?_⟩
  obtain ⟨hfirst, hsecond⟩ := Passage.smooth hsmooth hnew.errors hmore
  have hkind : Lookahead.kind (p.run s).2.rest = closing := kind_of_require hended hsecond.1
  have houtside : Passage false n s (p.run s).2 new :=
    ⟨hnew.ext, hnew.errors, hnew.attached, fun hsmooth =>
      hnew.flawless ⟨hsmooth.1, fun _ => hkind ▸ hclosing⟩⟩
  exact ((houtside.trans hmore).imp .inr).flawless hsmooth

theorem skip : NeatIf inside False C skip := by
  refine ask_bind fun a => ite (fun _ => .pure _) fun ha => (bump ?_).neat
  rintro ts ⟨-, rfl⟩ heof
  exact ha (beq_iff_eq.mpr heof)

/-! ### Repetition -/

theorem loopUpTo {step : Parser Bool} (h : Neat inside n step) (count : Nat) :
    Neat inside False (loopUpTo step count) := by
  induction count with
  | zero => exact .pure _
  | succ count ih => exact h.next fun _ => ite (fun _ => ih) fun _ => .pure _

theorem loop {step : Parser Bool} (h : Neat inside n step) : NeatIf inside False C (loop step) :=
  .get_bind fun _ => (loopUpTo h _).under

/-- A loop whose first step takes a token. -/
theorem loop_first {step : Parser Bool} (hfirst : NeatIf inside True C step)
    (hmore : Neat inside n step) : NeatIf inside True C (Parser.loop step) := by
  intro s
  have hstep : NeatIf inside True C (Parser.loopUpTo step (s.rest.length + 1)) :=
    hfirst.bind fun _ => ite (fun _ => loopUpTo hmore _) fun _ => .pure _
  exact hstep s

theorem untilAny {kinds : List Kind} {body : Parser Unit}
    (h : NeatIf inside n (fun ts => kinds.contains (Lookahead.kind ts) = false) body) :
    NeatIf inside False C (untilAny kinds body) := by
  refine loop (n := False) (ask_bind fun a => ite (fun _ => .pure _) fun ha => ?_)
  refine ((h.weaken ?_).bind fun _ => .pure _).neat
  rintro ts ⟨-, hts⟩
  exact hts.trans (Bool.eq_false_iff.mpr ha)

theorem whileAhead_step {question : List Token → Bool} {body : Parser Unit}
    (h : NeatIf inside n (fun ts => question ts = true) body) (hC : ∀ ts, C ts → m → question ts = true)
    (hn : m → n) : NeatIf inside m C (Parser.ask question >>= fun more =>
      if more then body >>= fun _ => Pure.pure true else Pure.pure false) := by
  refine ask_bind fun a => ite (fun ha => ?_) fun ha => ?_
  · refine ((h.weaken ?_).bind fun _ => .pure _).imp hn
    rintro ts ⟨-, hts⟩
    exact hts.trans ha
  · by_cases hm : m
    · rintro s - - ⟨hc, rfl⟩
      exact absurd (hC _ hc hm) ha
    · exact (pure _).imp hm

theorem whileAhead {question : List Token → Bool} {body : Parser Unit}
    (h : NeatIf inside n (fun ts => question ts = true) body) :
    NeatIf inside False C (whileAhead question body) :=
  loop (whileAhead_step h (fun _ _ => False.elim) False.elim)

theorem whileAhead_first {question : List Token → Bool} {body : Parser Unit}
    (h : NeatIf inside True (fun ts => question ts = true) body) :
    NeatIf inside True (fun ts => question ts = true) (Parser.whileAhead question body) :=
  loop_first (whileAhead_step h (fun _ hts _ => hts) id)
    (whileAhead_step h (fun _ _ => False.elim) False.elim)

theorem separated {item : Parser Unit} (h : Neat inside True item) :
    NeatIf inside True C (separated item) :=
  loop_first (h.under.bind fun _ => eat (by decide)) (h.bind fun _ => eat (by decide))

theorem separatedUntil {kinds : List Kind} {item : Parser Unit}
    (h : NeatIf inside n (fun ts => kinds.contains (Lookahead.kind ts) = false) item) :
    NeatIf inside False C (separatedUntil kinds item) := by
  refine loop (n := False) (ask_bind fun a => ite (fun _ => .pure _) fun ha => ?_)
  refine ((h.weaken ?_).next fun _ => eat (by decide))
  rintro ts ⟨-, hts⟩
  exact hts.trans (Bool.eq_false_iff.mpr ha)

theorem skipTo (kinds : List Kind) : NeatIf inside False C (skipTo kinds) := by
  refine untilAny (bump fun ts hts heof => ?_)
  simp [heof] at hts

end NeatIf

/-! ## Readers that open a node at a mark -/

/-- What `NeatIf` says, of all that is read since a mark; `took` says that tokens were
taken since the mark already, if there was nothing to complain about. -/
def NeatFrom (inside : Bool) (took takes : Prop) (C : List Token → Prop) (p : Nat → Parser α) :
    Prop :=
  ∀ s₀ s front, Sound s₀ → Ended s₀.rest → Ready s₀.rest → Passage inside took s₀ s front →
    C s.rest → Passes inside takes s₀ (p s₀.builder.mark) s

/-- A node around all that was read since a state. -/
theorem passes_nodeFrom {s₀ s : ParserState} {front all : Forest} {kind : Kind} {body : Parser Unit}
    (hs : Sound s₀) (hready : Ready s₀.rest) (hext : Extends s₀ s front)
    (hall : Passage inside True (opening s₀ kind s₀.builder.mark)
      (body.run (opening s kind s₀.builder.mark)).2 all)
    (hkind : kind = .error → (body.run (opening s kind s₀.builder.mark)).2.errors ≠ s₀.errors) :
    Passes inside True s₀ (nodeFrom s₀.builder.mark kind body) s := by
  unfold Passes
  rw [run_nodeFrom_of_admits (hext.admits hs)]
  exact ⟨_, hall.closed hready hkind⟩

namespace NeatFrom

variable {k : Prop} {p q : Nat → Parser α} {f : Nat → α → Parser β}

theorem weaken (h : NeatFrom inside n m C' p) (hC : ∀ ts, C ts → C' ts) : NeatFrom inside n m C p :=
  fun s₀ s front hs hend hready hfront hc => h s₀ s front hs hend hready hfront (hC _ hc)

theorem of_neatIf {p : Parser α} (h : NeatIf inside m C p) (hk : k → n ∨ m) :
    NeatFrom inside n k C fun _ => p := by
  intro s₀ s front hs hend _ hfront hc
  obtain ⟨new, hnew⟩ := h s (hfront.ext.sound hs) (hfront.ext.ended hend) hc
  exact ⟨front ++ new, (hfront.trans hnew).imp hk⟩

/-- A parser that knows of no mark. -/
theorem of_neat {p : Parser α} (h : NeatIf inside m C p) : NeatFrom inside n n C fun _ => p :=
  of_neatIf h .inl

theorem pure (a : α) : NeatFrom inside n n C fun _ => (Pure.pure a : Parser α) := of_neat (.pure a)

theorem bind (hp : NeatFrom inside n m C p)
    (hf : ∀ a, NeatFrom inside m k (fun _ => True) (f · a)) :
    NeatFrom inside n k C fun start => p start >>= f start := by
  intro s₀ s front hs hend hready hfront hc
  obtain ⟨new, hnew⟩ := hp s₀ s front hs hend hready hfront hc
  exact hf _ s₀ _ new hs hend hready hnew trivial

theorem grownSince : NeatFrom inside n n C grownSince :=
  fun _ _ front _ _ _ hfront _ => ⟨front, hfront⟩

theorem ask_bind {question : List Token → α}
    (hf : ∀ a, NeatFrom inside n m (fun ts => C ts ∧ question ts = a) (f · a)) :
    NeatFrom inside n m C fun start => ask question >>= f start :=
  fun s₀ s front hs hend hready hfront hc => hf _ s₀ s front hs hend hready hfront ⟨hc, rfl⟩

theorem ite {c : Prop} [Decidable c] (hp : c → NeatFrom inside n m C p)
    (hq : ¬c → NeatFrom inside n m C q) :
    NeatFrom inside n m C fun start => if c then p start else q start := by
  split
  · exact hp ‹_›
  · exact hq ‹_›

/-- A step of a loop that asks for another one. -/
theorem andContinue {p : Nat → Parser Unit} (h : NeatFrom inside n m C p) :
    NeatFrom inside n m C fun start => p start >>= fun _ => Pure.pure true :=
  h.bind fun _ => pure true

/-- A node with all that was read since the mark. -/
theorem nodeFrom_of {kind : Kind} {body : Parser Unit} (hbody : NeatIf inside m C body)
    (htakes : n ∨ m) (hkind : kind = .error → NeatIf.Complains body) :
    NeatFrom inside n True C fun start => nodeFrom start kind body := by
  intro s₀ s front hs hend hready hfront hc
  have hsound := sound_opening hfront.ext kind
  have hended := hfront.ext.ended hend
  obtain ⟨more, hmore⟩ := hbody (opening s kind s₀.builder.mark) hsound hended hc
  have hall := (hfront.opened kind s₀.builder.mark).trans hmore
  refine passes_nodeFrom hs hready hfront.ext (hall.imp fun _ => htakes) fun hk herrors => ?_
  refine hkind hk _ hsound hended (hmore.errors.eq_of_length_le ?_).symm
  rw [herrors]
  exact hfront.errors.length_le

/-- A node whose body takes a token. -/
theorem nodeFrom {kind : Kind} {body : Parser Unit} (hkind : kind ≠ .error)
    (hbody : NeatIf inside True C body) :
    NeatFrom inside n True C fun start => nodeFrom start kind body :=
  nodeFrom_of hbody (.inr trivial) fun h => absurd h hkind

theorem nodeFrom_error {message : String} {more : Parser Unit} (hmore : Neat inside m more) :
    NeatFrom inside n True C fun start =>
      Parser.nodeFrom start .error (complain message >>= fun _ => more) :=
  nodeFrom_of ((NeatIf.complain message).bind fun _ => hmore) (.inr trivial) fun _ =>
    NeatIf.complains_bind hmore

theorem loopUpTo {step : Nat → Parser Bool} (h : NeatFrom inside n n (fun _ => True) step)
    (count : Nat) : NeatFrom inside n n (fun _ => True) fun start => loopUpTo (step start) count := by
  induction count with
  | zero => exact pure _
  | succ count ih => exact h.bind fun _ => ite (fun _ => ih) fun _ => pure _

theorem loop {step : Nat → Parser Bool} (h : NeatFrom inside n n (fun _ => True) step) :
    NeatFrom inside n n C fun start => loop (step start) :=
  fun s₀ s front hs hend hready hfront _ => loopUpTo h _ s₀ s front hs hend hready hfront trivial

theorem whileAhead {question : List Token → Bool} {body : Nat → Parser Unit}
    (h : NeatFrom inside n n (fun ts => question ts = true) body) :
    NeatFrom inside n n C fun start => whileAhead question (body start) := by
  refine loop (ask_bind fun a => ite (fun ha => ?_) fun _ => pure _)
  refine (h.weaken ?_).andContinue
  rintro ts ⟨-, hts⟩
  exact hts.trans ha

end NeatFrom

/-- A reader that starts with a mark has nothing behind it yet. -/
theorem NeatIf.mark_bind {f : Nat → Parser α} (hC : Steady C)
    (hf : NeatFrom inside False True C f) : NeatIf inside True C (mark >>= f) := by
  intro s hs hend hc
  have hrest := rest_flushTrivia s
  have hext := extends_flushTrivia s
  have hready : Ready (flushTrivia.run s).2.rest := hrest ▸ triviaAhead_significant s.rest
  obtain ⟨new, hnew⟩ := hf (flushTrivia.run s).2 (flushTrivia.run s).2 [] (hext.sound hs)
    (hext.ended hend) hready (.refl _) (hrest ▸ hC _ hc)
  exact ⟨_, hnew.behind_trivia⟩

end Parser

end CSharpKit.Syntax
