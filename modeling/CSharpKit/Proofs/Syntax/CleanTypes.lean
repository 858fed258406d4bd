import CSharpKit.Proofs.Syntax.ExpressionTrivia
import CSharpKit.Proofs.Syntax.TypeScanning

/-!
# Types read without a complaint

Complaints are only ever added, so a run without one is made of runs without one. In such a
run each reader finds what it looks for, and the readers of types make the tree of a type.
`Clean` says what a parser reads if it does not complain; like `YieldsFrom` it is seen from
the state at a mark.
-/

namespace CSharpKit.Syntax

open Syntax.Tree CSharpKit.Syntax.Parser

namespace Parser

variable {α β : Type}

/-! ## Complaints are only added -/

/-- A parser keeps the complaints there are. -/
def Grows (p : Parser α) : Prop := ∀ s, s.errors <:+ (p.run s).2.errors

namespace Grows

variable {p q : Parser α} {f : α → Parser β}

theorem of_eq (h : ∀ s, (p.run s).2.errors = s.errors) : Grows p :=
  fun s => h s ▸ List.suffix_refl _

theorem bind (hp : Grows p) (hf : ∀ a, Grows (f a)) : Grows (p >>= f) :=
  fun s => (hp s).trans (hf _ _)

theorem pure (a : α) : Grows (Pure.pure a : Parser α) := .of_eq fun _ => rfl

theorem get_bind {f : ParserState → Parser β} (hf : ∀ s, Grows (f s)) : Grows (get >>= f) :=
  fun s => hf s s

theorem ask (question : List Token → α) : Grows (Parser.ask question) := .of_eq fun _ => rfl

theorem ite {c : Prop} [Decidable c] (hp : Grows p) (hq : Grows q) : Grows (if c then p else q) := by
  split
  · exact hp
  · exact hq

theorem complain (message : String) : Grows (complain message) := by
  intro s
  rw [complain_run]
  split
  · exact List.suffix_cons _ _
  · exact List.suffix_refl _

theorem bump : Grows bump := .of_eq errors_bump

theorem eat (kind : Kind) : Grows (eat kind) :=
  (ask _).bind fun _ => .ite (bump.bind fun _ => .pure _) (.pure _)

theorem require (kind : Kind) (message : String) : Grows (require kind message) :=
  bind ((ask _).bind fun _ => .ite (bump.bind fun _ => .pure _)
    ((complain _).bind fun _ => .pure _)) fun _ => .pure _

theorem mark : Grows mark := .of_eq fun _ => rfl

theorem finishNode : Grows finishNode := .of_eq errors_finishNode

theorem node {kind : Kind} {body : Parser Unit} (h : Grows body) : Grows (node kind body) := by
  intro s
  show s.errors <:+ (Parser.finishNode.run (body.run _).2).2.errors
  rw [errors_finishNode]
  exact h (opening (flushTrivia.run s).2 kind (flushTrivia.run s).2.builder.mark)

theorem nodeFrom {kind : Kind} {body : Parser Unit} (start : Nat) (h : Grows body) :
    Grows (nodeFrom start kind body) := by
  refine bind (.of_eq fun s => ?_) fun _ => h.bind fun _ => finishNode
  cases hopen : s.builder.startNodeAt? start kind with
  | some builder => rw [run_build hopen]
  | none =>
      simp only [build, StateT.run_modify, hopen]
      rfl

theorem loopUpTo {step : Parser Bool} (h : Grows step) (n : Nat) : Grows (loopUpTo step n) := by
  induction n with
  | zero => exact .pure ()
  | succ n ih => exact h.bind fun _ => .ite ih (.pure ())

theorem loop {step : Parser Bool} (h : Grows step) : Grows (loop step) :=
  get_bind fun _ => h.loopUpTo _

theorem whileAhead {question : List Token → Bool} {body : Parser Unit} (h : Grows body) :
    Grows (whileAhead question body) :=
  loop ((ask _).bind fun _ => .ite (h.bind fun _ => .pure _) (.pure _))

end Grows

/-! ## Runs without a complaint -/

/-- A state in the middle of a text: trees may be added, and the end is still ahead. -/
structure Underway (s : ParserState) : Prop where
  sound : Sound s
  ended : Ended s.rest

theorem Extends.underway {s s' : ParserState} {new : Forest} (hext : Extends s s' new)
    (h : Underway s) : Underway s' :=
  ⟨hext.sound h.sound, hext.ended h.ended⟩

/-- Seen from `s₀`, if a parser does not complain in the state `s`, then what it returns, all
that was read and what is left have the property `Q`. -/
def Clean (s₀ : ParserState) (p : Parser α) (s : ParserState)
    (Q : α → Forest → List Token → Prop) : Prop :=
  (p.run s).2.errors = s.errors → YieldsFrom s₀ p s Q

namespace Clean

variable {s₀ s : ParserState} {p : Parser α} {f : α → Parser β} {front : Forest}
  {R : α → Forest → List Token → Prop} {Q : β → Forest → List Token → Prop}

theorem mono {Q : α → Forest → List Token → Prop} (h : Clean s₀ p s R)
    (hRQ : ∀ a new rest, R a new rest → Q a new rest) : Clean s₀ p s Q :=
  fun hclean => (h hclean).mono hRQ

/-- Neither part of a run without a complaint has one. -/
theorem bind (hp : Grows p) (hf : ∀ a, Grows (f a)) (h : Clean s₀ p s R)
    (hnext : ∀ a new s', Extends s₀ s' new → R a new s'.rest → Clean s₀ (f a) s' Q) :
    Clean s₀ (p >>= f) s Q := by
  intro hclean
  have hsecond := hf (p.run s).1 (p.run s).2
  have hfirst : (p.run s).2.errors = s.errors := by
    refine ((hp s).eq_of_length_le ?_).symm
    rw [← hclean]
    exact hsecond.length_le
  obtain ⟨new, hext, hR⟩ := h hfirst
  exact hnext _ new _ hext hR (hclean.trans hfirst.symm)

/-- What the second parser reads comes behind what the first one does. -/
theorem seq (hs : Underway s) (hp : Grows p) (hf : ∀ a, Grows (f a)) (h : Clean s p s R)
    (hnext : ∀ a new s', Underway s' → R a new s'.rest →
      Clean s' (f a) s' fun b more rest => Q b (new ++ more) rest) : Clean s (p >>= f) s Q :=
  bind hp hf h fun a new s' hext hR hclean =>
    Yields.from (hnext a new s' (hext.underway hs) hR hclean) hext fun _ _ _ h => h

/-- What a parser reads, seen from an earlier state. -/
theorem seen {Q : α → Forest → List Token → Prop} (h : Clean s p s R) (hext : Extends s₀ s front)
    (hRQ : ∀ a new rest, R a new rest → Q a (front ++ new) rest) : Clean s₀ p s Q :=
  fun hclean => Yields.from (h hclean) hext hRQ

theorem pure {Q : α → Forest → List Token → Prop} {a : α} (h : Extends s₀ s front)
    (hQ : Q a front s.rest) : Clean s₀ (Pure.pure a) s Q := fun _ => .pure h hQ

theorem ask {question : List Token → α} (h : Clean s₀ (f (question s.rest)) s Q) :
    Clean s₀ (Parser.ask question >>= f) s Q := h

/-- A mark is taken behind the trivia ahead. -/
theorem mark {f : Nat → Parser β} (hs : Underway s)
    (h : ∀ s', Underway s' → s'.rest = Lookahead.significant s.rest →
      Clean s' (f s'.builder.mark) s' fun b new rest => Q b (triviaAhead s.rest ++ new) rest) :
    Clean s (Parser.mark >>= f) s Q := by
  intro hclean
  have hext := extends_flushTrivia s
  exact Yields.mark (Yields.from (h _ (hext.underway hs) (rest_flushTrivia s) hclean) hext
    fun _ _ _ h => h)

/-- No complaint is no complaint about the next token. -/
theorem complain {Q : Unit → Forest → List Token → Prop} (message : String) (hs : Underway s) :
    Clean s₀ (complain message) s Q := by
  intro hclean
  rw [run_complain message hs.ended] at hclean
  exact absurd hclean (List.cons_ne_self _ _)

/-- A token that is asked for is there. -/
theorem require {kind : Kind} (message : String) (hkind : kind ≠ .eof) (hs : Underway s) :
    Clean s (require kind message) s fun _ new _ =>
      ∃ text, new = triviaAhead s.rest ++ [.token kind text] := by
  intro hclean
  refine (yields_require message (kind_of_require hs.ended hclean) hkind).mono ?_
  rintro - new rest ⟨t, -, rfl, rfl⟩
  exact ⟨t.text, rfl⟩

/-- The body of a node starts behind the trivia ahead. -/
theorem node {kind : Kind} {body : Parser Unit} {R : Unit → Forest → List Token → Prop}
    (hs : Underway s) (hbody : ∀ s', Underway s' → s'.rest = Lookahead.significant s.rest →
      Clean s' body s' R) : Clean s (node kind body) s fun _ new rest =>
        ∃ cs, new = triviaAhead s.rest ++ [.node kind cs] ∧ R () cs rest := by
  intro hclean
  have hflush := (extends_flushTrivia s).underway hs
  refine Yields.node (hbody _ ⟨sound_opening (Extends.refl _) kind, hflush.ended⟩
    (rest_flushTrivia s) ?_)
  have herrors : ((Parser.node kind body).run s).2.errors = (body.run (opening (flushTrivia.run s).2
      kind (flushTrivia.run s).2.builder.mark)).2.errors := errors_finishNode _
  rw [← herrors, hclean]
  rfl

/-- A node takes over what was read since the mark. -/
theorem nodeFrom {kind : Kind} {body : Parser Unit} {R : Unit → Forest → List Token → Prop}
    (hs : Underway s₀) (hext : Extends s₀ s front)
    (hbody : ∀ s', Underway s' → s'.rest = s.rest → Clean s' body s' R) :
    Clean s₀ (nodeFrom s₀.builder.mark kind body) s fun _ new rest =>
      ∃ more, new = [.node kind (front ++ more)] ∧ R () more rest := by
  intro hclean
  have hopen : Underway (opening s kind s₀.builder.mark) :=
    ⟨sound_opening hext kind, (hext.underway hs).ended⟩
  refine YieldsFrom.nodeFrom hs.sound hext (Extends.refl s) (hbody _ hopen rfl ?_)
  rw [run_nodeFrom_of_admits (hext.admits hs.sound), errors_finishNode] at hclean
  exact hclean

/-- What holds at the start of a loop and is kept by its steps holds at the end. -/
theorem loopUpTo {step : Parser Bool} {I : Bool → Forest → List Token → Prop}
    (hgrows : Grows step)
    (hstep : ∀ s f, Extends s₀ s f → I true f s.rest → Clean s₀ step s I) (n : Nat)
    (hext : Extends s₀ s front) (hstart : I true front s.rest) :
    Clean s₀ (loopUpTo step n) s fun _ new rest => ∃ again, I again new rest := by
  induction n generalizing s front with
  | zero => exact .pure hext ⟨true, hstart⟩
  | succ n ih =>
      refine bind hgrows (fun _ => .ite (hgrows.loopUpTo n) (.pure ())) (hstep s front hext hstart) ?_
      intro again new s' hext' hI
      cases again with
      | true => exact ih hext' hI
      | false => exact .pure hext' ⟨false, hI⟩

theorem loop {step : Parser Bool} {I : Bool → Forest → List Token → Prop} (hgrows : Grows step)
    (hstep : ∀ s f, Extends s₀ s f → I true f s.rest → Clean s₀ step s I)
    (hext : Extends s₀ s front) (hstart : I true front s.rest) :
    Clean s₀ (loop step) s fun _ new rest => ∃ again, I again new rest :=
  loopUpTo hgrows hstep (s.rest.length + 1) hext hstart

end Clean

/-! ## Single tokens -/

theorem terminal_ahead {kind : Kind} (ts : List Token) (text : String) :
    Terminal kind (triviaAhead ts ++ [.token kind text]) :=
  ⟨_, text, Lookahead.isGap_triviaAhead ts, rfl⟩

theorem yields_bump_of_kind {s : ParserState} {kind : Kind} (h : Lookahead.kind s.rest = kind)
    (hkind : kind ≠ .eof) : Yields bump s fun _ new rest => ∃ t, Lookahead.significant s.rest = t :: rest ∧
      new = triviaAhead s.rest ++ [.token kind t.text] := by
  refine (yields_bump (h ▸ hkind)).mono ?_
  rintro - new rest ⟨t, hts, ht, rfl⟩
  exact ⟨t, hts, by rw [Token.tree, ht, h]⟩

/-- A token of a kind is taken, or another one is ahead. -/
theorem yields_eat {s : ParserState} {kind : Kind} (hkind : kind ≠ .eof) :
    Yields (eat kind) s fun again new rest =>
      if again then Terminal kind new else new = [] ∧ rest = s.rest := by
  by_cases h : Lookahead.kind s.rest = kind
  · refine Yields.ask ?_
    rw [if_pos (by simpa using h)]
    refine (yields_bump_of_kind h hkind).seq fun _ new s' hext hnew => ?_
    obtain ⟨t, -, rfl⟩ := hnew
    refine YieldsFrom.pure (Extends.refl s') ?_
    rw [List.append_nil]
    exact terminal_ahead _ t.text
  · refine Yields.ask ?_
    rw [if_neg (by simpa using h)]
    exact YieldsFrom.pure (Extends.refl s) ⟨rfl, rfl⟩

end Parser

namespace Grammar

variable {s : ParserState}

/-! ## Brackets -/

theorem commas_concat {f c : Forest} (hf : Commas f) (hc : Terminal .comma c) : Commas (f ++ c) := by
  induction hf with
  | nil =>
      rw [List.nil_append, ← List.append_nil c]
      exact .cons hc .nil
  | cons hfirst _ ih =>
      rw [List.append_assoc]
      exact .cons hfirst ih

theorem clean_commas : Clean s (loop (eat .comma)) s fun _ new _ => Commas new := by
  refine Clean.mono (Clean.loop (I := fun _ new _ => Commas new) (.eat _) ?_ (Extends.refl s) .nil)
    fun _ _ _ h => h.elim fun _ h => h
  intro s' f hext hf
  refine Clean.seen (fun _ => yields_eat (by decide)) hext ?_
  intro again new rest h
  cases again with
  | true => exact commas_concat hf h
  | false =>
      obtain ⟨rfl, -⟩ := h
      rwa [List.append_nil]

theorem grows_rankSpecifier : Grows rankSpecifier :=
  .node (Grows.bump.bind fun _ => (Grows.loop (.eat _)).bind fun _ => .require _ _)

theorem clean_rankSpecifier (hs : Underway s) (h : Lookahead.kind s.rest = .lBracket) :
    Clean s rankSpecifier s fun _ new _ => Ranks new := by
  refine Clean.mono (Clean.node hs (R := fun _ cs _ => ∃ text commas close, Commas commas ∧
    Terminal .rBracket close ∧ cs = .token .lBracket text :: (commas ++ close)) ?_) ?_
  · intro s₁ hs₁ hrest
    refine Clean.seq hs₁ .bump (fun _ => (Grows.loop (.eat _)).bind fun _ => .require _ _)
      (fun _ => yields_bump_of_kind (by simpa [hrest] using h) (by decide)) ?_
    rintro - new s₂ hs₂ ⟨t, -, rfl⟩
    refine Clean.seq hs₂ (.loop (.eat _)) (fun _ => .require _ _) clean_commas ?_
    intro _ commas s₃ hs₃ hcommas
    refine (Clean.require _ (by decide) hs₃).mono ?_
    rintro - close rest ⟨text, rfl⟩
    refine ⟨t.text, commas, _, hcommas, terminal_ahead s₃.rest text, ?_⟩
    simp [hrest]
  · rintro - new rest ⟨cs, rfl, text, commas, close, hcommas, hclose, rfl⟩
    exact .cons (Lookahead.isGap_triviaAhead _) hcommas hclose .nil

theorem advances_rankSpecifier :
    Advances (fun ts => Lookahead.kind ts = .lBracket) rankSpecifier := by
  refine Advances.node ?_ (by simp)
  refine (advances_bump.weaken fun ts hts => by simp [hts]).bind (P := IsTypeSyntax) fun _ => ?_
  exact (Reads.loop (Reads.eat_of (isTypeSyntax_token rfl))).bind fun _ =>
    Reads.require_of (isTypeSyntax_token rfl) _

/-- Brackets are read as long as there are any. -/
theorem yields_rankSpecifiers (hs : Sound s) :
    Yields rankSpecifiers s fun _ _ rest => Lookahead.kind rest ≠ .lBracket := by
  refine yields_loop (fun s hs => ?_) hs
  by_cases h : Lookahead.kind s.rest = .lBracket
  · refine Yields.ask ?_
    rw [if_pos (by simpa using h)]
    exact (advances_rankSpecifier s hs h).seq fun _ _ s' _ hlt => .pure (Extends.refl s') hlt
  · refine Yields.ask ?_
    rw [if_neg (by simpa using h)]
    exact .pure (Extends.refl s) h

theorem clean_rankSpecifiers (hs : Underway s) :
    Clean s rankSpecifiers s fun _ new rest => Ranks new ∧ Lookahead.kind rest ≠ .lBracket ∧
      (Lookahead.kind s.rest = .lBracket → new ≠ []) := by
  have hranks : Clean s rankSpecifiers s fun _ new _ => Ranks new := by
    refine Clean.mono (Clean.loop (I := fun _ new _ => Ranks new) ?_ ?_ (Extends.refl s) .nil)
      fun _ _ _ h => h.elim fun _ h => h
    · exact (Grows.ask _).bind fun _ => .ite (grows_rankSpecifier.bind fun _ => .pure _) (.pure _)
    · intro s₁ f hext hf
      refine Clean.ask ?_
      split
      · next h =>
          have hmore := clean_rankSpecifier (hext.underway hs) (eq_of_beq h)
          exact Clean.bind grows_rankSpecifier (fun _ => .pure _)
            (hmore.seen (Q := fun _ new _ => Ranks new) hext fun _ _ _ h => hf.append h)
            fun _ _ _ hext' hranks => .pure hext' hranks
      · exact .pure hext hf
  intro hclean
  have hread := (hranks hclean).and (yields_rankSpecifiers hs.sound)
  obtain ⟨new, hext, hnew, hend⟩ := hread
  refine ⟨new, hext, hnew, hend, ?_⟩
  rintro hstart rfl
  obtain ⟨tokens, hrest, hleaves, -⟩ := hext.taken
  obtain rfl : tokens = [] := by simpa [forestLeaves] using hleaves
  rw [List.nil_append] at hrest
  exact hend (hrest ▸ hstart)

/-! ## Suffixes -/

/-- The type that was read since a mark; brackets behind it are part of it. -/
def TypeSince (new : Forest) (rest : List Token) : Prop :=
  ∃ t, TypeTree t ∧ new = [t] ∧ (t.kind = .arrayType → Lookahead.kind rest ≠ .lBracket)

theorem grows_typeSuffix (start : Nat) : Grows (typeSuffix start) := by
  refine (Grows.ask _).bind fun k => ?_
  split
  · exact (Grows.nodeFrom _ .bump).bind fun _ => .pure _
  · exact (Grows.ask _).bind fun _ => (Grows.ask _).bind fun _ =>
      .ite ((Grows.nodeFrom _ (.whileAhead grows_rankSpecifier)).bind fun _ => .pure _) (.pure _)
  · exact .pure _

theorem clean_typeSuffix {s₀ : ParserState} {front : Forest} (hs : Underway s₀)
    (hext : Extends s₀ s front) (hfront : TypeSince front s.rest) :
    Clean s₀ (typeSuffix s₀.builder.mark) s fun _ new rest => TypeSince new rest := by
  obtain ⟨t, ht, rfl, hbracket⟩ := hfront
  refine Clean.ask ?_
  split
  · next hkind =>
      refine Clean.bind (.nodeFrom _ .bump) (fun _ => .pure _)
        (Clean.nodeFrom hs hext (R := fun _ q _ => Terminal .question q) ?_) ?_
      · intro s₁ hs₁ hrest
        refine fun _ => (yields_bump_of_kind (hrest ▸ hkind) (by decide)).mono ?_
        rintro - new rest ⟨t, -, rfl⟩
        exact terminal_ahead _ t.text
      · rintro - new s₁ hext₁ ⟨q, rfl, hq⟩
        exact .pure hext₁ ⟨_, .nullable ht hq, rfl, nofun⟩
  · next hkind =>
      refine Clean.ask (Clean.ask ?_)
      split
      · refine Clean.bind (.nodeFrom _ (.whileAhead grows_rankSpecifier)) (fun _ => .pure _)
          (Clean.nodeFrom hs hext (R := fun _ new rest => Ranks new ∧
            Lookahead.kind rest ≠ .lBracket ∧ new ≠ []) fun s₁ hs₁ hrest =>
            (clean_rankSpecifiers hs₁).mono fun _ _ _ h => ⟨h.1, h.2.1, h.2.2 (hrest ▸ hkind)⟩) ?_
        rintro - new s₁ hext₁ ⟨ranks, rfl, hranks, hend, hne⟩
        exact .pure hext₁ ⟨_, .array ht (fun hkind' => hbracket hkind' hkind) hranks hne, rfl,
          fun _ => hend⟩
      · exact .pure hext ⟨t, ht, rfl, hbracket⟩
  · exact .pure hext ⟨t, ht, rfl, hbracket⟩

/-! ## Names -/

/-- Without a complaint a parser makes one tree of this form, behind the trivia ahead. -/
def Finds (P : Tree → Prop) (p : Parser Unit) : Prop :=
  ∀ s, Underway s → Clean s p s fun _ new _ => ∃ t, P t ∧ new = triviaAhead s.rest ++ [t]

section

variable {inner : Parser Unit} (hgrows : Grows inner)

include hgrows

theorem grows_slot : Grows (slot inner) :=
  (Grows.ask _).bind fun _ => .ite (.pure _) ((Grows.eat _).bind fun _ =>
    .ite (.pure _) (hgrows.bind fun _ => .eat _))

theorem grows_typeArgumentList : Grows (typeArgumentList inner) :=
  .node ((Grows.require _ _).bind fun _ => (Grows.loop (grows_slot hgrows)).bind fun _ =>
    .require _ _)

theorem grows_simpleName : Grows (simpleName inner true) :=
  (Grows.ask _).bind fun _ => (Grows.ask _).bind fun _ =>
    .ite (.node (Grows.bump.bind fun _ => grows_typeArgumentList hgrows)) (.node (.require _ _))

theorem grows_nameHead (start : Nat) : Grows (nameHead inner start true) :=
  (Grows.ask _).bind fun _ => (Grows.ask _).bind fun _ =>
    .ite (.nodeFrom _ ((Grows.node .bump).bind fun _ => Grows.bump.bind fun _ =>
      grows_simpleName hgrows)) (grows_simpleName hgrows)

theorem grows_segment (start : Nat) : Grows (segment inner start) :=
  (Grows.ask _).bind fun _ =>
    .ite ((Grows.nodeFrom _ (Grows.bump.bind fun _ => grows_simpleName hgrows)).bind fun _ =>
      .pure _) (.pure _)

theorem grows_name : Grows (name inner true) :=
  Grows.mark.bind fun _ => (grows_nameHead hgrows _).bind fun _ => .loop (grows_segment hgrows _)

theorem grows_typeWith : Grows (typeWith inner) := by
  refine Grows.mark.bind fun _ => (Grows.ask _).bind fun _ => .ite ?_ (.ite ?_ (.complain _))
  · exact (Grows.node .bump).bind fun _ => .loop (grows_typeSuffix _)
  · exact (grows_name hgrows).bind fun _ => .loop (grows_typeSuffix _)

variable (hinner : Finds TypeTree inner)

include hinner

/-- Behind a comma any slots may follow. -/
theorem clean_slots (hs : Underway s) :
    Clean s (loop (slot inner)) s fun _ new _ => Slots new := by
  refine Clean.mono (Clean.loop (I := fun again new _ =>
    if again then ∀ more, Slots more → Slots (new ++ more) else Slots new) (grows_slot hgrows) ?_
    (Extends.refl s) fun more h => h) ?_
  · intro s₁ f hext hf
    refine Clean.ask ?_
    split
    · exact .pure hext (by simpa using hf [] .nil)
    · refine Clean.bind (.eat _) (fun _ => .ite (.pure _) (hgrows.bind fun _ => .eat _))
        (Clean.seen (fun _ => yields_eat (by decide)) hext (Q := fun again new _ =>
          if again then ∃ c, Terminal .comma c ∧ new = f ++ c else new = f) ?_) ?_
      · intro again new rest h
        cases again with
        | true => exact ⟨new, h, rfl⟩
        | false => simpa using h.1
      · intro again read s₂ hext₂ hread
        cases again with
        | true =>
            obtain ⟨c, hc, rfl⟩ := hread
            refine .pure hext₂ fun more hmore => ?_
            rw [List.append_assoc]
            exact hf _ (.comma hc hmore)
        | false =>
            obtain rfl := hread
            refine Clean.bind hgrows (fun _ => .eat _) ((hinner s₂ (hext₂.underway hs)).seen hext₂
              (Q := fun _ new _ => ∃ g t, IsGap g ∧ TypeTree t ∧ new = read ++ (g ++ [t])) ?_) ?_
            · rintro - new rest ⟨t, ht, rfl⟩
              exact ⟨_, t, Lookahead.isGap_triviaAhead _, ht, rfl⟩
            · rintro - new s₃ hext₃ ⟨g, t, hg, ht, rfl⟩
              refine Clean.seen (fun _ => yields_eat (by decide)) hext₃ ?_
              intro again new rest h
              cases again with
              | true =>
                  intro more hmore
                  have hitem := hf _ (.item hg ht h hmore)
                  simpa using hitem
              | false =>
                  obtain ⟨rfl, -⟩ := h
                  have hlast := hf _ (.last hg ht)
                  simpa using hlast
  · rintro - new rest ⟨again, h⟩
    cases again with
    | true => simpa using h [] .nil
    | false => exact h

/-- The tree of type arguments. -/
def IsArgumentList (t : Tree) : Prop := ∃ less slots close, Slots slots ∧ Terminal .greater close ∧
  t = .node .typeArgumentList (.token .less less :: (slots ++ close))

theorem finds_typeArgumentList : Finds IsArgumentList (typeArgumentList inner) := by
  intro s hs
  refine Clean.mono (Clean.node hs (R := fun _ cs _ => ∃ less slots close, Slots slots ∧
    Terminal .greater close ∧ cs = .token .less less :: (slots ++ close)) ?_) ?_
  · intro s₁ hs₁ hrest
    refine Clean.seq hs₁ (.require _ _) (fun _ => (Grows.loop (grows_slot hgrows)).bind fun _ =>
      .require _ _) (.require _ (by decide) hs₁) ?_
    rintro - new s₂ hs₂ ⟨less, rfl⟩
    refine Clean.seq hs₂ (.loop (grows_slot hgrows)) (fun _ => .require _ _)
      (clean_slots hgrows hinner hs₂) ?_
    intro _ slots s₃ hs₃ hslots
    refine (Clean.require _ (by decide) hs₃).mono ?_
    rintro - close rest ⟨text, rfl⟩
    refine ⟨less, slots, _, hslots, terminal_ahead s₃.rest text, ?_⟩
    simp [hrest]
  · rintro - new rest ⟨cs, rfl, less, slots, close, hslots, hclose, rfl⟩
    exact ⟨_, ⟨less, slots, close, hslots, hclose, rfl⟩, rfl⟩

theorem finds_simpleName : Finds SimpleTree (simpleName inner true) := by
  intro s hs
  refine Clean.ask (Clean.ask ?_)
  split
  · next h =>
      have hkind : Lookahead.kind s.rest = .identifier := by
        simp only [Bool.true_and, Bool.and_eq_true, beq_iff_eq] at h
        exact h.1
      refine Clean.mono (Clean.node hs (R := fun _ cs _ => ∃ text g t, IsGap g ∧ IsArgumentList t ∧
        cs = .token .identifier text :: (g ++ [t])) ?_) ?_
      · intro s₁ hs₁ hrest
        refine Clean.seq hs₁ .bump (fun _ => grows_typeArgumentList hgrows)
          (fun _ => yields_bump_of_kind (by simpa [hrest] using hkind) (by decide)) ?_
        rintro - new s₂ hs₂ ⟨token, -, rfl⟩
        refine (finds_typeArgumentList hgrows hinner s₂ hs₂).mono ?_
        rintro - new rest ⟨t, ht, rfl⟩
        exact ⟨token.text, _, t, Lookahead.isGap_triviaAhead s₂.rest, ht, by simp [hrest]⟩
      · rintro - new rest ⟨cs, rfl, text, g, t, hg, ⟨less, slots, close, hslots, hclose, rfl⟩, rfl⟩
        exact ⟨_, .generic hg hslots hclose, rfl⟩
  · refine Clean.mono (Clean.node hs (R := fun _ cs _ => ∃ text, cs = [.token .identifier text])
      fun s₁ hs₁ hrest => (Clean.require _ (by decide) hs₁).mono ?_) ?_
    · rintro - new rest ⟨text, rfl⟩
      exact ⟨text, by simp [hrest]⟩
    · rintro - new rest ⟨cs, rfl, text, rfl⟩
      exact ⟨_, .identifier, rfl⟩

/-- The first segment of a name, from a token on that is no trivia. -/
theorem clean_nameHead (hs : Underway s) (hready : triviaAhead s.rest = []) :
    Clean s (nameHead inner s.builder.mark true) s fun _ new _ => ∃ t, NameTree t ∧ new = [t] := by
  refine Clean.ask (Clean.ask ?_)
  split
  · next h =>
      simp only [Bool.and_eq_true, beq_iff_eq] at h
      refine Clean.mono (Clean.nodeFrom hs (Extends.refl s) (R := fun _ cs _ =>
        ∃ text colons g t, Terminal .colonColon colons ∧ IsGap g ∧ SimpleTree t ∧
          cs = .node .identifierName [.token .identifier text] :: (colons ++ (g ++ [t]))) ?_) ?_
      · intro s₁ hs₁ hrest
        refine Clean.seq hs₁ (.node .bump) (fun _ => Grows.bump.bind fun _ => grows_simpleName hgrows)
          (fun _ => yields_leaf .identifierName (by simp [hrest, h.1])) ?_
        rintro - new s₂ hs₂ ⟨token, hts, htoken, rfl⟩
        have hcolons : Lookahead.kind s₂.rest = .colonColon :=
          Lookahead.kind_of_kindAt?_one hts (hrest ▸ h.2)
        refine Clean.seq hs₂ .bump (fun _ => grows_simpleName hgrows)
          (fun _ => yields_bump_of_kind hcolons (by decide)) ?_
        rintro - new s₃ hs₃ ⟨colons, -, rfl⟩
        refine (finds_simpleName hgrows hinner s₃ hs₃).mono ?_
        rintro - new rest ⟨t, ht, rfl⟩
        refine ⟨token.text, _, _, t, terminal_ahead s₂.rest colons.text,
          Lookahead.isGap_triviaAhead s₃.rest, ht, ?_⟩
        simp [hrest, hready, Token.tree, htoken, h.1]
      · rintro - new rest ⟨cs, rfl, text, colons, g, t, hcolons, hg, ht, rfl⟩
        exact ⟨_, .aliased hcolons hg ht, rfl⟩
  · refine (finds_simpleName hgrows hinner s hs).mono ?_
    rintro - new rest ⟨t, ht, rfl⟩
    exact ⟨t, .simple ht, by rw [hready, List.nil_append]⟩

theorem clean_segment {s₀ : ParserState} {front : Forest} (hs : Underway s₀)
    (hext : Extends s₀ s front) (hfront : ∃ t, NameTree t ∧ front = [t]) :
    Clean s₀ (segment inner s₀.builder.mark) s fun _ new _ => ∃ t, NameTree t ∧ new = [t] := by
  obtain ⟨left, hleft, rfl⟩ := hfront
  refine Clean.ask ?_
  split
  · next h =>
      have hdot : Lookahead.kind s.rest = .dot := by
        rw [atSegment, Bool.and_eq_true, beq_iff_eq] at h
        exact h.1
      refine Clean.bind (.nodeFrom _ (Grows.bump.bind fun _ => grows_simpleName hgrows))
        (fun _ => .pure _) (Clean.nodeFrom hs hext (R := fun _ cs _ => ∃ dot g t, Terminal .dot dot ∧
          IsGap g ∧ SimpleTree t ∧ cs = dot ++ (g ++ [t])) ?_) ?_
      · intro s₁ hs₁ hrest
        refine Clean.seq hs₁ .bump (fun _ => grows_simpleName hgrows)
          (fun _ => yields_bump_of_kind (hrest ▸ hdot) (by decide)) ?_
        rintro - new s₂ hs₂ ⟨dot, -, rfl⟩
        refine (finds_simpleName hgrows hinner s₂ hs₂).mono ?_
        rintro - new rest ⟨t, ht, rfl⟩
        exact ⟨_, _, t, terminal_ahead s₁.rest dot.text, Lookahead.isGap_triviaAhead s₂.rest, ht, rfl⟩
      · rintro - new s₁ hext₁ ⟨cs, rfl, dot, g, t, hdot, hg, ht, rfl⟩
        exact .pure hext₁ ⟨_, .qualified hleft hdot hg ht, rfl⟩
  · exact .pure hext ⟨left, hleft, rfl⟩

theorem finds_name : Finds NameTree (name inner true) := by
  intro s hs
  refine Clean.mark hs fun s₁ hs₁ hrest => ?_
  refine Clean.mono (Clean.bind (grows_nameHead hgrows _) (fun _ => .loop (grows_segment hgrows _))
    (clean_nameHead hgrows hinner hs₁ (by rw [hrest, triviaAhead_significant]))
    fun _ _ _ hext hnew => Clean.loop (I := fun _ new _ => ∃ t, NameTree t ∧ new = [t])
      (grows_segment hgrows _) (fun _ _ => clean_segment hgrows hinner hs₁) hext hnew) ?_
  rintro - new rest ⟨-, t, ht, rfl⟩
  exact ⟨t, ht, rfl⟩

/-! ## Types -/

omit hgrows hinner in
theorem clean_typeSuffixes {s₀ : ParserState} {front : Forest} (hs : Underway s₀)
    (hext : Extends s₀ s front) (hfront : TypeSince front s.rest) :
    Clean s₀ (loop (typeSuffix s₀.builder.mark)) s fun _ new _ => ∃ t, TypeTree t ∧ new = [t] := by
  refine Clean.mono (Clean.loop (I := fun _ => TypeSince) (grows_typeSuffix _)
    (fun _ _ => clean_typeSuffix hs) hext hfront) ?_
  rintro - new rest ⟨-, t, ht, rfl, -⟩
  exact ⟨t, ht, rfl⟩

theorem finds_typeWith : Finds TypeTree (typeWith inner) := by
  intro s hs
  refine Clean.mark hs fun s₁ hs₁ hrest => Clean.ask ?_
  have hready : triviaAhead s₁.rest = [] := by rw [hrest, triviaAhead_significant]
  have hbehind : ∀ {new : Forest}, (∃ t, TypeTree t ∧ new = [t]) →
      ∃ t, TypeTree t ∧ triviaAhead s.rest ++ new = triviaAhead s.rest ++ [t] := by
    rintro new ⟨t, ht, rfl⟩
    exact ⟨t, ht, rfl⟩
  split
  · next hk =>
      simp only [Bool.or_eq_true, beq_iff_eq] at hk
      have hne : Lookahead.kind s₁.rest ≠ .eof := by
        intro heof
        simp [heof, Kind.isPredefinedType] at hk
      refine Clean.mono (Clean.bind (.node .bump) (fun _ => .loop (grows_typeSuffix _))
        (fun _ => yields_leaf .predefinedType hne) ?_) fun _ _ _ => hbehind
      rintro - new s₂ hext ⟨token, -, htoken, rfl⟩
      refine clean_typeSuffixes hs₁ hext ⟨.node .predefinedType [.token token.kind token.text],
        .keyword (htoken ▸ hk), ?_, fun harray => absurd harray (by simp [Tree.kind])⟩
      rw [hready, List.nil_append, Token.tree]
  · split
    · refine Clean.mono (Clean.bind (grows_name hgrows) (fun _ => .loop (grows_typeSuffix _))
        (finds_name hgrows hinner s₁ hs₁) ?_) fun _ _ _ => hbehind
      rintro - new s₂ hext ⟨t, ht, rfl⟩
      refine clean_typeSuffixes hs₁ hext ⟨t, .name ht, by rw [hready, List.nil_append], ?_⟩
      exact fun hkind => absurd (hkind ▸ ht.kind_not_mem) (by decide)
    · exact .complain _ hs₁

end

/-- Types that nest deeper than the tokens allow are complained about as well. -/
theorem grows_finds_typeWithinOr (depth : Nat) :
    Grows (typeWithinOr (complain "expected type") depth) ∧
      Finds TypeTree (typeWithinOr (complain "expected type") depth) := by
  induction depth with
  | zero => exact ⟨.complain _, fun _ hs => .complain _ hs⟩
  | succ depth ih => exact ⟨grows_typeWith ih.1, finds_typeWith ih.1 ih.2⟩

/-- What the reader of types makes without a complaint is the tree of a type. -/
theorem finds_type : Finds TypeTree type := by
  intro s hs hclean
  have hagree := agree_type_typeWithinOr (complain "expected type") (Nat.le_refl (pending s.rest + 1))
  have hrun := (hagree s trivial (Nat.lt_succ_self _)).1
  rw [YieldsFrom, hrun]
  exact (grows_finds_typeWithinOr _).2 s hs (hrun ▸ hclean)

end Grammar

/-! ## Texts -/

theorem underway_openFile (text : String) : Underway (openFile text) := by
  obtain ⟨last, hlex, hlast, -⟩ := Token.lex_eq_contents text
  exact ⟨sound_openFile text, Token.contents text, last, hlex, hlast⟩

theorem errors_of_parseType {text : String} {node : Node} (h : parseType text = .ok node) :
    (Grammar.type.run (openFile text)).2.errors = [] := by
  obtain ⟨new, hext, -⟩ := Grammar.reads_type _ (sound_openFile text) trivial
  exact (fragment_of_clean rfl hext (parseFragment_eq_ok_iff.mp h).1).1

/-- A text that is read as one type is the tree of a type with trivia around it. -/
theorem typeTree_of_parseType {text : String} {node : Node} (h : parseType text = .ok node) :
    TypeTree node.tree ∧ ∃ rest, (Token.contents text).map Token.leaf =
      forestLeaves (triviaAhead (Token.lex text) ++ [node.tree] ++ triviaAhead rest) := by
  obtain ⟨new, -, ⟨-, hleaves, hfound⟩, t, ht, rfl⟩ := (parseType_eq_ok h).and
    (Grammar.finds_type _ (underway_openFile text) (errors_of_parseType h))
  obtain ⟨hnode, -⟩ := ht.isType
  cases t with
  | token => cases hnode
  | node k cs =>
      rw [List.append_assoc, List.findSome?_append, findSome?_node?_triviaAhead] at hfound
      obtain rfl := Option.some.inj hfound
      exact ⟨ht, _, hleaves.symm⟩

end CSharpKit.Syntax
