import CSharpKit.Proofs.Syntax.ReadingRules

/-!
# Readers that take a token

`Advances C p` says that `p` takes at least one token, where the tokens ahead
have the property `C` at the start. A loop whose steps do so runs until a step
says that it is done.
-/

namespace CSharpKit.Syntax

open Tree CSharpKit.Syntax.Parser

namespace Parser

variable {α β : Type} {C C' : List Token → Prop} {P : Tree → Prop}

/-- A parser takes a token, if the tokens ahead are as `C` says. -/
def Advances (C : List Token → Prop) (p : Parser α) : Prop :=
  ∀ s, Sound s → C s.rest → Yields p s fun _ _ rest => rest.length < s.rest.length

theorem significant_length_le (ts : List Token) : (Lookahead.significant ts).length ≤ ts.length :=
  (List.dropWhile_sublist _).length_le

theorem advances_bump : Advances (fun ts => Lookahead.kind ts ≠ .eof) bump := by
  intro s _ hc
  refine (yields_bump hc).mono ?_
  rintro - new rest ⟨t, hts, -, -⟩
  have hle := significant_length_le s.rest
  rw [hts, List.length_cons] at hle
  exact hle

theorem advances_require {kind : Kind} (hkind : kind ≠ .eof) (message : String) :
    Advances (fun ts => Lookahead.kind ts = kind) (require kind message) := by
  intro s _ hc
  refine (yields_require message hc hkind).mono ?_
  rintro - new rest ⟨t, hts, -, -⟩
  have hle := significant_length_le s.rest
  rw [hts, List.length_cons] at hle
  exact hle

namespace Advances

variable {p : Parser α} {f : α → Parser β}

theorem weaken (h : Advances C' p) (hC : ∀ ts, C ts → C' ts) : Advances C p :=
  fun s hs hc => h s hs (hC _ hc)

theorem bind (hp : Advances C p) (hf : ∀ a, Reads P (f a)) : Advances C (p >>= f) := by
  intro s hs hc
  refine (hp s hs hc).seq fun a new s' hext hlt => ?_
  obtain ⟨more, hext', -⟩ := hf a s' (hext.sound hs) trivial
  exact ⟨more, hext', Nat.lt_of_le_of_lt hext'.suffix.length_le hlt⟩

theorem node {kind : Kind} {body : Parser Unit} (hbody : Advances C body)
    (hC : ∀ ts, C ts → C (Lookahead.significant ts)) : Advances C (node kind body) := by
  intro s _ hc
  have hrest := rest_flushTrivia s
  have hbody := hbody (opening (flushTrivia.run s).2 kind (flushTrivia.run s).2.builder.mark)
    (sound_opening (Extends.refl _) kind) (by simpa [opening, hrest] using hC _ hc)
  refine (Yields.node hbody).mono ?_
  rintro - new rest ⟨cs, -, hlt⟩
  have hle : (flushTrivia.run s).2.rest.length ≤ s.rest.length := by
    rw [hrest]
    exact significant_length_le _
  exact Nat.lt_of_lt_of_le hlt hle

end Advances

/-- A loop whose steps each take a token runs until a step says that it is done. -/
theorem yields_loop {step : Parser Bool} {D : List Token → Prop}
    (hstep : ∀ s, Sound s → Yields step s fun again _ rest =>
      if again then rest.length < s.rest.length else D rest) {s : ParserState} (hs : Sound s) :
    Yields (loop step) s fun _ _ rest => D rest := by
  have hrun : ∀ n s, Sound s → s.rest.length < n →
      Yields (loopUpTo step n) s fun _ _ rest => D rest := by
    intro n
    induction n with
    | zero => exact fun s _ hlt => absurd hlt (Nat.not_lt_zero _)
    | succ n ih =>
        intro s hs hlt
        refine (hstep s hs).seq fun again new s' hext hagain => ?_
        cases again with
        | false => exact YieldsFrom.pure (Extends.refl s') hagain
        | true => exact ih s' (hext.sound hs) (Nat.lt_of_lt_of_le hagain (Nat.le_of_lt_succ hlt))
  exact Yields.get (hrun _ s hs (Nat.lt_succ_self _))

/-- A loop over what is ahead does nothing where that is not ahead. -/
theorem yields_whileAhead_of_not {question : List Token → Bool} (body : Parser Unit)
    {s : ParserState} (h : question s.rest = false) :
    Yields (whileAhead question body) s fun _ new rest => new = [] ∧ rest = s.rest := by
  have hstep : Yields (ask question >>= fun more =>
      if more then body >>= fun _ => pure true else pure false) s fun again new rest =>
        again = false ∧ new = [] ∧ rest = s.rest := by
    refine Yields.ask ?_
    rw [h]
    exact YieldsFrom.pure (Extends.refl s) ⟨rfl, rfl, rfl⟩
  refine Yields.get (YieldsFrom.bind hstep ?_)
  rintro - new s' hext ⟨rfl, hnew, hrest⟩
  exact YieldsFrom.pure hext ⟨hnew, hrest⟩

theorem advances_whileAhead {question : List Token → Bool} {body : Parser Unit}
    (hread : ReadsIf (fun ts => question ts = true) (Each P) body)
    (hbody : Advances (fun ts => question ts = true) body) :
    Advances (fun ts => question ts = true) (whileAhead question body) := by
  intro s hs hc
  have hstep : Advances (fun ts => question ts = true) (ask question >>= fun more =>
      if more then body >>= fun _ => pure true else pure false) := by
    intro s hs hc
    refine Yields.ask ?_
    rw [hc]
    exact (hbody.bind (P := P) fun _ => ReadsIf.pure true) s hs hc
  refine Yields.get ((hstep.bind (P := P) fun _ => Reads.ite ?_ (ReadsIf.pure _)) s hs hc)
  exact Reads.loopUpTo (Reads.whileAhead_step hread) _

/-- A parser that takes a mark takes a token, if the tokens ahead are as `C` says. -/
def AdvancesFrom (C : List Token → Prop) (p : Nat → Parser α) : Prop :=
  ∀ s₀ s front, Sound s₀ → Extends s₀ s front → C s.rest →
    YieldsFrom s₀ (p s₀.builder.mark) s fun _ _ rest => rest.length < s.rest.length

theorem AdvancesFrom.nodeFrom {kind : Kind} {body : Parser Unit} (hbody : Advances C body) :
    AdvancesFrom C fun start => nodeFrom start kind body := by
  intro s₀ s front hs hext hc
  have hbody := hbody (opening s kind s₀.builder.mark) (sound_opening hext kind) hc
  refine (YieldsFrom.nodeFrom hs hext (Extends.refl s) hbody).mono ?_
  rintro - new rest ⟨more, -, hlt⟩
  exact hlt

end Parser

end CSharpKit.Syntax
