import CSharpKit.Proofs.Syntax.Fragments
import CSharpKit.Proofs.Syntax.Repetition
import CSharpKit.Proofs.Syntax.Scanning

/-!
# Every parse ends

The pending tokens are the measure of the parser: each step of a loop but the last
lowers it, and so does each recursive call, unless it goes down in the order of the
constructs. The bounds on nesting, on loops and on lookahead are linear in the number
of tokens and out of reach.
-/

namespace CSharpKit.Syntax

open CSharpKit.Syntax.Parser

namespace Parser

variable {step : Parser Bool}

/-- How often a loop may go round does not matter if it is more often than tokens are pending. -/
theorem loopUpTo_run_eq (h : Progresses step) {n m : Nat} {s : ParserState}
    (hn : pending s.rest < n) (hm : pending s.rest < m) :
    (loopUpTo step n).run s = (loopUpTo step m).run s := by
  induction n generalizing m s with
  | zero => exact absurd hn (Nat.not_lt_zero _)
  | succ n ih =>
      obtain ⟨m, rfl⟩ := Nat.exists_eq_add_one_of_ne_zero (Nat.ne_zero_of_lt hm)
      have hunfold : ∀ count, (loopUpTo step (count + 1)).run s =
          (if (step.run s).1 then loopUpTo step count else pure ()).run (step.run s).2 :=
        fun _ => rfl
      rw [hunfold, hunfold]
      cases hagain : (step.run s).1 with
      | false => rfl
      | true =>
          have hlt := (h s hagain).2
          exact ih (by omega) (by omega)

/-- A loop is a step, and the loop again if the step asks for it. -/
theorem loop_run (h : Progresses step) (s : ParserState) :
    (loop step).run s = (step >>= fun again => if again then loop step else pure ()).run s := by
  have hlength := pending_le_length s.rest
  have hunfold : (loop step).run s =
      (if (step.run s).1 then loopUpTo step s.rest.length else pure ()).run (step.run s).2 := rfl
  show _ = (if (step.run s).1 then loop step else pure ()).run (step.run s).2
  rw [hunfold]
  cases hagain : (step.run s).1 with
  | false => rfl
  | true =>
      have hlt := (h s hagain).2
      exact loopUpTo_run_eq h (by omega) (Nat.lt_succ_of_le (pending_le_length _))

end Parser

namespace Grammar

/-- Where a parser of the contents of a file ends on a text, if `base` reads what nests
deeper than the bound. -/
def runOnOr (base : Rules) (text : String) (body : Rules → Parser Unit) : ParserState :=
  let tokens := Token.lex text
  ((wholeFile (body (withinOr base (nestingBound tokens)))).run ⟨tokens, .empty, [], []⟩).2

/-- Nothing nests deeper than the bound. -/
theorem runOnOr_eq (base : Rules) (text : String) (c : Construct) (after : Parser Unit) :
    runOnOr base text (fun rules => rules c >>= fun _ => after) =
      runOn text fun rules => rules c >>= fun _ => after := by
  have hbound := lt_nestingBound (Token.lex text) c
  have hread : (withinOr base (nestingBound (Token.lex text)) c).run (openFile text) =
      (within (nestingBound (Token.lex text)) c).run (openFile text) := by
    rw [← withinOr_pure]
    exact (enters_withinOr hbound hbound (openFile text) trivial (Nat.lt_succ_self _)).1
  have hrun : ∀ p : Parser Unit, (wholeFile (p >>= fun _ => after)).run
      ⟨Token.lex text, .empty, [], []⟩ = (flushTrivia >>= fun _ => finishNode : Parser Unit).run
        (after.run (p.run (openFile text)).2).2 := fun _ => rfl
  simp only [runOnOr, runOn, hrun, hread]

/-- The parser takes a token in each round of a loop, and between two calls of one
construct, so it ends within bounds that are linear in the number of tokens. -/
theorem parser_progresses :
    -- Each loop stands in its reader, and a step that does not end it takes a token.
    (∀ l : Repetition, (∀ rules, l.StandsIn rules) ∧ Progresses (l.step whole) ∧
      ∀ s, (loop (l.step whole)).run s =
        (do if ← l.step whole then loop (l.step whole) : Parser Unit).run s) ∧
    -- What a construct reads depends on the constructs behind a token and on lower ones.
    (∀ n (r r' : Rules) (c : Construct), (∀ c', Agree n (r c') (r' c')) →
      (∀ c', c'.rank < c.rank → Agree (n + 1) (r c') (r' c')) →
      Agree (n + 1) (construct r c) (construct r' c)) ∧
    (∀ n (inner inner' : Parser Unit), Agree n inner inner' →
      Agree (n + 1) (typeWith inner) (typeWith inner')) ∧
    -- So the grammar is closed without a bound, and a linear one is never exceeded.
    (∀ c s, (whole c).run s = (construct whole c).run s) ∧
    (∀ s, type.run s = (typeWith type).run s) ∧
    (∀ base depth c s, 3 * pending s.rest + c.rank < depth →
      (withinOr base depth c).run s = (whole c).run s) ∧
    (∀ base depth s, pending s.rest < depth → (typeWithinOr base depth).run s = type.run s) ∧
    (∀ opening closing fuel depth s, pending s.rest ≤ fuel →
      (bracketed opening closing fuel depth).run s =
        (bracketed opening closing (pending s.rest) depth).run s) ∧
    (∀ fuel depth s, pending s.rest ≤ fuel →
      (constraintTail fuel depth).run s = (constraintTail (pending s.rest) depth).run s) ∧
    -- Lookahead goes forward as well.
    (∀ ts, Lookahead.scanType ts = Lookahead.scanTypeWith Lookahead.scanType ts) ∧
    (∀ n ts, ts.length ≤ n → Lookahead.scanSuffixes n ts = Lookahead.scanSuffixes ts.length ts ∧
      Lookahead.scanSegments Lookahead.scanType n ts =
        Lookahead.scanSegments Lookahead.scanType ts.length ts ∧
      Lookahead.scanSlots Lookahead.scanType (n + 1) ts =
        Lookahead.scanSlots Lookahead.scanType (ts.length + 1) ts) ∧
    -- Neither the parser of files nor one of fragments meets what is behind the bound.
    (∀ base text, parseState text = runOnOr base text fun rules => rules (.namespaceBody false)) ∧
    (∀ base text c, (runOn text fun rules => rules c >>= fun _ => fragmentEnd) =
      runOnOr base text fun rules => rules c >>= fun _ => fragmentEnd) := by
  refine ⟨fun l => ⟨l.standsIn, l.progresses_step, loop_run l.progresses_step⟩, ?_, ?_, whole_run,
    type_run, ?_, ?_, ?_, ?_, Lookahead.scanType_eq, ?_, ?_, ?_⟩
  · intro n r r' c h hlower
    exact (enters_construct (T := False) h fun c' hc' =>
      .of_agree (hlower c' hc') fun _ _ hd => hd.1).ahead
  · exact fun n inner inner' h => (enters_typeWith h).ahead
  · exact fun base depth c s h => (enters_whole h s trivial (Nat.lt_succ_self _)).1.symm
  · exact fun base depth s h => (agree_type_typeWithinOr base (Nat.le_refl _) s trivial h).1.symm
  · intro opening closing fuel depth s h
    exact (agree_bracketed h (Nat.le_refl _) depth s trivial (Nat.lt_succ_self _)).1
  · intro fuel depth s h
    exact (agree_constraintTail h (Nat.le_refl _) depth s trivial (Nat.lt_succ_self _)).1
  · intro n ts h
    refine ⟨Lookahead.scanSuffixes_eq h (Nat.le_refl _), ?_, ?_⟩
    · exact Lookahead.scanSegments_eq Lookahead.goesForward_scanType h (Nat.le_refl _)
    · exact Lookahead.scanSlots_eq Lookahead.goesForward_scanType (Nat.lt_succ_of_le h)
        (Nat.lt_succ_self _)
  · intro base text
    exact (runOnOr_eq base text (.namespaceBody false) (pure ())).symm
  · exact fun base text c => (runOnOr_eq base text c fragmentEnd).symm

end Grammar

end CSharpKit.Syntax
