import CSharpKit.Proofs.Refactor.Applying

/-!
# Cycles of offering and accepting

One object is asked for offers and told to accept them, in any order and with any
projects. While it accepts, its phase is taken out and a mark stands in its place.
The mark is gone after every call, and no offer is applied twice.
-/

namespace CSharpKit.Refactor

open Syntax Text Workspace Semantics Outcome

/-! ## What an application fails with

An offer may come from another project than the one it is applied to, so nothing is
known of it here. -/

/-- The errors that come out of an application: all but the one for its absence. -/
def IsFailure (e : RefactorError) : Prop := e ≠ .notOffered

theorem failure_orCancelled {α : Type} (x : Except Cancelled α) :
    FailsWith IsFailure (orCancelled x) := by
  cases x with
  | ok a => exact FailsWith.ok a
  | error e => exact FailsWith.error (by rintro ⟨⟩)

theorem failure_of_synthesis {α : Type} {x : Except RefactorError α}
    (h : FailsWith IsSynthesis x) : FailsWith IsFailure x := by
  intro e he
  obtain ⟨text, rfl⟩ := h e he
  rintro ⟨⟩

theorem failure_forwardedParameter (m : Model) (call : Cursor) (method : MethodId) (ordinal : Nat) :
    FailsWith IsFailure (forwardedParameter? m call method ordinal) := by
  unfold forwardedParameter?
  split
  · dsimp only
    split
    · exact FailsWith.ok none
    · exact FailsWith.error (by rintro ⟨⟩)
  · split
    · exact FailsWith.ok _
    · exact FailsWith.ok none

theorem failure_findForwarders (s : SymbolTable) (project : Project) (document : DocumentId)
    (target : ParameterSymbol) (cancelled : Bool) :
    FailsWith IsFailure (findForwarders s project document target cancelled) := by
  unfold findForwarders
  split
  · exact FailsWith.ok []
  · next method _ =>
    refine (failure_orCancelled _).bind fun callers _ => ?_
    refine FailsWith.bind (FailsWith.mapM fun site _ => ?_) fun found _ => FailsWith.ok _
    refine FailsWith.bind ?_ fun call _ =>
      (failure_forwardedParameter _ call method target.ordinal).bind fun p _ => FailsWith.ok _
    unfold callAt
    split
    · exact FailsWith.ok _
    · exact FailsWith.error (by rintro ⟨⟩)

theorem failure_forwarderEdit (s : SymbolTable) (project : Project) (document : DocumentId)
    (owner : TypeId) (name : String) (site : Origin) :
    FailsWith IsFailure (forwarderEdit s project document owner name site) := by
  unfold forwarderEdit
  split
  · exact FailsWith.error (by rintro ⟨⟩)
  · split
    · exact FailsWith.ok _
    · exact (failure_of_synthesis (failsWith_parseType _)).bind fun new _ => FailsWith.ok _

theorem failure_offerEdits (project : Project) (offer : DelegateOffer) (cancelled : Bool) :
    FailsWith IsFailure (offerEdits project offer cancelled) := by
  unfold offerEdits
  dsimp only
  split
  · exact FailsWith.error (by rintro ⟨⟩)
  · split
    · exact FailsWith.error (by rintro ⟨⟩)
    · split
      · exact FailsWith.error (by rintro ⟨⟩)
      · refine FailsWith.bind ?_ fun own _ => FailsWith.bind (failure_findForwarders _ _ _ _ _)
          fun sites _ => FailsWith.bind
            (FailsWith.mapM fun site _ => failure_forwarderEdit _ _ _ _ _ site)
            fun others _ => FailsWith.ok _
        exact (failure_of_synthesis (failsWith_delegateDeclaration _ _ _ _)).bind
          fun declaration _ => FailsWith.ok _

theorem failure_applyEdits (project : Project) (edits : List Edit) (cancelled : Bool) :
    FailsWith IsFailure (applyEdits project edits cancelled) := by
  refine FailsWith.bind (FailsWith.mapM fun id _ => ?_) fun roots _ =>
    (failure_orCancelled _).bind fun _ _ => ?_
  · refine (failure_orCancelled _).bind fun _ _ => ?_
    split
    · exact FailsWith.error (by rintro ⟨⟩)
    · split
      · exact FailsWith.ok _
      · exact FailsWith.error (by rintro ⟨⟩)
  · split
    · exact FailsWith.ok _
    · exact FailsWith.error (by rintro ⟨⟩)

/-- Applying an offer never ends as if there were none. -/
theorem failure_applyOffer (project : Project) (offer : DelegateOffer) (cancelled : Bool) :
    FailsWith IsFailure (applyOffer project offer cancelled) :=
  (failure_orCancelled _).bind fun _ _ =>
    (failure_offerEdits project offer cancelled).bind fun edits _ =>
      failure_applyEdits project edits cancelled

/-! ## Calls -/

/-- What is stored of a cycle: a phase, or the mark that an offer is being applied. -/
inductive Stage where
  | resting (phase : RefactorPhase)
  | applying

namespace Stage

/-- The call for an offer, as it changes what is stored. -/
def computeOffer (project : Project) (document : DocumentId) (span : Span) (cancelled : Bool) :
    StateM Stage (Except RefactorError (Option DelegateOffer)) := do
  set (resting .idle)
  match offerAt project document span cancelled with
  | .error _ => return .error .cancelled
  | .ok found =>
    if let some offer := found then
      set (resting (.offered offer))
    match ← get with
    | .resting (.offered offer) => return .ok (some offer)
    | _ => return .ok none

/-- The call to accept, which takes out what is stored before it knows what it is. -/
def accept (project : Project) (cancelled : Bool) : StateM Stage (Except RefactorError Project) := do
  match ← modifyGet fun stage => (stage, applying) with
  | .resting (.offered offer) =>
    match applyOffer project offer cancelled with
    | .ok next =>
      set (resting .done)
      return .ok next
    | .error e =>
      set (resting (.aborted e))
      return .error e
  | other =>
    set other
    return .error .notOffered

/-- The call for an offer ends in the phase that is computed at once. -/
theorem run_computeOffer (stage : Stage) (project : Project) (document : DocumentId) (span : Span)
    (cancelled : Bool) : (computeOffer project document span cancelled).run stage =
      ((RefactorPhase.offer project document span cancelled).2,
        resting (RefactorPhase.offer project document span cancelled).1) := by
  unfold computeOffer RefactorPhase.offer
  cases offerAt project document span cancelled with
  | error e => rfl
  | ok found =>
      cases found with
      | none => rfl
      | some offer => rfl

/-- Accepting puts back a phase, the one that is computed at once. -/
theorem run_accept (phase : RefactorPhase) (project : Project) (cancelled : Bool) :
    (accept project cancelled).run (resting phase) =
      ((phase.accept project cancelled).2, resting (phase.accept project cancelled).1) := by
  cases phase with
  | offered offer =>
      change ((match applyOffer project offer cancelled with
        | .ok next => do set (resting .done); return .ok next
        | .error e => do set (resting (.aborted e)); return .error e :
          StateM Stage (Except RefactorError Project)).run applying) = _
      unfold RefactorPhase.accept
      dsimp only
      cases applyOffer project offer cancelled with
      | ok next => rfl
      | error e => rfl
  | idle => rfl
  | done => rfl
  | aborted e => rfl

/-- How many offers are stored. -/
def credit : Stage → Nat
  | .resting (.offered _) => 1
  | _ => 0

end Stage

/-- A call, with all that is passed to it. -/
inductive Call where
  | computeOffer (project : Project) (document : DocumentId) (span : Span) (cancelled : Bool)
  | accept (project : Project) (cancelled : Bool)

/-- What a call returns. -/
inductive Reply where
  | offer (result : Except RefactorError (Option DelegateOffer))
  | project (result : Except RefactorError Project)

def Call.run : Call → StateM Stage Reply
  | .computeOffer project document span cancelled =>
    .offer <$> Stage.computeOffer project document span cancelled
  | .accept project cancelled => .project <$> Stage.accept project cancelled

/-- A call that was made, with what was stored before it and after it. -/
structure Event where
  before : Stage
  call : Call
  reply : Reply
  after : Stage

namespace Event

/-- What comes of calls, one after the other. -/
def trace : List Call → Stage → List Event
  | [], _ => []
  | call :: calls, before =>
    let (reply, after) := call.run.run before
    ⟨before, call, reply, after⟩ :: trace calls after

/-- A call for an offer that found one. -/
def offers (e : Event) : Bool :=
  match e.reply with
  | .offer (.ok (some _)) => true
  | _ => false

/-- An acceptance that was not turned away. -/
def consumes (e : Event) : Bool :=
  match e.reply with
  | .offer _ => false
  | .project (.error .notOffered) => false
  | .project _ => true

/-- An acceptance that made a project. -/
def succeeds (e : Event) : Bool :=
  match e.reply with
  | .project (.ok _) => true
  | _ => false

theorem consumes_of_succeeds {e : Event} (h : e.succeeds) : e.consumes := by
  obtain ⟨_, _, reply, _⟩ := e
  cases reply with
  | offer result => cases h
  | project result =>
      cases result with
      | ok next => rfl
      | error err => cases h

theorem trace_cons (call : Call) (calls : List Call) (before : Stage) :
    trace (call :: calls) before =
      ⟨before, call, (call.run.run before).1, (call.run.run before).2⟩ ::
        trace calls (call.run.run before).2 := rfl

/-! ## What one call can do -/

/-- The six ways in which a call may end. -/
inductive Possible : Event → Prop
  | found (before : Stage) (project : Project) (document : DocumentId) (span : Span)
      (cancelled : Bool) (offer : DelegateOffer) :
      Possible ⟨before, .computeOffer project document span cancelled,
        .offer (.ok (some offer)), .resting (.offered offer)⟩
  | nothing (before : Stage) (call : Call) :
      Possible ⟨before, call, .offer (.ok none), .resting .idle⟩
  | interrupted (before : Stage) (call : Call) (e : RefactorError) :
      Possible ⟨before, call, .offer (.error e), .resting .idle⟩
  | refused (phase : RefactorPhase) (call : Call) (h : ∀ offer, phase ≠ .offered offer) :
      Possible ⟨.resting phase, call, .project (.error .notOffered), .resting phase⟩
  | applied (offer : DelegateOffer) (project : Project) (cancelled : Bool) (next : Project)
      (h : applyOffer project offer cancelled = .ok next) :
      Possible ⟨.resting (.offered offer), .accept project cancelled, .project (.ok next),
        .resting .done⟩
  | failed (offer : DelegateOffer) (project : Project) (cancelled : Bool) (e : RefactorError)
      (h : applyOffer project offer cancelled = .error e) :
      Possible ⟨.resting (.offered offer), .accept project cancelled, .project (.error e),
        .resting (.aborted e)⟩

theorem possible_run (call : Call) (phase : RefactorPhase) :
    Possible ⟨.resting phase, call, (call.run.run (.resting phase)).1,
      (call.run.run (.resting phase)).2⟩ := by
  cases call with
  | computeOffer project document span cancelled =>
      simp only [Call.run, StateT.run_map, Stage.run_computeOffer, RefactorPhase.offer]
      cases offerAt project document span cancelled with
      | error e => exact .interrupted _ _ _
      | ok found =>
          cases found with
          | none => exact .nothing _ _
          | some offer => exact .found _ _ _ _ _ offer
  | accept project cancelled =>
      simp only [Call.run, StateT.run_map, Stage.run_accept]
      cases phase with
      | idle => exact .refused _ _ (by rintro _ ⟨⟩)
      | done => exact .refused _ _ (by rintro _ ⟨⟩)
      | aborted e => exact .refused _ _ (by rintro _ ⟨⟩)
      | offered offer =>
          simp only [RefactorPhase.accept]
          cases happly : applyOffer project offer cancelled with
          | ok next => exact .applied _ _ _ _ happly
          | error e => exact .failed _ _ _ _ happly

namespace Possible

variable {e : Event}

theorem rests (h : Possible e) : ∃ phase : RefactorPhase, e.after = .resting phase := by
  cases h with
  | found _ _ _ _ _ offer => exact ⟨.offered offer, rfl⟩
  | nothing => exact ⟨.idle, rfl⟩
  | interrupted => exact ⟨.idle, rfl⟩
  | refused phase => exact ⟨phase, rfl⟩
  | applied => exact ⟨.done, rfl⟩
  | failed _ _ _ err => exact ⟨.aborted err, rfl⟩

/-- Only a call that returns an offer leaves one behind. -/
theorem found_of_after (h : Possible e) {offer : DelegateOffer}
    (hafter : e.after = .resting (.offered offer)) :
    ∃ project document span cancelled,
      e.call = .computeOffer project document span cancelled ∧
        e.reply = .offer (.ok (some offer)) := by
  cases h with
  | found _ project document span cancelled offer =>
      cases hafter
      exact ⟨project, document, span, cancelled, rfl, rfl⟩
  | nothing => cases hafter
  | interrupted => cases hafter
  | refused phase _ hphase => exact absurd (Stage.resting.inj hafter) (hphase offer)
  | applied => cases hafter
  | failed => cases hafter

/-- An acceptance that is not turned away is that of the offer that is stored. -/
theorem before_of_consumes (h : Possible e) (hconsumes : e.consumes) :
    ∃ project offer cancelled, e.before = .resting (.offered offer) ∧
      e.call = .accept project cancelled ∧
        e.reply = .project (applyOffer project offer cancelled) := by
  cases h with
  | found => cases hconsumes
  | nothing => cases hconsumes
  | interrupted => cases hconsumes
  | refused => cases hconsumes
  | applied offer project cancelled _ happly =>
      exact ⟨project, offer, cancelled, rfl, rfl, congrArg Reply.project happly.symm⟩
  | failed offer project cancelled _ happly =>
      exact ⟨project, offer, cancelled, rfl, rfl, congrArg Reply.project happly.symm⟩

theorem after_of_refused (h : Possible e) (hreply : e.reply = .project (.error .notOffered)) :
    e.after = e.before := by
  cases h with
  | found => cases hreply
  | nothing => cases hreply
  | interrupted => cases hreply
  | refused => rfl
  | applied => cases hreply
  | failed offer project cancelled err happly =>
      cases hreply
      exact absurd rfl (failure_applyOffer project offer cancelled _ happly)

theorem after_of_interrupted (h : Possible e) {err : RefactorError}
    (hreply : e.reply = .offer (.error err)) : e.after = .resting .idle := by
  cases h with
  | found => cases hreply
  | nothing => cases hreply
  | interrupted => rfl
  | refused => cases hreply
  | applied => cases hreply
  | failed => cases hreply

theorem after_of_failed (h : Possible e) {offer : DelegateOffer} {err : RefactorError}
    (hbefore : e.before = .resting (.offered offer)) (hreply : e.reply = .project (.error err)) :
    e.after = .resting (.aborted err) := by
  cases h with
  | found => cases hreply
  | nothing => cases hreply
  | interrupted => cases hreply
  | refused phase _ hphase => exact absurd (Stage.resting.inj hbefore) (hphase offer)
  | applied => cases hreply
  | failed => cases hreply; rfl

/-- Every acceptance that is not turned away is paid for: by the offer that is stored,
or by the one that the call itself finds. -/
theorem credit_le (h : Possible e) :
    (if e.consumes then 1 else 0) + e.after.credit ≤
      e.before.credit + (if e.offers then 1 else 0) := by
  cases h with
  | found => exact Nat.le_add_left _ _
  | nothing => exact Nat.zero_le _
  | interrupted => exact Nat.zero_le _
  | refused phase => exact Nat.le_of_eq (Nat.add_comm _ _)
  | applied => exact Nat.le_refl _
  | failed =>
      refine Nat.add_le_add ?_ (Nat.zero_le _)
      split
      · exact Nat.le_refl 1
      · exact Nat.zero_le 1

end Possible

/-! ## What all calls do -/

theorem possible_of_mem {calls : List Call} {phase : RefactorPhase} {e : Event}
    (h : e ∈ trace calls (.resting phase)) : Possible e := by
  induction calls generalizing phase with
  | nil => cases h
  | cons call calls ih =>
      have hfirst := possible_run call phase
      rw [trace_cons] at h
      rcases List.mem_cons.mp h with rfl | h
      · exact hfirst
      · obtain ⟨next, hnext⟩ := hfirst.rests
        dsimp only at hnext
        rw [hnext] at h
        exact ih h

/-- A call finds what the one before it has left. -/
theorem before_of_trace {calls : List Call} {start : Stage} {earlier later : List Event}
    {e : Event} (h : trace calls start = earlier ++ e :: later) :
    e.before = (earlier.getLast?.map (·.after)).getD start := by
  induction earlier generalizing calls start with
  | nil =>
      cases calls with
      | nil => cases h
      | cons call calls =>
          rw [trace_cons] at h
          obtain ⟨rfl, -⟩ := List.cons.inj h
          rfl
  | cons first earlier ih =>
      cases calls with
      | nil => cases h
      | cons call calls =>
          rw [trace_cons, List.cons_append] at h
          obtain ⟨rfl, hrest⟩ := List.cons.inj h
          rw [ih hrest, List.getLast?_cons]
          cases earlier.getLast? with
          | none => rfl
          | some last => rfl

/-- An acceptance that is not turned away stands right after the call that found its
offer. -/
theorem found_before_consumed {calls : List Call} {earlier later : List Event} {e : Event}
    (h : trace calls (.resting .idle) = earlier ++ e :: later) (hconsumes : e.consumes) :
    ∃ past last, earlier = past ++ [last] ∧ last.after = e.before := by
  have hmem : e ∈ trace calls (.resting .idle) := by simp [h]
  obtain ⟨_, offer, _, hbefore, -⟩ := (possible_of_mem hmem).before_of_consumes hconsumes
  have hlinked := before_of_trace h
  cases hlast : earlier.getLast? with
  | none =>
      rw [hlast, hbefore] at hlinked
      cases hlinked
  | some last =>
      rw [hlast] at hlinked
      exact ⟨earlier.dropLast, last, (List.dropLast_append_getLast? last hlast).symm, hlinked.symm⟩

theorem countP_consumes_le (calls : List Call) (phase : RefactorPhase) :
    (trace calls (.resting phase)).countP consumes ≤
      (Stage.resting phase).credit + (trace calls (.resting phase)).countP offers := by
  induction calls generalizing phase with
  | nil => exact Nat.zero_le _
  | cons call calls ih =>
      have hfirst := possible_run call phase
      obtain ⟨next, hnext⟩ := hfirst.rests
      have hcredit := hfirst.credit_le
      have hrest := ih next
      dsimp only at hnext
      simp only [trace_cons, List.countP_cons, hnext] at hcredit hrest ⊢
      omega

/-- What holds of the calls on one object. -/
structure Orderly (events : List Event) : Prop where
  /-- After every call one of the four phases is stored. -/
  rests : ∀ e ∈ events, ∃ phase : RefactorPhase, e.after = .resting phase
  /-- An acceptance that is not turned away applies the offer that the call right before
  it has found. -/
  found : ∀ earlier e later, events = earlier ++ e :: later → e.consumes → ∃ past last offer,
    earlier = past ++ [last] ∧
      (∃ project document span cancelled,
        last.call = .computeOffer project document span cancelled) ∧
      last.reply = .offer (.ok (some offer)) ∧
      ∃ project cancelled, e.call = .accept project cancelled ∧
        e.reply = .project (applyOffer project offer cancelled)
  refused : ∀ e ∈ events, e.reply = .project (.error .notOffered) → e.after = e.before
  spent : events.countP consumes ≤ events.countP offers
  succeeded : events.countP succeeds ≤ events.countP offers
  interrupted : ∀ e ∈ events, ∀ err, e.reply = .offer (.error err) → e.after = .resting .idle
  aborted : ∀ e ∈ events, ∀ offer err, e.before = .resting (.offered offer) →
    e.reply = .project (.error err) → e.after = .resting (.aborted err)

/-- **The protocol of an object.** Whatever calls are made on a new one, with whatever
projects, places and cancellations: the mark of an application is never left behind, an
offer is applied once at most, by the next call after the one that found it, and what
fails leaves the phase that says so. -/
theorem trace_orderly (calls : List Call) : Orderly (trace calls (.resting .idle)) where
  rests _ he := (possible_of_mem he).rests
  found earlier e later h hconsumes := by
    have he : e ∈ trace calls (.resting .idle) := by simp [h]
    obtain ⟨project, offer, cancelled, hbefore, hcall, hreply⟩ :=
      (possible_of_mem he).before_of_consumes hconsumes
    obtain ⟨past, last, rfl, hafter⟩ := found_before_consumed h hconsumes
    have hlast : last ∈ trace calls (.resting .idle) := by simp [h]
    obtain ⟨from_, document, span, token, hfrom, hfound⟩ :=
      (possible_of_mem hlast).found_of_after (hafter.trans hbefore)
    exact ⟨past, last, offer, rfl, ⟨from_, document, span, token, hfrom⟩, hfound,
      project, cancelled, hcall, hreply⟩
  refused _ he := (possible_of_mem he).after_of_refused
  spent := Nat.zero_add (List.countP offers _) ▸ countP_consumes_le calls .idle
  succeeded := (List.countP_mono_left fun e _ => consumes_of_succeeds).trans
    (Nat.zero_add (List.countP offers _) ▸ countP_consumes_le calls .idle)
  interrupted _ he _ := (possible_of_mem he).after_of_interrupted
  aborted _ he _ _ := (possible_of_mem he).after_of_failed

end Event

end CSharpKit.Refactor
