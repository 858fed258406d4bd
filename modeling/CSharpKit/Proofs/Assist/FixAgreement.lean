import CSharpKit.Assist.Fix
import CSharpKit.Proofs.Refactor.TextEffect
import CSharpKit.Proofs.Syntax.Pointers

/-!
# A fix finds what was reported

Of the call that it reports, a diagnostic keeps nothing but the span. The fix
looks the call up by that span and takes it apart once more. Both work because a
call is wider than the calls inside it, so no two calls of a document share a
span, and because the two ways to take a call apart agree.
-/

namespace CSharpKit.Assist

open Syntax Text Workspace Semantics Settings Refactor Cursor Outcome

/-! ## From the span to the call -/

/-- Among the nodes of one span, from the inside out, a node that stands out is the
first of its kind. -/
theorem find?_ancestors {c n : Cursor} (h : Below c n) (hnode : n.isNode = true)
    (hspan : n.span = c.span) (hc : Outstanding c) :
    (n.ancestors.takeWhile fun a => a.span == c.span).find? (fun a => a.kind == c.kind) =
      some c := by
  induction h with
  | refl => cases c <;> simp [ancestors]
  | @tail p e hp he ih =>
      by_cases hkind : e.kind = c.kind
      · have hwidth : e.focus.width = c.focus.width := congrArg Span.length hspan
        obtain rfl := hc e (Below.element hp he) hnode hkind hwidth
        cases e <;> simp [ancestors]
      · have hpspan := span_eq_of_between hp (below_of_mem_elements he) hspan
        rw [ancestors_of_mem_elements he, List.takeWhile_cons_of_pos (by simp [hspan]),
          List.find?_cons_of_neg (by simpa using hkind)]
        exact ih (isNode_of_mem_elements he) hpspan

/-- The call at the span of a call is that call. -/
theorem callAt?_span {text : String} {t : Tree} (h : IsFile text t) {call : Cursor}
    (hcall : Below (.root t) call) (hnode : call.isNode = true)
    (hkind : call.kind = .invocationExpression) : callAt? (.root t) call.span = some call := by
  obtain ⟨hpos, hout⟩ := h.outstanding_call hcall hnode hkind
  obtain ⟨d, n, hcover, hn, hbelow, hnnode, hspan⟩ := cover?_node hcall hnode hpos
  have hfind := find?_ancestors hbelow hnnode hspan hout
  rw [hkind] at hfind
  simp only [callAt?, hcover, Option.bind_eq_bind, Option.bind_some]
  split at hn
  · next hdnode =>
    obtain rfl := Option.some.inj hn
    rw [if_pos hdnode]
    exact hfind
  · next hdnode =>
    rw [if_neg hdnode, hn]
    exact hfind

/-- Calls of one document are told apart by their spans. -/
theorem eq_of_span_eq {text : String} {t : Tree} (h : IsFile text t) {call other : Cursor}
    (hcall : call ∈ (Cursor.root t).nodes) (hother : other ∈ (Cursor.root t).nodes)
    (hkind : call.kind = .invocationExpression) (hkind' : other.kind = .invocationExpression)
    (hspan : other.span = call.span) : other = call := by
  have hfound := callAt?_span h (below_of_mem_nodes hcall) (List.mem_filter.mp hcall).2 hkind
  have hfound' := callAt?_span h (below_of_mem_nodes hother) (List.mem_filter.mp hother).2 hkind'
  rw [hspan, hfound] at hfound'
  exact (Option.some.inj hfound').symm

/-! ## The reported call -/

theorem accessNamed?_eq_some {c access : Cursor} {name : String}
    (h : accessNamed? c name = some access) : access = c := by
  simp only [accessNamed?, Option.bind_eq_bind, Option.bind_eq_some_iff, Option.pure_def,
    Option.some.injEq] at h
  obtain ⟨-, -, -, -, -, -, -, -, rfl⟩ := h
  rfl

theorem emptyAdd?_eq_some {call add empty : Cursor} (h : emptyAdd? call = some (add, empty)) :
    call.expression? = some add ∧ add.expression? = some empty := by
  simp only [emptyAdd?, Option.bind_eq_bind, Option.bind_eq_some_iff, Option.pure_def,
    Option.some.injEq, Prod.mk.injEq] at h
  obtain ⟨callee, hcallee, add', hadd, receiver, hreceiver, empty', hempty, rfl, rfl⟩ := h
  obtain rfl := accessNamed?_eq_some hadd
  obtain rfl := accessNamed?_eq_some hempty
  exact ⟨hcallee, hreceiver⟩

/-- A call `X.Empty.Add(…)` that is reported, with its parts: the accesses to `Add`
and to `Empty`, the type `X` with its element type, and the argument. -/
structure Reported (m : Model) (call add empty receiver argument : Cursor) (element : Ty) :
    Prop where
  kind : call.kind = .invocationExpression
  accesses : emptyAdd? call = some (add, empty)
  receiver_eq : empty.expression? = some receiver
  element_eq : arrayElement? m receiver = some element
  arguments : call.arguments = [argument]

theorem exists_reported {m : Model} {call : Cursor} (hkind : call.kind = .invocationExpression)
    (h : isBadCreation m call = true) :
    ∃ add empty receiver argument element, Reported m call add empty receiver argument element := by
  obtain ⟨hlength, h⟩ := Bool.and_eq_true_iff.mp h
  obtain ⟨argument, hargument⟩ := List.length_eq_one_iff.mp (beq_iff_eq.mp hlength)
  obtain ⟨⟨add, empty⟩, haccesses, h⟩ := (Option.any_eq_true _ _).mp h
  obtain ⟨element, h⟩ := Option.isSome_iff_exists.mp h
  obtain ⟨receiver, hreceiver, helement⟩ := Option.bind_eq_some_iff.mp h
  exact ⟨add, empty, receiver, argument, element, hkind, haccesses, hreceiver, helement, hargument⟩

/-- What is reported of a document is a call in it. -/
theorem exists_of_mem_diagnostics {project : Project} {document : DocumentId}
    {settings : DiagnosticsSettings} {found : List Diagnostic} {d : Diagnostic}
    (h : diagnostics project document settings false = .ok found) (hd : d ∈ found) :
    ∃ doc ∈ project.documents, doc.id = d.document ∧ d.code = badArrayCreation.code ∧
      ∃ call ∈ doc.root.nodes, call.span = d.span ∧ ∃ add empty receiver argument element,
        Reported ⟨.ofProject project, doc.id⟩ call add empty receiver argument element := by
  obtain ⟨-, -, h⟩ := bind_eq_ok_iff.mp h
  split at h
  · next severity doc hseverity hdoc =>
    obtain ⟨hmem, rfl⟩ := Project.mem_of_document? hdoc
    obtain rfl := pure_eq_ok_iff.mp h
    obtain ⟨call, hcall, rfl⟩ := List.mem_map.mp hd
    obtain ⟨hcall, hbad⟩ := List.mem_filter.mp hcall
    obtain ⟨hkind, hbad⟩ := Bool.and_eq_true_iff.mp hbad
    exact ⟨doc, hmem, rfl, rfl, call, hcall, rfl, exists_reported (beq_iff_eq.mp hkind) hbad⟩
  · obtain rfl := pure_eq_ok_iff.mp h
    cases hd

namespace Reported

variable {m : Model} {call add empty receiver argument : Cursor} {element : Ty}
  (h : Reported m call add empty receiver argument element)
include h

/-- The callee of a reported call is a node below it. -/
theorem add_mem_nodes {root : Cursor} (hcall : call ∈ root.nodes) : add ∈ root.nodes := by
  have hchild := (mem_children_of_childOf? (emptyAdd?_eq_some h.accesses).1).1
  exact ((below_of_mem_nodes hcall).trans (below_of_mem_children hchild)).mem_nodes
    (isNode_of_mem_children hchild)

/-- The fix takes a reported call apart as its analyzer did; only an argument
without an expression is in its way. -/
theorem find_eq {text : String} {t : Tree} (hfile : IsFile text t)
    (hcall : call ∈ (Cursor.root t).nodes) : FixTarget.find (.root t) call.span =
      match argument.expression? with
      | some value => .ok ⟨call, add, receiver, value⟩
      | none => .error (.unexpectedShape "a single argument" call.span) := by
  have hfound := callAt?_span hfile (below_of_mem_nodes hcall) (List.mem_filter.mp hcall).2 h.kind
  rw [FixTarget.find, hfound]
  simp only [orShape, bind, Except.bind, h.accesses, h.receiver_eq, singleArgument?, h.arguments]
  cases argument.expression? <;> rfl

/-- The edit of a fix puts a new callee in the place of the old one, unless the
element type cannot be written as syntax. -/
theorem fixEdit_cases (value : Cursor) (span : Span) :
    (∃ callee, fixEdit m ⟨call, add, receiver, value⟩ span =
        .ok ⟨m.document, Tag.of add, NodeChange.replaceWith callee⟩) ∨
      ∃ text, fixEdit m ⟨call, add, receiver, value⟩ span = .error (.synthesis text) := by
  simp only [fixEdit, h.element_eq, orShape, createArgument, bind, Except.bind]
  split
  · next e he =>
    split at he
    · cases he
    · split at he
      · cases he
      · cases he
        exact .inr ⟨_, rfl⟩
  · exact .inl ⟨_, rfl⟩

end Reported

/-! ## The effect of a fix -/

theorem documentOf_of_mem {project : Project} {doc : Document} (hdoc : doc ∈ project.documents) :
    documentOf project doc.id = .ok doc := by
  simp only [documentOf, Project.document?_of_mem hdoc]

/-- There is one fix if what is reported can be found. -/
theorem fixesFor_eq {project : Project} {doc : Document} (hdoc : doc ∈ project.documents)
    {d : Diagnostic} (hid : d.document = doc.id) (hcode : d.code = badArrayCreation.code) :
    fixesFor project d = (FixTarget.find doc.root d.span).map fun _ => [⟨createTitle, d⟩] := by
  rw [fixesFor, if_neg (by simp [hcode]), hid, documentOf_of_mem hdoc]
  simp only [bind, Except.bind]
  cases FixTarget.find doc.root d.span <;> rfl

/-- To replace a node of a document is to patch its text. -/
theorem applyEdits_replaceWith {project : Project} {doc : Document} (hdoc : doc ∈ project.documents)
    {c : Cursor} (hc : c ∈ doc.root.nodes) (new : Node) :
    ∃ next, applyEdits project [⟨doc.id, Tag.of c, NodeChange.replaceWith new⟩] false = .ok next ∧
      next.nextId = project.nextId ∧ List.Forall₂ (fun old changed =>
        Patched (patchesOf [(doc.id, ⟨c.span, new.tree.text⟩)] old.id) old changed)
        project.documents next.documents := by
  obtain ⟨next, hnext⟩ : ∃ next, applyEdits project
      [⟨doc.id, Tag.of c, NodeChange.replaceWith new⟩] false = .ok next := by
    refine applyEdits_ok (fun edit hedit => ?_) fun other _ => ?_
    · obtain rfl := List.mem_singleton.mp hedit
      exact ⟨doc, hdoc, rfl, c, hc, rfl⟩
    · refine Edit.rewrite_ok_of_total fun edit hedit => ?_
      obtain rfl := List.mem_singleton.mp (List.mem_filter.mp hedit).1
      exact Edit.isTotal_replaceWith _ _ _
  let placed : PlacedEdit :=
    ⟨c, ⟨doc.id, Tag.of c, NodeChange.replaceWith new⟩, ⟨c.span, new.tree.text⟩⟩
  have hplanned : PlacedEdit.Planned doc.parsed.tree [placed] := by
    have hone : ∀ p ∈ [placed], p = placed := fun p hp => List.mem_singleton.mp hp
    refine ⟨fun p hp => ?_, fun p hp => ?_, List.nodup_singleton _, fun p hp => ?_⟩ <;>
      obtain rfl := hone p hp
    · exact ⟨below_of_mem_nodes hc, (List.mem_filter.mp hc).2⟩
    · rfl
    · refine .replace rfl rfl fun q hq _ => ?_
      rw [hone q hq]
  refine ⟨next, hnext, @patched_of_planned project next false [placed] (fun other hother => ?_) hnext⟩
  by_cases hid : doc.id = other.id
  · obtain rfl := Project.eq_of_id_eq hdoc hother hid
    rw [List.filter_cons_of_pos (by simp [placed])]
    exact hplanned
  · rw [List.filter_cons_of_neg (by simpa [placed] using hid)]
    exact ⟨by simp, by simp, List.nodup_nil, by simp⟩

/-- A fix of a reported call puts a new callee in the place of `X.Empty.Add`, and
changes nothing else, unless the element type cannot be written as syntax. -/
theorem Reported.applyFix_cases {project : Project} {doc : Document}
    (hdoc : doc ∈ project.documents) {call add empty receiver argument value : Cursor}
    {element : Ty} (hcall : call ∈ doc.root.nodes)
    (h : Reported ⟨.ofProject project, doc.id⟩ call add empty receiver argument element)
    (hvalue : argument.expression? = some value) {fix : Fix}
    (hid : fix.diagnostic.document = doc.id) (hspan : fix.diagnostic.span = call.span) :
    (∃ callee next, applyFix project fix false = .ok next ∧ next.nextId = project.nextId ∧
      List.Forall₂ (fun old changed =>
        Patched (patchesOf [(doc.id, ⟨add.span, callee⟩)] old.id) old changed)
        project.documents next.documents) ∨
      ∃ text, applyFix project fix false = .error (.synthesis text) := by
  have hfind := h.find_eq (isFile_tree doc) hcall
  rw [hvalue] at hfind
  have happly : applyFix project fix false = (do
      let edit ← fixEdit ⟨.ofProject project, doc.id⟩ ⟨call, add, receiver, value⟩ call.span
      (applyEdits project [edit] false).mapError .refactor) := by
    have hroot : FixTarget.find doc.root call.span = .ok ⟨call, add, receiver, value⟩ := hfind
    simp only [applyFix, hid, hspan, documentOf_of_mem hdoc, orCancelled, checkpoint, bind, Except.bind, hroot]
    rfl
  rcases h.fixEdit_cases value call.span with ⟨callee, hedit⟩ | ⟨text, hedit⟩
  · obtain ⟨next, hnext, heffect⟩ := applyEdits_replaceWith hdoc (h.add_mem_nodes hcall) callee
    refine .inl ⟨callee.tree.text, next, ?_, heffect⟩
    rw [happly, hedit]
    show (applyEdits project _ false).mapError _ = _
    rw [hnext]
    rfl
  · refine .inr ⟨text, ?_⟩
    rw [happly, hedit]
    rfl

/-- **What is reported can be fixed.** A diagnostic of a document has the span of
one call `X.Empty.Add(…)` with one argument. There is a fix for it exactly if the
argument has an expression, and else the complaint is about the argument. The fix
can be applied, and then it replaces the callee and no other text, or the element
type cannot be written as syntax. -/
theorem fix_of_diagnostic (project : Project) (document : DocumentId)
    (settings : DiagnosticsSettings) (found : List Diagnostic) (d : Diagnostic)
    (h : diagnostics project document settings false = .ok found) (hd : d ∈ found) :
    ∃ doc ∈ project.documents, doc.id = d.document ∧ ∃ call ∈ doc.root.nodes,
      call.kind = .invocationExpression ∧ call.span = d.span ∧
      (∀ other ∈ doc.root.nodes, other.kind = .invocationExpression → other.span = d.span →
        other = call) ∧
      ∃ add empty argument, emptyAdd? call = some (add, empty) ∧ call.expression? = some add ∧
        call.arguments = [argument] ∧
        (argument.expression? = none →
          fixesFor project d = .error (.unexpectedShape "a single argument" d.span)) ∧
        (argument.expression?.isSome →
          fixesFor project d = .ok [⟨createTitle, d⟩] ∧
          ((∃ callee next, applyFix project ⟨createTitle, d⟩ false = .ok next ∧
            next.nextId = project.nextId ∧ List.Forall₂ (fun old changed =>
              Patched (patchesOf [(d.document, ⟨add.span, callee⟩)] old.id) old changed)
              project.documents next.documents) ∨
            ∃ text, applyFix project ⟨createTitle, d⟩ false = .error (.synthesis text))) := by
  obtain ⟨doc, hdoc, hid, hcode, call, hcall, hspan, add, empty, receiver, argument, element,
    hreported⟩ := exists_of_mem_diagnostics h hd
  have hfind := hreported.find_eq (isFile_tree doc) hcall
  have hfixes := fixesFor_eq hdoc hid.symm hcode
  rw [← hspan] at hfixes
  replace hfind : FixTarget.find doc.root call.span = _ := hfind
  refine ⟨doc, hdoc, hid, call, hcall, hreported.kind, hspan, fun other hother hkind hother' => ?_,
    add, empty, argument, hreported.accesses, (emptyAdd?_eq_some hreported.accesses).1,
    hreported.arguments, fun hnone => ?_, fun hsome => ?_⟩
  · exact eq_of_span_eq (isFile_tree doc) hcall hother hreported.kind hkind (hother'.trans hspan.symm)
  · rw [hfixes, hfind, hnone, ← hspan]
    rfl
  · obtain ⟨value, hvalue⟩ := Option.isSome_iff_exists.mp hsome
    refine ⟨by rw [hfixes, hfind, hvalue]; rfl, ?_⟩
    rw [← hid]
    exact hreported.applyFix_cases hdoc hcall hvalue hid.symm hspan.symm

/-- A project with one document, which adds to the empty immutable array. -/
def emptyAddProject : Project :=
  Project.empty.append (Document.read 0 "array.cs"
    "using System.Collections.Immutable; class C { object F = ImmutableArray<int>.Empty.Add(1); }" 0)
    rfl

/-- What is reported of the project. -/
def emptyAddDiagnostic : Diagnostic :=
  ⟨.error, badArrayCreation.code, badArrayCreation.message, 0, ⟨57, 32⟩⟩

/-- It is all that is reported, and it can be fixed. -/
theorem diagnostics_emptyAddProject :
    diagnostics emptyAddProject 0 {} false = .ok [emptyAddDiagnostic] ∧
      (fixesFor emptyAddProject emptyAddDiagnostic).toOption.isSome = true ∧
      (applyFix emptyAddProject ⟨createTitle, emptyAddDiagnostic⟩ false).toOption.isSome = true := by
  rw [← Project.quick_eq emptyAddProject, ← toOption_eq_some_iff]
  decide +kernel

theorem fix_of_diagnostic_emptyAdd :
    fixesFor emptyAddProject emptyAddDiagnostic = .ok [⟨createTitle, emptyAddDiagnostic⟩] ∧
      ∃ add callee next, applyFix emptyAddProject ⟨createTitle, emptyAddDiagnostic⟩ false = .ok next ∧
        List.Forall₂ (fun old changed =>
          Patched (patchesOf [(0, ⟨add, callee⟩)] old.id) old changed)
          emptyAddProject.documents next.documents := by
  obtain ⟨hfound, hfixed, happlied⟩ := diagnostics_emptyAddProject
  obtain ⟨-, -, -, -, -, -, -, -, add, -, argument, -, -, -, hnone, hsome⟩ :=
    fix_of_diagnostic emptyAddProject 0 {} [emptyAddDiagnostic] emptyAddDiagnostic
      hfound (List.mem_singleton_self _)
  cases hvalue : argument.expression? with
  | none =>
      rw [hnone hvalue] at hfixed
      cases hfixed
  | some value =>
      obtain ⟨hfix, ⟨callee, next, hnext, -, hpatched⟩ | ⟨text, herror⟩⟩ :=
        hsome (by rw [hvalue]; rfl)
      · exact ⟨hfix, add.span, callee, next, hnext, hpatched⟩
      · rw [herror] at happlied
        cases happlied

end CSharpKit.Assist
