import CSharpKit.Proofs.Assist.FixAgreement
import CSharpKit.Proofs.Refactor.Rereading
import CSharpKit.Proofs.Semantics.ArrayFactory

/-!
# The call after a fix

A fix puts `X.Create` in the place of `X.Empty.Add` and leaves the rest of the call.
The new call has the type of the old one if its argument fits `Create` as an item
better than as the array of all items. Otherwise it means the other method, or none.
-/

namespace CSharpKit

open Syntax Tree Cursor Refactor Outcome

/-! ## A node in place of another -/

namespace Syntax.Cursor

/-- What is above a node that is replaced keeps its start. -/
theorem exists_replaced {t new : Tree} {c : Cursor} (hc : Below (.root t) c) (path rest : List Nat)
    (hpath : path = c.path ++ rest) : ∃ c', Below (.root (t.replaceAt path new)) c' ∧
      c'.start = c.start ∧ c'.focus = c.focus.replaceAt rest new := by
  induction hc generalizing rest with
  | refl => exact ⟨_, .refl _, rfl, by rw [hpath]; rfl⟩
  | @tail p e hp he ih =>
      obtain ⟨i, u, hu, rfl⟩ := mem_elements_iff.mp he
      obtain ⟨p', hp', hstart, hfocus⟩ := ih (i :: rest) (by rw [hpath]; simp [Cursor.path])
      have hchildren : p'.focus.children = p.focus.children.modify i fun u => u.replaceAt rest new := by
        rw [hfocus, replaceAt]
        cases hnode : p.focus with
        | node k cs => rfl
        | token k s => rw [hnode] at hu; cases hu
      refine ⟨.child p' i (p'.start + forestWidth (p'.focus.children.take i)) (u.replaceAt rest new),
        hp'.tail (mem_elements_iff.mpr ⟨i, _, ?_, rfl⟩), ?_, rfl⟩
      · rw [hchildren, List.getElem?_modify_eq, hu]
        rfl
      · show p'.start + _ = p.start + _
        have htake : (p.focus.children.modify i fun u => u.replaceAt rest new).take i =
            p.focus.children.take i := by
          rw [List.take_modify, List.modify_eq_self (List.length_take_le ..)]
        rw [hstart, hchildren, htake]

/-- Where the first child of some kinds is replaced, its siblings stay. -/
theorem exists_split_of_childOf? {c d : Cursor} {p : Kind → Bool} (h : c.childOf? p = some d) :
    ∃ before after, c.focus.children = before ++ d.focus :: after ∧ d.index = before.length ∧
      ∀ t ∈ before, (t.isNode && p t.kind) = false := by
  have hfind : c.elements.find? (fun e => e.isNode && p e.kind) = some d := by
    rw [← h, childOf?, Cursor.children, List.find?_filter]
    simp only [Bool.decide_and, Bool.decide_eq_true]
  obtain ⟨-, before, after, heq, hbefore⟩ := List.find?_eq_some_iff_append.mp hfind
  refine ⟨before.map focus, after.map focus, ?_, ?_, ?_⟩
  · rw [← map_focus_elements, heq, List.map_append, List.map_cons]
  · have hget : c.elements[before.length]? = some d := by
      rw [heq, List.getElem?_append_right (Nat.le_refl _), Nat.sub_self]
      rfl
    rw [getElem?_elements] at hget
    obtain ⟨t, -, rfl⟩ := Option.map_eq_some_iff.mp hget
    rw [List.length_map]
    rfl
  · intro t ht
    obtain ⟨e, he, rfl⟩ := List.mem_map.mp ht
    exact (Bool.not_eq_true' _).mp (hbefore e he)

/-- A call whose callee is replaced has the new callee and the arguments it had. -/
theorem parts_of_replaced {call call' old : Cursor} {new : Node}
    (hold : call.expression? = some old) (hexpr : new.kind.isExpr = true)
    (hfocus : call'.focus = call.focus.replaceAt [old.index] new.tree) :
    call'.kind = call.kind ∧ (∃ c, call'.expression? = some c ∧ c.focus = new.tree) ∧
      call'.arguments.map focus = call.arguments.map focus := by
  obtain ⟨before, after, hchildren, hindex, hbefore⟩ := exists_split_of_childOf? hold
  have hdisjoint (k : Kind) (hk : k.isExpr = true) : ¬k.isArgumentList = true := by
    intro hlist
    unfold Kind.isArgumentList at hlist
    split at hlist <;> simp_all [Kind.isExpr]
  let isList (t : Tree) : Bool := t.isNode && t.kind.isArgumentList
  have hnot : ¬isList new.tree = true := fun h => hdisjoint _ hexpr (Bool.and_eq_true_iff.mp h).2
  have hnotOld : ¬isList old.focus = true := fun h =>
    hdisjoint _ (mem_children_of_childOf? hold).2 (Bool.and_eq_true_iff.mp h).2
  have hchildren' : call'.focus.children = before ++ new.tree :: after := by
    rw [hfocus, replaceAt]
    cases hnode : call.focus with
    | token k s =>
        rw [hnode] at hchildren
        exact absurd hchildren (by simp [Tree.children])
    | node k cs =>
        rw [hnode] at hchildren
        replace hchildren : cs = before ++ old.focus :: after := hchildren
        rw [hchildren]
        simp [withChildren, Tree.children, hindex, List.modify_eq_set_getElem?, List.set_append_right]
  have hkind : call'.kind = call.kind := by
    rw [Cursor.kind, Cursor.kind, hfocus]
    cases call.focus <;> rfl
  refine ⟨hkind, ?_, ?_⟩
  · have hfirst : (call'.expression?).map focus = some new.tree := by
      rw [expression?, map_focus_childOf?, hchildren', List.find?_append,
        List.find?_eq_none.mpr (by simpa using hbefore), Option.none_or, List.find?_cons_of_pos]
      exact hexpr
    obtain ⟨c, hc, hfocus⟩ := Option.map_eq_some_iff.mp hfirst
    exact ⟨c, hc, hfocus⟩
  · have hlist : (call'.argumentList?).map focus = (call.argumentList?).map focus := by
      rw [argumentList?, argumentList?, map_focus_childOf?, map_focus_childOf?, hchildren, hchildren',
        List.find?_append, List.find?_append]
      congr 1
      exact (List.find?_cons_of_neg hnot).trans (List.find?_cons_of_neg hnotOld).symm
    rw [arguments, arguments]
    cases hfound : call.argumentList? with
    | none =>
        rw [hfound, Option.map_none, Option.map_eq_none_iff] at hlist
        rw [hlist]
    | some list =>
        rw [hfound] at hlist
        obtain ⟨list', hlist', hfocus⟩ := Option.map_eq_some_iff.mp hlist
        rw [hlist']
        show list'.listedArguments.map focus = list.listedArguments.map focus
        rw [listedArguments, listedArguments, childrenOfKind, childrenOfKind, map_focus_childrenOf,
          map_focus_childrenOf, hfocus]

end Syntax.Cursor

namespace Refactor.Edit

/-- One replacement in a tree. -/
theorem applyToTree_replaceWith {t : Tree} {c : Cursor} (hc : c ∈ (Cursor.root t).nodes)
    (document : Workspace.DocumentId) (new : Node) :
    applyToTree [⟨document, Tag.of c, NodeChange.replaceWith new⟩] t =
      .ok (t.replaceAt c.path new.tree) := by
  have hcaptured : CapturedFrom t [⟨document, Tag.of c, NodeChange.replaceWith new⟩] := by
    intro edit hedit
    obtain rfl := List.mem_singleton.mp hedit
    exact ⟨c, hc, rfl⟩
  have hfound : t.nodeAt? c.path = some c.focus := by
    have hfocus := (Cursor.root t).focus_at? c.path
    rw [Cursor.at?_root_of_mem_nodes hc] at hfocus
    exact hfocus.symm
  refine (applyToTree_ok_iff_rewrite hcaptured _).mpr
    ((rewrite_append_ok_iff [] [_] (List.pairwise_singleton _ _) ?_).mpr ⟨t, rewriteAt_nil [] t, ?_⟩)
  · intro edit hedit
    obtain rfl := List.mem_singleton.mp hedit
    exact ⟨c.focus, hfound, (List.mem_filter.mp hc).2⟩
  · have hchange : changeAt ⟨document, Tag.of c, NodeChange.replaceWith new⟩ c.path t =
        .ok (t.replaceAt c.path new.tree) := by
      rw [changeAt, hfound]
      rfl
    rw [makeAll, List.foldlM_cons]
    exact bind_eq_ok_iff.mpr ⟨_, hchange, rfl⟩

end Refactor.Edit

/-! ## The call that a fix makes -/

namespace Assist

open Semantics Workspace Settings

/-- A built access has its receiver and its name. -/
theorem parts_memberAccess {c : Cursor} {receiver name : Tree} (hreceiver : receiver.isNode = true)
    (hexpr : receiver.kind.isExpr = true) (hwidth : 0 < receiver.width) (hname : name.isNode = true)
    (hsimple : name.kind.isSimpleName = true)
    (hc : c.focus = (Build.memberAccess receiver name).tree) :
    c.kind = .memberAccessExpression ∧ ∃ r n, c.expression? = some r ∧ r.focus = receiver ∧
      c.accessedName? = some n ∧ n.focus = name := by
  have hfocus : c.focus.children = [receiver, .token .dot ".", name] := by
    rw [hc]
    rfl
  let first : Cursor := .child c 0 c.start receiver
  let last : Cursor := .child c 2 (c.start + receiver.width + (Tree.token .dot ".").width) name
  have hchildren : c.children = [first, last] := by
    rw [Cursor.children, elements, hfocus]
    simp only [row]
    rw [List.filter_cons_of_pos (show first.isNode = true from hreceiver),
      List.filter_cons_of_neg Bool.false_ne_true,
      List.filter_cons_of_pos (show last.isNode = true from hname), List.filter_nil]
  have hexpression : c.expression? = some first := by
    rw [expression?, childOf?, hchildren, List.find?_cons_of_pos]
    exact hexpr
  have hstop : first.stop = c.start + receiver.width := rfl
  let isBehind (d : Cursor) : Bool := first.stop ≤ d.start && d.kind.isSimpleName
  have hfirst : ¬isBehind first = true := by
    have hlt : ¬first.stop ≤ first.start := by
      rw [hstop, show first.start = c.start from rfl]
      omega
    simp [isBehind, hlt]
  have hlast : isBehind last = true := by
    rw [Bool.and_eq_true, decide_eq_true_eq, hstop]
    exact ⟨Nat.le_add_right _ _, hsimple⟩
  refine ⟨?_, first, last, hexpression, rfl, ?_, rfl⟩
  · rw [Cursor.kind, hc]
    rfl
  · rw [accessedName?, hexpression, Option.bind_some, hchildren]
    exact (List.find?_cons_of_neg hfirst).trans (List.find?_cons_of_pos hlast)

/-- A built name `Create` has the type argument it is built with. -/
theorem parts_createName {c : Cursor} {typeArgument : Option Node}
    (htype : ∀ ty, typeArgument = some ty → ty.kind.isType = true)
    (hc : c.focus = (match typeArgument with
      | some ty => Build.genericName "Create" [ty]
      | none => Build.identifierName "Create").tree) :
    c.name? = some "Create" ∧
      (c.typeArgumentList?.map fun list => list.types.map focus) =
        typeArgument.map fun ty => [ty.tree] := by
  cases typeArgument with
  | none =>
      have hchildren : c.focus.children = [.token .identifier "Create"] := by
        rw [hc]
        rfl
      have hlist : (c.typeArgumentList?).map focus = none := by
        rw [typeArgumentList?, child?, map_focus_childOf?, hchildren]
        rfl
      rw [name?_eq_text, hchildren, Option.map_eq_none_iff.mp hlist]
      exact ⟨by decide, rfl⟩
  | some ty =>
      let list : Tree := .node .typeArgumentList
        [.token .less "<", ty.tree, .token .greater ">"]
      have hchildren : c.focus.children = [.token .identifier "Create", list] := by
        rw [hc]
        rfl
      have hlist : (c.typeArgumentList?).map focus = some list := by
        rw [typeArgumentList?, child?, map_focus_childOf?, hchildren]
        rfl
      obtain ⟨found, hfound, hfocus⟩ := Option.map_eq_some_iff.mp hlist
      rw [name?_eq_text, hchildren, hfound]
      refine ⟨by simp [list, Tree.isNode, Tree.kind, Tree.text, Tree.leaves], ?_⟩
      have htypes : found.types.map focus = [ty.tree] := by
        rw [types, map_focus_childrenOf, hfocus]
        simp [list, Tree.children, Tree.isNode, Tree.kind, Node.tree, htype ty rfl]
      rw [Option.map_some, htypes]
      rfl

/-- A built callee names `Create` behind the name of the factory. -/
theorem parts_createCallee {c written : Cursor} {typeArgument : Option Node}
    (htype : ∀ ty, typeArgument = some ty → ty.kind.isType = true)
    (hc : c.focus = (createCallee (createReceiver written) typeArgument).tree) :
    c.kind = .memberAccessExpression ∧ ∃ receiver name, c.expression? = some receiver ∧
      receiver.text = ".".intercalate (createReceiver written) ∧ c.accessedName? = some name ∧
      name.name? = some "Create" ∧ (name.typeArgumentList?.map fun list => list.types.map focus) =
        typeArgument.map fun ty => [ty.tree] := by
  obtain ⟨access, hexpr, hwidth, htext, hfocus⟩ : ∃ access : Node,
      access.tree.kind.isExpr = true ∧
      0 < access.tree.width ∧ access.tree.text = ".".intercalate (createReceiver written) ∧
      c.focus = (Build.memberAccess access.tree (match typeArgument with
        | some ty => Build.genericName "Create" [ty]
        | none => Build.identifierName "Create").tree).tree := by
    rw [createReceiver] at hc ⊢
    split at hc
    · next hgeneric =>
      rw [if_pos hgeneric]
      exact ⟨Build.identifierName "ImmutableArray", rfl, by decide, by decide, hc⟩
    · next hgeneric =>
      rw [if_neg hgeneric]
      exact ⟨_, rfl, by decide, by decide, hc⟩
  have hsimple : (match typeArgument with
      | some ty => Build.genericName "Create" [ty]
      | none => Build.identifierName "Create").tree.kind.isSimpleName = true := by
    cases typeArgument <;> rfl
  obtain ⟨hkind, receiver, name, hexpression, hreceiver, hname, hnameFocus⟩ :=
    parts_memberAccess rfl hexpr hwidth rfl hsimple hfocus
  obtain ⟨hcreate, htypes⟩ := parts_createName htype hnameFocus
  refine ⟨hkind, receiver, name, hexpression, ?_, hname, hcreate, htypes⟩
  rw [Cursor.text, hreceiver, htext]

/-- The type argument that a built name writes. -/
theorem exists_written {name : Cursor} {typeArgument : Option Node}
    (h : (name.typeArgumentList?.map fun list => list.types.map focus) =
      typeArgument.map fun ty => [ty.tree]) :
    ∃ written? : Option Cursor,
      name.typeArgumentList?.map Cursor.types = written?.map (fun written => [written]) ∧
        written?.map focus = typeArgument.map Node.tree := by
  cases typeArgument with
  | none =>
      rw [Option.map_none, Option.map_eq_none_iff] at h
      exact ⟨none, by rw [h]; rfl, rfl⟩
  | some ty =>
      obtain ⟨list, hlist, htypes⟩ := Option.map_eq_some_iff.mp h
      obtain ⟨written, hone, hfocus⟩ := List.map_eq_singleton_iff.mp htypes
      exact ⟨some written, by rw [hlist, Option.map_some, hone]; rfl,
        by rw [Option.map_some, hfocus]; rfl⟩

/-- The edit of a fix is made of the parts of the call. -/
theorem Reported.fixEdit_eq_ok {m : Model} {call add empty receiver argument : Cursor}
    {element : Ty} (h : Reported m call add empty receiver argument element) {value : Cursor}
    {span : Text.Span} {edit : Edit} (hedit : fixEdit m ⟨call, add, receiver, value⟩ span = .ok edit) :
    ∃ typeArgument, createArgument m ⟨call, add, receiver, value⟩ element = .ok typeArgument ∧
      (∀ ty, typeArgument = some ty → ty.kind.isType = true) ∧
      edit = ⟨m.document, Tag.of add,
        NodeChange.replaceWith (createCallee (createReceiver receiver) typeArgument)⟩ := by
  obtain ⟨found, hfound, hrest⟩ := bind_eq_ok_iff.mp hedit
  obtain rfl : element = found := by
    rw [h.element_eq] at hfound
    exact Except.ok.inj hfound
  obtain ⟨typeArgument, htypeArgument, hmade⟩ := bind_eq_ok_iff.mp hrest
  refine ⟨typeArgument, htypeArgument, ?_, (pure_eq_ok_iff.mp hmade).symm⟩
  rintro ty rfl
  rw [createArgument] at htypeArgument
  split at htypeArgument
  · cases htypeArgument
  · dsimp only at htypeArgument
    split at htypeArgument
    · next tree htree =>
      obtain rfl := Option.some.inj (Except.ok.inj htypeArgument)
      exact (exists_of_parseType htree).1
    · cases htypeArgument

/-- What applying the fix of a reported call does to its document. -/
theorem Reported.applyFix_eq_ok {project next : Project} {doc : Document}
    (hdoc : doc ∈ project.documents) {call add empty receiver argument : Cursor} {element : Ty}
    (hcall : call ∈ doc.root.nodes)
    (h : Reported ⟨.ofProject project, doc.id⟩ call add empty receiver argument element)
    {fix : Fix} {cancelled : Bool} (hid : fix.diagnostic.document = doc.id)
    (hspan : fix.diagnostic.span = call.span) (hnext : applyFix project fix cancelled = .ok next) :
    ∃ value typeArgument, FixTarget.find doc.root call.span = .ok ⟨call, add, receiver, value⟩ ∧
      createArgument ⟨.ofProject project, doc.id⟩ ⟨call, add, receiver, value⟩ element =
        .ok typeArgument ∧
      (∀ ty, typeArgument = some ty → ty.kind.isType = true) ∧
      next.document? doc.id = some (doc.withText (doc.parsed.tree.replaceAt add.path
        (createCallee (createReceiver receiver) typeArgument).tree).text) := by
  obtain ⟨-, -, hnext⟩ := bind_eq_ok_iff.mp hnext
  obtain ⟨found, hfound, hnext⟩ := bind_eq_ok_iff.mp hnext
  obtain rfl : doc = found := by
    rw [hid, documentOf_of_mem hdoc] at hfound
    exact Except.ok.inj hfound
  obtain ⟨target, htarget, hrest⟩ := bind_eq_ok_iff.mp hnext
  obtain ⟨edit, hedit, hmade⟩ := bind_eq_ok_iff.mp hrest
  rw [hspan] at htarget hedit
  rw [hid] at hedit
  have hfind : FixTarget.find doc.root call.span = _ := h.find_eq (isFile_tree doc) hcall
  cases hvalue : argument.expression? with
  | none =>
      rw [hfind, hvalue] at htarget
      cases htarget
  | some value =>
      rw [hvalue] at hfind
      obtain rfl := Except.ok.inj (hfind.symm.trans htarget)
      obtain ⟨typeArgument, htypeArgument, htype, rfl⟩ := h.fixEdit_eq_ok hedit
      refine ⟨value, typeArgument, hfind, htypeArgument, htype, ?_⟩
      have hedits : applyEdits project [⟨doc.id, Tag.of add, NodeChange.replaceWith
          (createCallee (createReceiver receiver) typeArgument)⟩] cancelled = .ok next := by
        cases happly : applyEdits project _ cancelled with
        | error e => simp [happly, Except.mapError] at hmade
        | ok made => simpa [happly, Except.mapError] using hmade
      obtain ⟨new, hnew, hcases⟩ := exists_left_of_mem (applyEdits_eq_ok hedits).2.flip hdoc
      rcases hcases with ⟨hnone, -⟩ | ⟨-, root, hroot, rfl⟩
      · simp [Edit.ofDocument] at hnone
      · rw [Edit.ofDocument, List.filter_cons_of_pos (by simp), List.filter_nil,
          Edit.applyToTree_replaceWith (h.add_mem_nodes hcall)] at hroot
        obtain rfl := Except.ok.inj hroot
        exact Project.document?_of_mem hnew

/-- With another callee in the place of `X.Empty.Add` a reported call creates an array from the
argument that it had. -/
theorem Reported.exists_createCall {m : Model} {t : Tree} {call add empty receiver argument : Cursor}
    {element : Ty} (h : Reported m call add empty receiver argument element)
    (hcall : Below (.root t) call) {typeArgument : Option Node}
    (htype : ∀ ty, typeArgument = some ty → ty.kind.isType = true) :
    ∃ call' receiver' name written? argument',
      Below (.root (t.replaceAt add.path
        (createCallee (createReceiver receiver) typeArgument).tree)) call' ∧
      call'.start = call.start ∧ Model.CreateCall call' receiver' name written? argument' ∧
      receiver'.text = ".".intercalate (createReceiver receiver) ∧
      written?.map focus = typeArgument.map Node.tree ∧ argument'.focus = argument.focus := by
  have hexpression := (emptyAdd?_eq_some h.accesses).1
  have hpath : add.path = call.path ++ [add.index] := by
    obtain ⟨i, t, -, rfl⟩ := mem_elements_iff.mp
      (mem_elements_of_mem_children (mem_children_of_childOf? hexpression).1)
    rfl
  obtain ⟨call', hcall', hstart, hfocus⟩ := @exists_replaced t
    (createCallee (createReceiver receiver) typeArgument).tree call hcall add.path [add.index] hpath
  obtain ⟨hkind, ⟨callee, hcallee, hcalleeFocus⟩, harguments⟩ :=
    parts_of_replaced hexpression (by rw [createReceiver]; split <;> rfl) hfocus
  obtain ⟨hcalleeKind, receiver', name, hreceiver, htext, hname, hcreate, htypes⟩ :=
    parts_createCallee htype hcalleeFocus
  rw [h.arguments] at harguments
  obtain ⟨argument', hargument, hargumentFocus⟩ := List.map_eq_singleton_iff.mp harguments
  obtain ⟨written?, hwritten, hwrittenFocus⟩ := exists_written htypes
  exact ⟨call', receiver', name, written?, argument', hcall', hstart,
    ⟨hkind.trans h.kind, ⟨callee, hcallee, hcalleeKind, hreceiver, hname⟩, hcreate, hwritten,
      hargument⟩, htext, hwrittenFocus, hargumentFocus⟩

/-- The parts of a fix: the document, the call, the element type and the type argument. -/
def fixParts? (project : Project) (d : Diagnostic) :
    Option (Document × FixTarget × Ty × Option Node) := do
  let doc ← project.document? d.document
  let target ← (FixTarget.find doc.root d.span).toOption
  let element ← arrayElement? ⟨.ofProject project, doc.id⟩ target.receiver
  let typeArgument ← (createArgument ⟨.ofProject project, doc.id⟩ target element).toOption
  return (doc, target, element, typeArgument)

/-- Whether a call names the factory without a type argument, and has one argument of a
type and without a name. -/
def createsInferred (m : Model) (element : Ty) (call : Cursor) : Bool :=
  (call.expression?.bind Cursor.expression?).any (fun receiver =>
    (m.asked call 2).symbolOf receiver == some (.type (.plain Framework.arrayClass))) &&
  (call.expression?.bind Cursor.accessedName?).any (fun name => name.typeArgumentList?.isNone) &&
  call.arguments.all fun argument => argument.argumentName? == none &&
    Model.argumentShape (m.asked call 1) argument == .typed element

/-- The types of the calls in a project, with their starts. -/
def callTypes (project : Project) : List (Nat × Option Ty) :=
  project.documents.flatMap fun doc =>
    (doc.root.nodes.filter (·.kind == .invocationExpression)).map fun c =>
      (c.start, (Model.mk (.ofProject project) doc.id).typeOf? c)

/-- A project that adds `null` to the empty array. -/
def nullAddProject : Project :=
  Project.empty.append (Document.read 0 "array.cs"
    "using System.Collections.Immutable; class C { object F = ImmutableArray<string>.Empty.Add(null); }"
    0) rfl

/-- What is reported of the project. -/
def nullAddDiagnostic : Diagnostic :=
  ⟨.error, badArrayCreation.code, badArrayCreation.message, 0, ⟨57, 38⟩⟩

end Assist

end CSharpKit
