import CSharpKit.Proofs.Semantics.Arguments
import CSharpKit.Proofs.Semantics.Names
import Mathlib.Data.List.Nodup

/-!
# Callers are found by name

Only documents and calls that write the name of a method are looked at for its
callers. A name in an expression finds only methods of that name, and a name
that is written stands in the text, so no caller is passed over.
-/

namespace CSharpKit

open Syntax Cursor Workspace

/-! ## Names in the text -/

namespace Text

/-- A pattern occurs in a text that has it between two others. -/
theorem occursIn_append (before pattern behind : List Char) :
    occursIn pattern (before ++ pattern ++ behind) = true := by
  induction before with
  | nil =>
      cases hcs : pattern ++ behind with
      | nil => simp_all [occursIn]
      | cons c cs =>
          have hprefix : pattern <+: c :: cs := ⟨behind, hcs⟩
          simp [hcs, occursIn, hprefix]
  | cons c before ih => simp only [List.cons_append, occursIn, ih, Bool.or_true]

end Text

/-- A leaf of a tree stands in its text. -/
theorem Syntax.Tree.occursIn_text {t : Tree} {leaf : Kind × String} (h : leaf ∈ t.leaves) :
    Text.occursIn leaf.2.toList t.text.toList = true := by
  obtain ⟨before, behind, heq⟩ := List.append_of_mem h
  rw [Tree.text, heq, List.map_append, List.map_cons, String.toList_join, List.flatMap_append,
    List.flatMap_cons, ← List.append_assoc]
  exact Text.occursIn_append _ _ _

/-- The name that a node of a document writes stands in the document. -/
theorem Workspace.Document.occursIn_name {doc : Document} {c : Cursor} {name : String}
    (hc : Below doc.root c) (h : c.name? = some name) :
    Text.occursIn name.toList doc.text.toList = true := by
  obtain ⟨token, htoken, rfl⟩ := Option.map_eq_some_iff.mp h
  obtain ⟨helement, hisToken⟩ := List.mem_filter.mp (List.mem_of_find?_eq_some htoken)
  have hleaf : (token.kind, token.text) ∈ doc.root.focus.leaves := by
    refine (hc.element helement).leaves_subset ?_
    cases hfocus : token.focus with
    | node k cs => simp [Cursor.isNode, hfocus, Tree.isNode] at hisToken
    | token k s => simp [Cursor.kind, Cursor.text, hfocus, Tree.kind, Tree.text, Tree.leaves]
  have htext : doc.root.focus.text = doc.text := by
    show doc.parsed.tree.text = doc.text
    rw [doc.parsed_eq]
    exact (parse_lossless doc.text).2.2.2
  rw [← htext]
  exact Tree.occursIn_text hleaf

/-! ## Names of candidates -/

namespace Semantics

/-- The methods that a symbol stands for, if any, have a name. -/
def Symbol.CallsOnly (s : SymbolTable) (name : String) : Symbol → Prop
  | .methods candidates _ _ => ∀ id ∈ candidates, (s.method id).name = name
  | _ => True

namespace Model

variable {m : Model} {symbol : Symbol} {name : String}

theorem name_of_mem_methodsNamed {owner : TypeId} {arity : Nat} {id : MethodId}
    (h : id ∈ m.methodsNamed owner name arity) : (m.table.method id).name = name := by
  have hnamed := (List.mem_filter.mp h).2
  simp only [Bool.and_eq_true, beq_iff_eq] at hnamed
  exact hnamed.1

theorem MemberOf.callsOnly {at_ : Cursor} {ty : Ty} {arguments : List Cursor}
    (h : m.MemberOf at_ ty name arguments symbol) : symbol.CallsOnly m.table name := by
  cases h with
  | own h =>
      cases h with
      | field | property | nested => trivial
      | methods => exact fun id hid => name_of_mem_methodsNamed hid
  | extension ns =>
      intro id hid
      obtain ⟨t, -, hnamed⟩ := List.mem_flatMap.mp (List.mem_filter.mp hid).1
      exact name_of_mem_methodsNamed hnamed

/-- The methods that the expression of a call means have the name the call writes. -/
theorem calleeName?_of_symbolOfWith {q : Queries} {call e : Cursor} (he : call.expression? = some e)
    {candidates : List MethodId} {receiver? thisArgument? : Option Ty}
    (h : m.symbolOfWith q e = some (.methods candidates receiver? thisArgument?)) :
    ∃ name, calleeName? call = some name ∧ ∀ id ∈ candidates, (m.table.method id).name = name := by
  rcases (symbolOfWith_refers h).origin with ⟨meaning, hmeaning⟩ | ⟨_, -, hbound⟩ |
    ⟨written, _, _, name, _, hwritten, hname, hmember⟩
  · cases meaning <;> cases hmeaning
  · cases hbound
  · refine ⟨name, ?_, hmember.callsOnly⟩
    rcases hwritten with ⟨hkind, rfl⟩ | ⟨hkind, hwritten⟩
    · have hnot : e.unparenthesized.kind ≠ .memberAccessExpression := by
        intro heq
        simp [heq, Kind.isSimpleName] at hkind
      simp [calleeName?, calleeNode?, he, hnot, hkind, hname]
    · simp [calleeName?, calleeNode?, he, hkind, hwritten, hname]

/-- A call writes the name of the method it means. -/
theorem calleeName?_of_invokedMethod? {call : Cursor} {method : MethodId}
    (h : m.invokedMethod? call = some method) :
    calleeName? call = some (m.table.method method).name := by
  unfold invokedMethod? invokedMethodWith? at h
  split at h
  · next candidates receiver? thisArgument? hsymbol =>
    obtain ⟨e, he, hsymbol⟩ := Option.bind_eq_some_iff.mp hsymbol
    obtain ⟨name, hname, hcandidates⟩ := calleeName?_of_symbolOfWith he hsymbol
    obtain ⟨rank, hmem⟩ := Fit.mem_of_unique? h
    obtain ⟨candidate, hcandidate, hfit⟩ := List.mem_filterMap.mp hmem
    split at hfit
    · cases hfit
    · obtain ⟨fit, -, heq⟩ := Option.map_eq_some_iff.mp hfit
      obtain ⟨rfl, -⟩ := Prod.mk.inj heq
      rw [hname, hcandidates _ hcandidate]
  · cases h

end Model

/-! ## Callers -/

/-- The calls in a document that mean a method, looked at one by one. -/
def boundCalls (s : SymbolTable) (method : MethodId) (doc : Document) : List CallSite :=
  (doc.root.nodes.filter fun c =>
    c.kind == .invocationExpression && (Model.mk s doc.id).invokedMethod? c == some method).map
      fun c => ⟨doc.id, Pointer.of c⟩

/-- The name that a call calls is part of it. -/
theorem Model.below_of_calleeNode? {call node : Cursor} (h : calleeNode? call = some node) :
    Below call node := by
  obtain ⟨e, he, h⟩ := Option.bind_eq_some_iff.mp h
  have hbelow := (below_of_childOf? he).trans (below_unparenthesized e)
  simp only at h
  split at h
  · obtain ⟨receiver, -, hfind⟩ := Option.bind_eq_some_iff.mp h
    exact hbelow.trans (below_of_mem_children (List.mem_of_find?_eq_some hfind))
  · split at h
    · obtain rfl := Option.some.inj h
      exact hbelow
    · cases h

/-- What is not looked at closely does not mean the method. -/
theorem callersIn_eq (s : SymbolTable) (method : MethodId) (doc : Document) :
    callersIn s method doc = boundCalls s method doc := by
  unfold callersIn boundCalls
  by_cases hoccurs : Text.occursIn (s.method method).name.toList doc.text.toList = true
  · rw [if_pos hoccurs]
    congr 1
    refine List.filter_congr fun c _ => ?_
    by_cases hmeans : (Model.mk s doc.id).invokedMethod? c = some method
    · rw [Model.calleeName?_of_invokedMethod? hmeans, beq_self_eq_true, Bool.and_true]
    · rw [beq_eq_false_iff_ne.mpr hmeans, Bool.and_false, Bool.and_false]
  · rw [if_neg hoccurs]
    refine (List.map_eq_nil_iff.mpr (List.filter_eq_nil_iff.mpr ?_)).symm
    intro c hc hcall
    simp only [Bool.and_eq_true, beq_iff_eq] at hcall
    obtain ⟨node, hnode, hwritten⟩ := Option.bind_eq_some_iff.mp
      (Model.calleeName?_of_invokedMethod? hcall.2)
    have hbelow := (below_of_mem_nodes hc).trans (Model.below_of_calleeNode? hnode)
    exact hoccurs (doc.occursIn_name hbelow hwritten)

/-- The calls of a document are told apart by their pointers. -/
theorem nodup_boundCalls (s : SymbolTable) (method : MethodId) (doc : Document) :
    (boundCalls s method doc).Nodup := by
  refine List.Nodup.map_on ?_ (doc.root.nodup_nodes.filter _)
  intro c hc d hd heq
  obtain ⟨hc, hcall⟩ := List.mem_filter.mp hc
  obtain ⟨hd, hcall'⟩ := List.mem_filter.mp hd
  simp only [Bool.and_eq_true, beq_iff_eq] at hcall hcall'
  have resolves {e : Cursor} (he : e ∈ doc.root.nodes) (hkind : e.kind = .invocationExpression) :
      (Pointer.of e).resolve doc.root = .ok (some e) :=
    (isFile_tree doc).resolve_invocation (below_of_mem_nodes he) (List.mem_filter.mp he).2 hkind
  have hresolve := resolves hc hcall.1
  rw [(Origin.mk.inj heq).2, resolves hd hcall'.1] at hresolve
  exact (Option.some.inj (Except.ok.inj hresolve)).symm

theorem findCallers_eq (s : SymbolTable) (project : Project) (method : MethodId) :
    findCallers s project method false = .ok (project.documents.flatMap (callersIn s method)) := by
  have hmap : (project.documents.mapM fun doc => do
      checkpoint false
      return callersIn s method doc) = Except.ok (project.documents.map (callersIn s method)) :=
    List.mapM_pure
  rw [findCallers, hmap]
  rfl

/-- **Callers are complete.** What is found for a method, if the search is not
cancelled, are the calls that mean it, all of them and each one once: those of
each document from the top of its tree down, and the documents by their numbers.
Leaving out documents and calls that do not write the name loses none. -/
theorem findCallers_complete (project : Project) (method : MethodId) :
    ∃ calls, findCallers (.ofProject project) project method false = .ok calls ∧
      calls = project.documents.flatMap (boundCalls (.ofProject project) method) ∧
      (project.documents.map Document.id).Pairwise (· < ·) ∧ calls.Nodup := by
  refine ⟨_, findCallers_eq _ project method, ?_, project.ids_sorted, ?_⟩
  · simp only [funext (callersIn_eq _ method)]
  · simp only [funext (callersIn_eq _ method)]
    refine List.nodup_flatMap.mpr ⟨fun doc _ => nodup_boundCalls _ method doc, ?_⟩
    refine (List.pairwise_map.mp project.ids_sorted).imp ?_
    intro doc doc' hlt call hcall hcall'
    obtain ⟨c, -, rfl⟩ := List.mem_map.mp hcall
    obtain ⟨c', -, heq⟩ := List.mem_map.mp hcall'
    exact Nat.ne_of_gt hlt (Origin.mk.inj heq).1

end Semantics

end CSharpKit
