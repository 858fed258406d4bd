import CSharpKit.Proofs.Semantics.Arguments
import CSharpKit.Proofs.Semantics.StatedTypes

/-!
# Variables declared in arguments

An argument passes a value, or it declares a variable behind `out`. The expression of an
argument is its first child that may stand as an expression. For a value that is the value; for
a declaration there should be none, but some types may stand as expressions as well, and such
a type is given for the parameter as if it were passed to it.
-/

namespace CSharpKit.Syntax.Cursor

open Workspace

/-- The name of a named argument, or nothing. -/
def IsNaming (front : List Cursor) : Prop :=
  front = [] ∨ ∃ n : Cursor, front = [n] ∧ n.isNode = true ∧ n.kind = .nameColon

/-- An argument that declares a variable of a type behind `out`. -/
def Declares (argument type : Cursor) : Prop :=
  ∃ (front : List Cursor) (out name : Cursor), IsNaming front ∧
    argument.parts = front ++ [out, type, name] ∧ out.isNode = false ∧ out.kind = .outKw ∧
    type.isNode = true ∧ type.kind.isType = true ∧ name.isNode = false

/-- An argument that passes a value, behind a keyword if one is written. -/
def Gives (argument value : Cursor) : Prop :=
  ∃ front passing : List Cursor, IsNaming front ∧
    (passing = [] ∨ ∃ keyword : Cursor, passing = [keyword] ∧ keyword.isNode = false) ∧
    argument.parts = front ++ (passing ++ [value]) ∧
    value.isNode = true ∧ value.kind.isExpr = true

variable {doc : Document} {argument type value : Cursor}

/-- The expression of a node is the first of its parts that may stand as one. -/
theorem expression?_eq_find?_parts (c : Cursor) :
    c.expression? = c.parts.find? fun e => e.isNode && e.kind.isExpr := by
  simp only [expression?, childOf?, children_eq_filter_parts, List.find?_filter, Bool.decide_and,
    Bool.decide_eq_true]

/-- The name of an argument is no expression. -/
theorem find?_naming {front : List Cursor} (h : IsNaming front) :
    front.find? (fun e => e.isNode && e.kind.isExpr) = none := by
  rcases h with rfl | ⟨n, rfl, -, hkind⟩
  · rfl
  · simp [hkind, Kind.isExpr]

theorem Declares.expression?_eq (h : Declares argument type) :
    argument.expression? = if type.kind.isExpr then some type else none := by
  obtain ⟨front, out, name, hfront, hparts, hout, -, htype, -, hname⟩ := h
  rw [expression?_eq_find?_parts, hparts, List.find?_append, find?_naming hfront, Option.none_or]
  by_cases hexpr : type.kind.isExpr = true
  · simp [hout, htype, hexpr]
  · simp [hout, hexpr, hname]

theorem Gives.expression?_eq (h : Gives argument value) : argument.expression? = some value := by
  obtain ⟨front, passing, hfront, hpassing, hparts, hvalue, hexpr⟩ := h
  rw [expression?_eq_find?_parts, hparts, List.find?_append, find?_naming hfront, Option.none_or]
  rcases hpassing with rfl | ⟨keyword, rfl, hkeyword⟩
  · simp [hvalue, hexpr]
  · simp [hkeyword, hvalue, hexpr]

/-- An argument that declares a variable passes no value. -/
theorem Declares.not_gives (h : Declares argument type) (value : Cursor) : ¬Gives argument value := by
  rintro ⟨front, passing, -, -, hparts, hvalue, -⟩
  obtain ⟨front', out, name, -, hparts', -, -, -, -, hname⟩ := h
  have hlast := congrArg List.getLast? (hparts.symm.trans hparts')
  simp only [List.getLast?_append, List.getLast?_cons_cons, List.getLast?_singleton, Option.some_or,
    Option.some.injEq] at hlast
  rw [hlast, hname] at hvalue
  cases hvalue

/-- In a document without a complaint an argument declares a variable or passes a value. -/
theorem declares_or_gives (hclean : doc.errors = []) (hc : argument ∈ doc.root.nodes)
    (hkind : argument.kind = .argument) :
    (∃ type, Declares argument type) ∨ ∃ value, Gives argument value := by
  have hform := form_parts hclean hc
  rw [hkind] at hform
  obtain ⟨front, rest, hparts, hnaming, hform⟩ := Layout.exists_of_andThen hform
  have hfront : IsNaming front := by
    rcases Layout.eq_nil_or_of_opt hnaming with hnil | hnode
    · exact .inl hnil
    · obtain ⟨n, hn, hnode, hkind⟩ := Layout.exists_of_node hnode
      exact .inr ⟨n, hn, hnode, eq_of_beq hkind⟩
  rcases hform with hdeclares | hgives
  · obtain ⟨_, _, rfl, hout, hform⟩ := Layout.exists_of_andThen hdeclares
    obtain ⟨_, _, rfl, htype, hname⟩ := Layout.exists_of_andThen hform
    obtain ⟨out, rfl, hout, hword⟩ := Layout.exists_of_token hout
    obtain ⟨type, rfl, hnode, htype⟩ := Layout.exists_of_node htype
    obtain ⟨name, rfl, hname, -⟩ := Layout.exists_of_token hname
    exact .inl ⟨type, front, out, name, hfront, hparts, hout, eq_of_beq hword, hnode, htype, hname⟩
  · obtain ⟨passing, _, rfl, hpassing, hvalue⟩ := Layout.exists_of_andThen hgives
    obtain ⟨value, rfl, hnode, hexpr⟩ := Layout.exists_of_node hvalue
    refine .inr ⟨value, front, passing, hfront, ?_, hparts, hnode, hexpr⟩
    rcases Layout.eq_nil_or_of_opt hpassing with rfl | hpassing
    · exact .inl rfl
    · obtain ⟨keyword, rfl, hkeyword, -⟩ := Layout.exists_of_token hpassing
      exact .inr ⟨keyword, rfl, hkeyword⟩

end CSharpKit.Syntax.Cursor

namespace CSharpKit.Semantics.Model

open Syntax Cursor Workspace

variable {m : Model} {call e : Cursor} {method : MethodId} {ordinal : Nat}

/-- What a call gives for a parameter is the value that it is called on, or the expression of
one of its arguments. -/
theorem exists_argument_of_argumentFor? (h : m.argumentFor? call method ordinal = some e) :
    reducedReceiver? call = some e ∨ ∃ argument ∈ call.arguments, argument.expression? = some e := by
  rcases argumentFor?_cases h with ⟨-, -, hreceiver⟩ | ⟨_, _, argument, _, -, hmem, -, -, -, he⟩
  · exact .inl hreceiver
  · exact .inr ⟨argument, List.mem_of_getElem? hmem, he⟩

theorem mem_nodes_of_mem_arguments {doc : Document} {argument : Cursor}
    (hcall : call ∈ doc.root.nodes) (h : argument ∈ call.arguments) :
    argument ∈ doc.root.nodes ∧ argument.kind = .argument := by
  obtain ⟨list, hlist, hmem, hkind⟩ := mem_of_mem_arguments h
  have hbelow := ((below_of_mem_nodes hcall).trans (below_of_mem_children hlist)).trans
    (below_of_mem_children hmem)
  exact ⟨hbelow.mem_nodes (isNode_of_mem_children hmem), hkind⟩

/-- **Expressions of arguments.** In a document without a complaint an argument passes a value,
and this is its expression, or it declares a variable behind `out`. Then it has no expression,
unless its type may stand as one: this type is its expression. So what a call gives for a
parameter is the value that it is called on, a value that is passed, or such a type. -/
theorem expression?_of_argument (m : Model) (doc : Document) (hclean : doc.errors = []) :
    (∀ argument ∈ doc.root.nodes, argument.kind = .argument →
      (∃ type, Declares argument type ∧
        argument.expression? = if type.kind.isExpr then some type else none) ∨
      ∃ value, Gives argument value ∧ argument.expression? = some value) ∧
    ∀ call ∈ doc.root.nodes, ∀ (method : MethodId) (ordinal : Nat) (e : Cursor),
      m.argumentFor? call method ordinal = some e →
        reducedReceiver? call = some e ∨ ∃ argument ∈ call.arguments,
          Gives argument e ∨ Declares argument e ∧ e.kind.isExpr = true := by
  constructor
  · intro argument hc hkind
    rcases declares_or_gives hclean hc hkind with ⟨type, htype⟩ | ⟨value, hvalue⟩
    · exact .inl ⟨type, htype, htype.expression?_eq⟩
    · exact .inr ⟨value, hvalue, hvalue.expression?_eq⟩
  · intro call hcall method ordinal e hgiven
    rcases exists_argument_of_argumentFor? hgiven with hreceiver | ⟨argument, hmem, he⟩
    · exact .inl hreceiver
    refine .inr ⟨argument, hmem, ?_⟩
    obtain ⟨hc, hkind⟩ := mem_nodes_of_mem_arguments hcall hmem
    rcases declares_or_gives hclean hc hkind with ⟨type, htype⟩ | ⟨value, hvalue⟩
    · rw [htype.expression?_eq] at he
      split at he
      · next hexpr =>
        obtain rfl := Option.some.inj he
        exact .inr ⟨htype, hexpr⟩
      · cases he
    · rw [hvalue.expression?_eq] at he
      obtain rfl := Option.some.inj he
      exact .inl hvalue

/-- A project with one document, whose only call declares an `int` in its argument. -/
def outProject : Project :=
  Project.empty.append (Document.read 0 "out.cs"
    "class C \x7b void M(out int a) \x7b a = 1; \x7d void N() \x7b M(out int b); \x7d \x7d" 0) rfl

theorem call_outProject : ∃ doc ∈ outProject.documents, doc.errors = [] ∧
    ∃ call ∈ doc.root.nodes, ∃ argument type : Cursor, call.arguments = [argument] ∧
      Declares argument type ∧ type.kind = .predefinedType ∧
      ((ofFirst outProject).argumentFor? call ⟨49⟩ 0).isSome = true ∧
      reducedReceiver? call = none := by
  have hcalls : outProject.quick.documents.map Document.errors = [[]] ∧
      ((callsIn outProject.quick).map fun call =>
        (call.arguments.map fun argument => argument.parts.map fun e => (e.isNode, e.kind),
          ((ofFirst outProject.quick).argumentFor? call ⟨49⟩ 0).isSome,
          (reducedReceiver? call).isNone)) =
        [([[(false, .outKw), (true, .predefinedType), (false, .identifier)]], true, true)] := by
    decide +kernel
  rw [Project.quick_eq] at hcalls
  obtain ⟨hclean, hcalls⟩ := hcalls
  obtain ⟨call, rest, hcall, hfacts, -⟩ := List.map_eq_cons_iff.mp hcalls
  simp only [Prod.mk.injEq, Option.isNone_iff_eq_none] at hfacts
  obtain ⟨harguments, hgiven, hreceiver⟩ := hfacts
  obtain ⟨argument, none, hargument, hparts, hnone⟩ := List.map_eq_cons_iff.mp harguments
  obtain rfl := List.map_eq_nil_iff.mp hnone
  obtain ⟨out, _, hrow, hout, hparts⟩ := List.map_eq_cons_iff.mp hparts
  obtain ⟨type, _, rfl, htype, hparts⟩ := List.map_eq_cons_iff.mp hparts
  obtain ⟨name, none, rfl, hname, hnone⟩ := List.map_eq_cons_iff.mp hparts
  obtain rfl := List.map_eq_nil_iff.mp hnone
  simp only [Prod.mk.injEq] at hout htype hname
  have hdeclares : Declares argument type :=
    ⟨[], out, name, .inl rfl, hrow, hout.1, hout.2, htype.1, by rw [htype.2]; rfl, hname.1⟩
  have hmem : call ∈ callsIn outProject := by simp [hcall]
  obtain ⟨doc, hdoc, hmem, -⟩ := exists_doc_of_mem_callsIn hmem
  have hdoc' : doc.errors ∈ [[]] := hclean ▸ List.mem_map_of_mem hdoc
  exact ⟨doc, hdoc, List.mem_singleton.mp hdoc', call, hmem, argument, type, hargument, hdeclares,
    htype.2, hgiven, hreceiver⟩

theorem expression?_of_argument_out : ∃ doc ∈ outProject.documents, doc.errors = [] ∧
    ∃ call ∈ doc.root.nodes, ∃ e, (ofFirst outProject).argumentFor? call ⟨49⟩ 0 = some e ∧
      ∃ argument ∈ call.arguments, Gives argument e ∨ Declares argument e ∧ e.kind.isExpr = true := by
  obtain ⟨doc, hdoc, hclean, call, hcall, _, _, -, -, -, hgiven, hreceiver⟩ := call_outProject
  obtain ⟨e, he⟩ := Option.isSome_iff_exists.mp hgiven
  obtain ⟨-, hfor⟩ := expression?_of_argument (ofFirst outProject) doc hclean
  rcases hfor call hcall ⟨49⟩ 0 e he with hreduced | hargument
  · rw [hreceiver] at hreduced
    cases hreduced
  · exact ⟨doc, hdoc, hclean, call, hcall, e, he, hargument⟩

/-- The `int` that is written in the declaration is the expression of the argument, and it is
given for the parameter. -/
theorem argumentFor?_declared : ∃ doc ∈ outProject.documents, doc.errors = [] ∧
    ∃ call ∈ doc.root.nodes, ∃ argument ∈ call.arguments, ∃ type, Declares argument type ∧
      argument.expression? = some type ∧
      (ofFirst outProject).argumentFor? call ⟨49⟩ 0 = some type := by
  obtain ⟨doc, hdoc, hclean, call, hcall, argument, type, harguments, hdeclares, hkind, hgiven,
    hreceiver⟩ := call_outProject
  obtain ⟨e, he⟩ := Option.isSome_iff_exists.mp hgiven
  have htype : argument.expression? = some type := by
    rw [hdeclares.expression?_eq, hkind]
    rfl
  refine ⟨doc, hdoc, hclean, call, hcall, argument, by simp [harguments], type, hdeclares, htype, ?_⟩
  rcases exists_argument_of_argumentFor? he with hreduced | ⟨given, hmem, hexpression⟩
  · rw [hreceiver] at hreduced
    cases hreduced
  · rw [harguments, List.mem_singleton] at hmem
    rw [he, ← hexpression, hmem, htype]

end CSharpKit.Semantics.Model
