import CSharpKit.Proofs.Refactor.Rereading
import CSharpKit.Proofs.Syntax.Writing

/-!
# What an offer declares, and what its names mean

The delegate of an offer is declared with the parameters of its shape, whose types
are written as they mean the same at the method. Where another document names the
delegate, the type it is declared in is written as it means that type there. But a
spelling is looked for in the project as it was, and it need not exist: what stands
in its place may mean nothing when the new texts are read.
-/

namespace CSharpKit.Refactor

open Syntax Text Workspace Semantics Cursor Outcome Declare Token

/-! ## The declaration -/

/-- An element is what the spelling of a type at a place is read as. -/
def IsWritten (m : Model) (place : Cursor) (ty : Ty) (c : Cursor) : Prop :=
  ∃ node, parseType (m.spelling ty place) = .ok node ∧ c.focus = node.tree

/-- The node of what a call returns: a type as it is written at a place, or `void`. -/
def IsResult (m : Model) (place : Cursor) (ty? : Option Ty) (node : Node) : Prop :=
  match ty? with
  | some ty => parseType (m.spelling ty place) = .ok node
  | none => node = Build.voidType

/-- A node that declares a delegate of a shape, with types as they are written at a
place. -/
structure DeclaresShape (m : Model) (place : Cursor) (shape : DelegateShape) (name : String)
    (c : Cursor) : Prop where
  kind : c.kind = .delegateDeclaration
  name_eq : c.name? = some name
  result : ∃ written node, c.type? = some written ∧ IsResult m place shape.returnTy? node ∧
    written.focus = node.tree
  parameters : List.Forall₂ (fun p param => param.name? = some p.name ∧
    ∃ written, param.type? = some written ∧ IsWritten m place p.ty written)
    shape.parameters c.parameters

theorem IsResult.isType {m : Model} {place : Cursor} {ty? : Option Ty} {node : Node}
    (h : IsResult m place ty? node) : node.kind.isType = true := by
  cases ty? with
  | some ty => exact (exists_of_parseType h).1
  | none =>
      obtain rfl : node = Build.voidType := h
      rfl

/-- The parameters that a built list has. -/
theorem focus_listedParameters {c : Cursor} {params : Forest}
    (hc : c.focus = (Build.parameterList params).tree)
    (hparams : ∀ t ∈ params, (t.isNode && t.kind == .parameter) = true) :
    c.listedParameters.map Cursor.focus = params := by
  have hchildren : c.focus.children =
      .token .lParen "(" :: Build.commaSeparated params ++ [.token .rParen ")"] := by
    rw [hc]
    rfl
  rw [listedParameters, childrenOfKind, map_focus_childrenOf, hchildren, List.filter_append,
    List.filter_cons_of_neg (by decide), filter_commaSeparated hparams rfl rfl,
    List.filter_cons_of_neg (by decide), List.filter_nil, List.append_nil]

theorem typeSyntax_eq_ok {m : Model} {ty : Ty} {place : Cursor} {node : Node}
    (h : typeSyntax m ty place = .ok node) : parseType (m.spelling ty place) = .ok node := by
  unfold typeSyntax at h
  cases hparse : parseType (m.spelling ty place) with
  | error errors => simp [hparse, Except.mapError] at h
  | ok found => simpa [hparse, Except.mapError] using h

/-- A built parameter has its name and its type. -/
theorem parts_parameter {c : Cursor} {type : Node} {name : String} (htype : type.kind.isType = true)
    (hc : c.focus = (Build.parameter type.tree name).tree) :
    c.name? = some name ∧ ∃ written, c.type? = some written ∧ written.focus = type.tree := by
  have hchildren : c.focus.children = [type.tree, Build.space, .token .identifier name] := by
    rw [hc]
    rfl
  rw [name?_eq_find?, type?_eq_find?, elements, hchildren]
  constructor
  · simp [row, Cursor.isNode, Cursor.kind, Cursor.text, Cursor.focus, Node.tree, Tree.isNode,
      Tree.kind, Tree.text, Tree.leaves, Build.space]
  · simp [row, Cursor.isNode, Cursor.kind, Cursor.focus, Node.tree, Tree.isNode, Tree.kind, htype]

/-- A built declaration has its name, its types and its parameters. -/
theorem parts_delegateDeclaration {c : Cursor} {type : Node} {name : String} {params : Forest}
    (htype : type.kind.isType = true)
    (hc : c.focus = (Build.delegateDeclaration type.tree name params).tree) :
    c.name? = some name ∧ (∃ written, c.type? = some written ∧ written.focus = type.tree) ∧
      ∃ list, c.parameterList? = some list ∧ list.focus = (Build.parameterList params).tree := by
  have hchildren : c.focus.children = [.node .modifiers [.token .publicKw "public"], Build.space,
      .token .delegateKw "delegate", Build.space, type.tree, Build.space, .token .identifier name,
      (Build.parameterList params).tree, .token .semicolon ";"] := by
    rw [hc]
    rfl
  rw [name?_eq_find?, type?_eq_find?, parameterList?, child?, childOf?, children,
    List.find?_filter, elements, hchildren]
  refine ⟨?_, ?_, ?_⟩
  · simp [row, Cursor.isNode, Cursor.kind, Cursor.text, Cursor.focus, Node.tree, Tree.isNode,
      Tree.kind, Tree.text, Tree.leaves, Build.space, Build.parameterList]
  · have hmodifiers : Kind.modifiers.isType = false := rfl
    simp [row, Cursor.isNode, Cursor.kind, Cursor.focus, Node.tree, Tree.isNode, Tree.kind, htype,
      Build.space, hmodifiers]
  · have hne : type.kind ≠ .parameterList := by
      intro heq
      simp [heq, Kind.isType] at htype
    simp [row, Cursor.isNode, Cursor.kind, Cursor.focus, Node.tree, Tree.isNode, Tree.kind, hne,
      Build.space, Build.parameterList]

/-- The tree of a parameter that is built for one of a shape. -/
def IsBuilt (m : Model) (place : Cursor) (p : DelegateParameter) (t : Tree) : Prop :=
  ∃ node, parseType (m.spelling p.ty place) = .ok node ∧
    t = (Build.parameter node.tree p.name).tree

theorem isBuilt_of_mapM {m : Model} {place : Cursor} {ps : List DelegateParameter}
    {params : Forest} (h : (ps.mapM fun p => do
      return (Build.parameter (← typeSyntax m p.ty place) p.name).tree) = .ok params) :
    List.Forall₂ (IsBuilt m place) ps params := by
  apply (mapM_eq_ok_iff.mp h).imp
  intro p t ht
  obtain ⟨node, hnode, ht⟩ := bind_eq_ok_iff.mp ht
  exact ⟨node, typeSyntax_eq_ok hnode, (Except.ok.inj ht).symm⟩

/-- The types of a declaration are read from spellings, one for each of the shape. -/
theorem delegateDeclaration_eq_ok {m : Model} {shape : DelegateShape} {name : String}
    {place : Cursor} {declaration : Node}
    (h : delegateDeclaration m shape name place = .ok declaration) :
    ∃ type params, IsResult m place shape.returnTy? type ∧
      List.Forall₂ (IsBuilt m place) shape.parameters params ∧
      declaration = Build.delegateDeclaration type name params := by
  unfold delegateDeclaration at h
  dsimp only at h
  cases hty : shape.returnTy? with
  | some ty =>
      rw [hty] at h
      obtain ⟨type, htype, h⟩ := bind_eq_ok_iff.mp h
      obtain ⟨params, hparams, h⟩ := bind_eq_ok_iff.mp h
      exact ⟨type, params, typeSyntax_eq_ok htype, isBuilt_of_mapM hparams,
        (Except.ok.inj h).symm⟩
  | none =>
      rw [hty] at h
      obtain ⟨type, htype, h⟩ := bind_eq_ok_iff.mp h
      obtain rfl := Except.ok.inj htype
      obtain ⟨params, hparams, h⟩ := bind_eq_ok_iff.mp h
      exact ⟨Build.voidType, params, rfl, isBuilt_of_mapM hparams, (Except.ok.inj h).symm⟩

/-- The declaration of a delegate has what its shape says, in the same order. -/
theorem declaresShape_of_focus {m : Model} {shape : DelegateShape} {name : String} {place c : Cursor}
    {declaration : Node} (h : delegateDeclaration m shape name place = .ok declaration)
    (hc : c.focus = declaration.tree) : DeclaresShape m place shape name c := by
  obtain ⟨type, params, hresult, hparams, rfl⟩ := delegateDeclaration_eq_ok h
  obtain ⟨hname, ⟨written, hwritten, hfocus⟩, list, hlist, hlistFocus⟩ :=
    parts_delegateDeclaration hresult.isType hc
  have hmap : c.parameters.map Cursor.focus = params := by
    rw [parameters, hlist]
    apply focus_listedParameters hlistFocus
    intro t ht
    obtain ⟨p, -, node, -, rfl⟩ := exists_left_of_mem hparams ht
    rfl
  constructor
  · rw [Cursor.kind, hc]
    rfl
  · exact hname
  · exact ⟨written, type, hwritten, hresult, hfocus⟩
  · rw [← hmap] at hparams
    apply (List.forall₂_map_right_iff.mp hparams).imp
    rintro p param ⟨node, hnode, hparam⟩
    obtain ⟨hparamName, w, hw, hwFocus⟩ := parts_parameter (exists_of_parseType hnode).1 hparam
    exact ⟨hparamName, w, hw, node, hnode, hwFocus⟩

/-- The delegates that the documents of a project declare: their names, and what a
call of them takes and returns. -/
def declaredDelegates (project : Project) : List (String × List (String × Ty) × Ty) :=
  let s := SymbolTable.ofProject project
  (s.methods.toList.filter fun m => m.kind == .invoke && m.origin?.isSome).map fun m =>
    (s.fullName m.owner, m.params.map fun p => (p.name, p.ty), m.returnTy)

/-- A project where a type argument is a type inside a generic one. -/
def nestedProject : Project :=
  Project.empty.append (Document.read 0 "nested.cs"
    "using System; class O<T> { public class I { } } class C { void M(Action<O<int>.I> f) { } }" 0) rfl

/-- How a type definition is written in a scope: by its keyword, by the first of the
candidates that means it there, or, if none of them does, from the global namespace. -/
inductive Spelled (scope : Scope) (d : TypeId) : String → Prop
  | keyword {k : Kind} (h : (scope.table.type d).keyword? = some k) : Spelled scope d k.keywordText
  | shortest {text : String} {shorter longer : List String}
      (hcandidates : Scope.candidates (scope.table.qualifiers d) (scope.table.type d).name =
        shorter ++ text :: longer)
      (hbinds : scope.bindsTo text (.plain d) = true)
      (hshorter : ∀ t ∈ shorter, scope.bindsTo t (.plain d) = false) : Spelled scope d text
  | qualified (h : ∀ t ∈ Scope.candidates (scope.table.qualifiers d) (scope.table.type d).name,
        scope.bindsTo t (.plain d) = false) :
      Spelled scope d ("global::" ++
        ".".intercalate (scope.table.qualifiers d ++ [(scope.table.type d).name]))

theorem spelled_spelling (scope : Scope) (d : TypeId) :
    Spelled scope d (scope.spelling (.plain d)) := by
  have hspelling : scope.spelling (.plain d) = scope.spellNamed d [] [] := rfl
  rw [hspelling, Scope.spellNamed]
  dsimp only
  split
  · next k hk => exact .keyword hk
  · have hname : withArguments (scope.table.type d).name [] = (scope.table.type d).name := rfl
    rw [hname]
    split
    · next text hfound =>
      obtain ⟨hbinds, shorter, longer, hcandidates, hshorter⟩ := List.find?_eq_some_iff_append.mp hfound
      refine .shortest hcandidates hbinds fun t ht => ?_
      have hnot := hshorter t ht
      rw [Bool.not_eq_true'] at hnot
      exact hnot
    · next hnone =>
      refine .qualified fun t ht => ?_
      have hnot := List.find?_eq_none.mp hnone t ht
      rw [Bool.not_eq_true] at hnot
      exact hnot

/-- The methods of a project with the types of their parameters. -/
def declaredMethods (project : Project) : List (String × List Ty) :=
  let s := SymbolTable.ofProject project
  (s.methods.toList.filter fun m => m.kind == .ordinary && m.origin?.isSome).map fun m =>
    (m.name, m.params.map (·.ty))

/-- A project where the caller in another document names a generic type. -/
def genericProject : Project :=
  (Project.empty.append (Document.read 0 "callee.cs"
    "using System; class C<T> { public static void M(Action<int> f) { } }" 0) rfl).append
    (Document.read 1 "caller.cs"
      "using System; class D { void N(Action<int> g) { C<int>.M(g); } }" 0) rfl

end CSharpKit.Refactor
