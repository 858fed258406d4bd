import CSharpKit.Semantics.Scope
import CSharpKit.Syntax.Parse

/-! # Written forms of symbols

A type has two spellings that can be read back: one with all qualifiers, and
the shortest one that means the same type at a given place. Labels are a third
form, which tells apart symbols that are spelled alike. -/

namespace CSharpKit.Semantics

open Syntax

/-- A name with type arguments behind it. -/
def withArguments (name : String) (arguments : List String) : String :=
  if arguments.isEmpty then name else name ++ "<" ++ ", ".intercalate arguments ++ ">"

/-- The brackets behind the element type of an array. -/
def rankBrackets (rank : Nat) : String :=
  "[" ++ String.ofList (List.replicate (rank - 1) ',') ++ "]"

/-- The spelling of a type, given that of its definition with spelled arguments. -/
def spellWith (named : TypeId → List Ty → List String → String) : Ty → String
  | .named d as => named d as (spellAll named as)
  | .param _ _ name => name
  | .array element rank => spellWith named element ++ rankBrackets rank
  | .nullable inner => spellWith named inner ++ "?"
  | .void => "void"
  | .null => "null"
  | .error text => text
where
  spellAll (named : TypeId → List Ty → List String → String) : List Ty → List String
    | [] => []
    | t :: ts => spellWith named t :: spellAll named ts

namespace SymbolTable

variable (s : SymbolTable)

/-- A type with all its qualifiers; types with keywords are written as these. -/
def qualifiedSpelling (ty : Ty) : String :=
  spellWith (fun d _ arguments =>
    match (s.type d).keyword? with
    | some keyword => keyword.keywordText
    | none => withArguments (s.fullName d) arguments) ty

/-! ## Labels -/

def definitionLabel (id : TypeId) : String := s!"{s.fullName id}`{(s.type id).arity}"

def methodLabel (id : MethodId) : String :=
  let m := s.method id
  s!"{s.definitionLabel m.owner}.{m.name}``{m.typeParams.length}"

def ownerLabel : ParamOwner → String
  | .type id => s.definitionLabel id
  | .method id => s.methodLabel id

def typeLabel : Ty → String
  | .named d as =>
    s.definitionLabel d ++ if as.isEmpty then "" else "[" ++ ",".intercalate (typeLabels as) ++ "]"
  | .param owner index name => s!"!{name}#{index}@{s.ownerLabel owner}"
  | .array element rank => s!"array{rank}({typeLabel element})"
  | .nullable inner => s!"nullable({typeLabel inner})"
  | .void => "void"
  | .null => "null"
  | .error text => s!"error({text})"
where
  typeLabels : List Ty → List String
    | [] => []
    | t :: ts => typeLabel t :: typeLabels ts

/-- A method with the types of its parameters and where it is declared. -/
def signatureLabel (id : MethodId) : String :=
  let m := s.method id
  let types := ",".intercalate (m.params.map fun p => s.typeLabel p.ty)
  let place := (m.origin?.map Origin.label).getD "builtin"
  s!"{s.methodLabel id}({types}) {place}"

def fieldLabel (id : FieldId) : String :=
  s!"{s.definitionLabel (s.field id).owner}.{(s.field id).name}"

def propertyLabel (id : PropertyId) : String :=
  s!"{s.definitionLabel (s.property id).owner}.{(s.property id).name}"

end SymbolTable

namespace Scope

/-- Whether a text, read as a type, means a given type here. -/
def bindsTo (scope : Scope) (text : String) (ty : Ty) : Bool :=
  match parseType text with
  | .ok tree => tree.kind.isType && scope.resolveType (.root tree) = ty
  | .error _ => false

/-- The spellings of a definition with more and more of its qualifiers. -/
def candidates (qualifiers : List String) (last : String) : List String :=
  (List.range (qualifiers.length + 1)).map fun n =>
    ".".intercalate (qualifiers.drop (qualifiers.length - n) ++ [last])

/-- The shortest spelling of a definition that means it here. If no spelling does,
one that starts from the global namespace. -/
def spellNamed (scope : Scope) (d : TypeId) (as : List Ty) (arguments : List String) : String :=
  let info := scope.table.type d
  match info.keyword? with
  | some keyword => keyword.keywordText
  | none =>
    let last := withArguments info.name arguments
    let qualifiers := scope.table.qualifiers d
    match (candidates qualifiers last).find? fun text => scope.bindsTo text (.named d as) with
    | some text => text
    | none => "global::" ++ ".".intercalate (qualifiers ++ [last])

/-- The shortest spelling of a type that means it here. -/
def spelling (scope : Scope) (ty : Ty) : String := spellWith scope.spellNamed ty

end Scope

end CSharpKit.Semantics
