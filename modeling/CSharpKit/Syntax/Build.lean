import CSharpKit.Syntax.Parse

/-! # Building trees

Trees of constructs as the parser would make them, without trivia around them.
Names are taken as they are. -/

namespace CSharpKit.Syntax.Build

def space : Tree := .token .whitespace " "

def identifierName (name : String) : Node := ⟨.identifierName, [.token .identifier name]⟩

/-- The type that a keyword names. -/
def predefinedType (keyword : Kind) (text : String) : Node :=
  ⟨.predefinedType, [.token keyword text]⟩

def voidType : Node := predefinedType .voidKw "void"

def qualifiedName (left : Tree) (right : String) : Node :=
  ⟨.qualifiedName, [left, .token .dot ".", identifierName right]⟩

/-- Trees with a comma and a space between them. -/
def commaSeparated : Forest → Forest
  | [] => []
  | [t] => [t]
  | t :: ts => t :: .token .comma "," :: space :: commaSeparated ts

def genericName (name : String) (arguments : Forest) : Node :=
  ⟨.genericName, [
    .token .identifier name,
    .node .typeArgumentList
      (.token .less "<" :: commaSeparated arguments ++ [.token .greater ">"])]⟩

def memberAccess (receiver name : Tree) : Node :=
  ⟨.memberAccessExpression, [receiver, .token .dot ".", name]⟩

/-- `A.B.C` as member accesses nested to the left; `none` for fewer than two segments. -/
def dottedMemberAccess? (path : String) : Option Node :=
  match path.splitOn "." with
  | first :: second :: rest =>
    some (rest.foldl (fun access part => memberAccess access (identifierName part))
      (memberAccess (identifierName first) (identifierName second)))
  | _ => none

def parameter (type : Tree) (name : String) : Node :=
  ⟨.parameter, [type, space, .token .identifier name]⟩

def parameterList (parameters : Forest) : Node :=
  ⟨.parameterList, .token .lParen "(" :: commaSeparated parameters ++ [.token .rParen ")"]⟩

/-- `public delegate returnType name(parameters);` -/
def delegateDeclaration (returnType : Tree) (name : String) (parameters : Forest) : Node :=
  ⟨.delegateDeclaration, [
    .node .modifiers [.token .publicKw "public"], space, .token .delegateKw "delegate", space,
    returnType, space, .token .identifier name, parameterList parameters, .token .semicolon ";"]⟩

end CSharpKit.Syntax.Build
