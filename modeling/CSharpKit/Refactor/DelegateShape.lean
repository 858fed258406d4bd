import CSharpKit.Semantics.Symbols
import CSharpKit.Syntax.Build
import CSharpKit.Syntax.View
import CSharpKit.Text.UpperCase

/-! # Delegate shapes

A parameter of type `Action<…>` or `Func<…>` tells what a delegate of its own
would look like: the types of its parameters, whether it returns a value, and,
from comments behind the type arguments, how its parameters are called. -/

namespace CSharpKit.Refactor

open Syntax Semantics Text

/-! ## Names in comments -/

/-- The trivia behind a node, up to the end of its line. -/
def trailingTrivia : List Cursor → List Cursor
  | [] => []
  | c :: rest =>
    if c.isNode || !c.kind.isTrivia then []
    else if c.kind == .whitespace && c.text.toList.contains '\n' then [c]
    else c :: trailingTrivia rest

/-- The elements behind one among the children of its parent. -/
def following (c : Cursor) : List Cursor :=
  match c.parent? with
  | some parent => parent.elements.drop (c.index + 1)
  | none => []

/-- A text without an ending. -/
def dropEnding (ending text : List Char) : List Char :=
  if ending.isSuffixOf text then text.take (text.length - ending.length) else text

/-- What a block comment says between its marks. A comment that the file ends has
no closing mark. -/
def commentContent (text : String) : String :=
  let chars := text.toList
  let opened := if ['/', '*'].isPrefixOf chars then chars.drop 2 else chars
  String.ofList (dropEnding ['*', '/'] opened)

/-- The name in the block comment behind a type argument. More than one comment
names nothing. -/
def annotatedName? (argument : Cursor) : Option String :=
  match (trailingTrivia (following argument)).filter (·.kind == .multiLineComment) with
  | [comment] => some (commentContent comment.text)
  | _ => none

/-- The name for the parameter of a type argument, or `fallback`. -/
def parameterName (arguments : List Cursor) (position : Nat) (fallback : String) : String :=
  ((arguments[position]?).bind annotatedName?).getD fallback

/-! ## Shapes -/

structure DelegateParameter where
  name : String
  ty : Ty
  deriving DecidableEq, Inhabited

inductive DelegateShape where
  | action (parameters : List DelegateParameter)
  | func (parameters : List DelegateParameter) (returnTy : Ty)
  deriving DecidableEq, Inhabited

namespace DelegateShape

def parameters : DelegateShape → List DelegateParameter
  | .action ps => ps
  | .func ps _ => ps

def returnTy? : DelegateShape → Option Ty
  | .action _ => none
  | .func _ ty => some ty

/-- The first `count` parameters of a delegate, as a use of its type sees them. -/
def parametersOf? (invoke : MethodInfo) (ty : Ty) (written : List Cursor) (count : Nat) :
    Option (List DelegateParameter) :=
  (List.range count).mapM fun i =>
    (invoke.params[i]?).map fun declared =>
      ⟨parameterName written i declared.name, Ty.throughReceiver ty declared.ty⟩

/-- The shape of a parameter type. The type has to be written as a generic name,
and to mean one of the delegates of `System`. -/
def ofType? (s : SymbolTable) (ty : Ty) (written : Cursor) : Option DelegateShape :=
  match ty with
  | .named d (a :: as) => do
    guard (written.kind == .genericName && (s.type d).kind == .delegateType)
    let invoke := s.method (← s.invoke? d)
    let found := parametersOf? invoke ty written.typeArguments
    match s.fullName d with
    | "System.Action" => return .action (← found (as.length + 1))
    | "System.Func" => return .func (← found as.length) ((a :: as).getLastD a)
    | _ => none
  | _ => none

end DelegateShape

/-- The name of a delegate for a parameter: its name with the first letter in
upper case. -/
def delegateName (parameter : String) : String :=
  match parameter.toList with
  | [] => ""
  | first :: rest => String.ofList (upperCase first ++ rest)

end CSharpKit.Refactor
