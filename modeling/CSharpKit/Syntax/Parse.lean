import CSharpKit.Syntax.Grammar.Declarations

/-! # Reading source text

`parse` reads a whole file and always returns a tree, with the complaints it
met. The readers of fragments return the node of the fragment alone, and only
if there is nothing to complain about. -/

namespace CSharpKit.Syntax

open Text

/-- The tree of a source text and the complaints about it. -/
structure Parsed where
  tree : Tree
  errors : List ParseError
  deriving Inhabited

/-- How deep constructs may nest in a list of tokens: each token opens at most
four, one inside the other, before the next one is read. -/
def nestingBound (tokens : List Token) : Nat := 4 * (tokens.length + 1)

/-- Reads the contents of a file, all in one node. -/
def wholeFile (body : Parser Unit) : Parser Unit := do
  modify fun s => { s with builder := s.builder.startNode .compilationUnit }
  body
  Parser.flushTrivia
  Parser.finishNode

/-- Where a parser of the contents of a file ends on a text. -/
def runOn (text : String) (body : Grammar.Rules → Parser Unit) : ParserState :=
  let tokens := Token.lex text
  ((wholeFile (body (Grammar.within (nestingBound tokens)))).run ⟨tokens, .empty, [], []⟩).2

/-- What a parser leaves behind. -/
def ParserState.parsed (s : ParserState) : Parsed :=
  ⟨(s.builder.finish?.getD default).tree, s.errors.reverse⟩

/-- Where the parser of files ends on a text. -/
def parseState (text : String) : ParserState := runOn text fun rules => rules (.namespaceBody false)

/-- The tree of a file. -/
def parse (text : String) : Parsed := (parseState text).parsed

/-- Reads all of a text as one construct. -/
def parseFragment (what : Grammar.Rules → Parser Unit) (text : String) :
    Except (List ParseError) Node :=
  let parsed := (runOn text fun rules => do
    what rules
    unless ← Parser.isAt .eof do
      Parser.complain "unexpected trailing input in fragment"
      Parser.skipTo []).parsed
  if !parsed.errors.isEmpty then .error parsed.errors
  else
    match parsed.tree.children.findSome? Tree.node? with
    | some node => .ok node
    | none => .error [⟨"empty fragment", ⟨0, 0⟩⟩]

/-- Reads a text as one type. -/
def parseType (text : String) : Except (List ParseError) Node :=
  parseFragment (fun _ => Grammar.type) text

/-- Reads a text as one expression. -/
def parseExpression (text : String) : Except (List ParseError) Node :=
  parseFragment (fun rules => rules (.expression 0)) text

/-- Reads a text as one member of a type. -/
def parseMember (text : String) : Except (List ParseError) Node :=
  parseFragment (fun rules => rules .member) text

end CSharpKit.Syntax
