import CSharpKit.Syntax.Builder
import CSharpKit.Syntax.Lookahead

/-! # Parsers

A parser reads tokens from the front of a list and hands trees to a builder. It
never fails: where the source is not what it expects it records a complaint
about the next token and goes on.

Trivia joins the trees as soon as the next token or node does, so a node starts
at a token that is not trivia. A node that turns out to open before trees that
are already read takes them over: `mark` remembers the place, and `nodeFrom`
opens the node there.

The builder refuses what breaks its rules, and counters do not go below zero.
Where a parser asked for that, the fault is recorded. -/

namespace CSharpKit.Syntax

open Text

/-- A complaint about a stretch of the source. -/
structure ParseError where
  message : String
  span : Span
  deriving DecidableEq, Inhabited

/-- What a parser must never ask for. -/
inductive Fault where
  /-- To open a node at a mark outside the open node. -/
  | misplacedStart
  /-- To close a node where none is open. -/
  | nothingToFinish
  /-- To count below zero. -/
  | negativeCount
  deriving DecidableEq

/-- What is left to read, the trees under construction, and the complaints and
faults so far, the newest first. -/
structure ParserState where
  rest : List Token
  builder : Builder
  errors : List ParseError
  faults : List Fault

/-- A reader of tokens that builds trees. -/
abbrev Parser := StateM ParserState

namespace Parser

variable {α : Type}

/-- A question about the tokens ahead. -/
def ask (question : List Token → α) : Parser α := do
  return question (← get).rest

def peek : Parser Kind := ask Lookahead.kind

def isAt (kind : Kind) : Parser Bool := ask (Lookahead.kind · == kind)

def isAtAny (kinds : List Kind) : Parser Bool := ask fun ts => kinds.contains (Lookahead.kind ts)

/-- Whether the token at place `n` has this kind. -/
def isAtNth (n : Nat) (kind : Kind) : Parser Bool := ask (Lookahead.kindAt? n · == some kind)

/-! ## Tokens -/

/-- Moves the first token, whatever it is, to the trees. -/
def take : Parser Unit :=
  modify fun s =>
    match s.rest with
    | [] => s
    | t :: rest => { s with rest, builder := s.builder.add (.token t.kind t.text) }

/-- The builder with the trees of trivia at the front of a list, and what follows. -/
def splitTrivia (builder : Builder) : List Token → Builder × List Token
  | [] => (builder, [])
  | t :: rest =>
    if t.isTrivia then splitTrivia (builder.add (.token t.kind t.text)) rest
    else (builder, t :: rest)

/-- Moves the trivia ahead to the trees. -/
def flushTrivia : Parser Unit :=
  modify fun s =>
    let (builder, rest) := splitTrivia s.builder s.rest
    { s with builder, rest }

/-- Moves the next token to the trees, but never the end of the text. -/
def bump : Parser Unit := do
  flushTrivia
  unless ← ask (Lookahead.startsWith .eof) do take

/-- Moves the next token to the trees; before the end of the text it does nothing. -/
def skip : Parser Unit := do
  unless ← isAt .eof do bump

def eat (kind : Kind) : Parser Bool := do
  if ← isAt kind then
    bump
    return true
  else
    return false

/-- Records a complaint about the next token. -/
def complain (message : String) : Parser Unit :=
  modify fun s =>
    match (Lookahead.significant s.rest).head? with
    | some t => { s with errors := ⟨message, t.span⟩ :: s.errors }
    | none => s

/-- Reads a token of this kind, or records a complaint. -/
def expect (kind : Kind) (message : String) : Parser Bool := do
  if ← isAt kind then
    bump
    return true
  else
    complain message
    return false

/-- Like `expect`, where the reader goes on either way. -/
def require (kind : Kind) (message : String) : Parser Unit := do
  let _ ← expect kind message

/-! ## Nodes -/

/-- Changes the builder, or records a fault if it refuses. -/
def build (fault : Fault) (change : Builder → Option Builder) : Parser Unit :=
  modify fun s =>
    match change s.builder with
    | some builder => { s with builder }
    | none => { s with faults := fault :: s.faults }

def finishNode : Parser Unit := build .nothingToFinish Builder.finishNode?

/-- A node with what the body reads. -/
def node (kind : Kind) (body : Parser Unit) : Parser Unit := do
  flushTrivia
  modify fun s => { s with builder := s.builder.startNode kind }
  body
  finishNode

/-- The place of the next tree that is not trivia. -/
def mark : Parser Nat := do
  flushTrivia
  return (← get).builder.mark

/-- Whether trees were read since a mark. -/
def grownSince (start : Nat) : Parser Bool := do
  return start < (← get).builder.mark

/-- A node with the trees since a mark and what the body reads. -/
def nodeFrom (start : Nat) (kind : Kind) (body : Parser Unit) : Parser Unit := do
  build .misplacedStart (·.startNodeAt? start kind)
  body
  finishNode

/-! ## Repetition -/

/-- One less than a count. -/
def countDown : Nat → Parser Nat
  | 0 => do
    modify fun s => { s with faults := .negativeCount :: s.faults }
    return 0
  | n + 1 => return n

/-- Runs a step until it says that it is done, at most `n` times. -/
def loopUpTo (step : Parser Bool) : Nat → Parser Unit
  | 0 => pure ()
  | n + 1 => do
    if ← step then loopUpTo step n

/-- Runs a step until it says that it is done. Each step but the last reads a
token, so there are at most as many steps as tokens, and one. -/
def loop (step : Parser Bool) : Parser Unit := do
  loopUpTo step ((← get).rest.length + 1)

/-- Runs the body as long as the next token has none of the kinds. -/
def untilAny (kinds : List Kind) (body : Parser Unit) : Parser Unit :=
  loop do
    if ← isAtAny kinds then
      return false
    else
      body
      return true

/-- Runs the body as long as the question about the tokens ahead holds. -/
def whileAhead (question : List Token → Bool) (body : Parser Unit) : Parser Unit :=
  loop do
    if ← ask question then
      body
      return true
    else
      return false

/-- Items with commas between them, at least one. -/
def separated (item : Parser Unit) : Parser Unit :=
  loop do
    item
    eat .comma

/-- Items with commas between them up to a token of one of the kinds; a comma
before it is allowed. -/
def separatedUntil (kinds : List Kind) (item : Parser Unit) : Parser Unit :=
  loop do
    if ← isAtAny kinds then
      return false
    else
      item
      eat .comma

/-- Reads tokens up to one of the kinds or the end. -/
def skipTo (kinds : List Kind) : Parser Unit := untilAny (.eof :: kinds) bump

end Parser

end CSharpKit.Syntax
