import CSharpKit.Assist.Actions
import CSharpKit.Assist.Diagnostics
import CSharpKit.Assist.Fix
import CSharpKit.Assist.QuickInfo
import CSharpKit.Fixture.Directory
import CSharpKit.Fixture.Markers
import CSharpKit.Fixture.Sample
import CSharpKit.Number.Binary64
import CSharpKit.Number.Decimal
import CSharpKit.Proofs.Assist.FixAgreement
import CSharpKit.Proofs.Assist.FixedCall
import CSharpKit.Proofs.Fixture.MarkerRuns
import CSharpKit.Proofs.Refactor.Annotations
import CSharpKit.Proofs.Refactor.Applying
import CSharpKit.Proofs.Refactor.BottomUp
import CSharpKit.Proofs.Refactor.DelegateNames
import CSharpKit.Proofs.Refactor.DelegateSignatures
import CSharpKit.Proofs.Refactor.Lifecycle
import CSharpKit.Proofs.Refactor.Meaning
import CSharpKit.Proofs.Refactor.Reoffering
import CSharpKit.Proofs.Refactor.Replacement
import CSharpKit.Proofs.Refactor.Rereading
import CSharpKit.Proofs.Refactor.TextEffect
import CSharpKit.Proofs.Semantics.ArrayFactory
import CSharpKit.Proofs.Semantics.BaseOrder
import CSharpKit.Proofs.Semantics.Consistency
import CSharpKit.Proofs.Semantics.Inheritance
import CSharpKit.Proofs.Semantics.Names
import CSharpKit.Proofs.Semantics.OutDeclarations
import CSharpKit.Proofs.Semantics.Outlines
import CSharpKit.Proofs.Semantics.Overloads
import CSharpKit.Proofs.Semantics.PassedArguments
import CSharpKit.Proofs.Semantics.Passes
import CSharpKit.Proofs.Semantics.ScopedTypes
import CSharpKit.Proofs.Semantics.Spelling
import CSharpKit.Proofs.Semantics.TwinScopes
import CSharpKit.Proofs.Semantics.TypingEnds
import CSharpKit.Proofs.Semantics.WrittenArguments
import CSharpKit.Proofs.Syntax.AwaitStatements
import CSharpKit.Proofs.Syntax.BuiltDeclarations
import CSharpKit.Proofs.Syntax.BuiltTypes
import CSharpKit.Proofs.Syntax.CleanTypes
import CSharpKit.Proofs.Syntax.Conditionals
import CSharpKit.Proofs.Syntax.DeclarationTrivia
import CSharpKit.Proofs.Syntax.Directives
import CSharpKit.Proofs.Syntax.ErrorReports
import CSharpKit.Proofs.Syntax.Fragments
import CSharpKit.Proofs.Syntax.GrammarReplays
import CSharpKit.Proofs.Syntax.Horizons
import CSharpKit.Proofs.Syntax.Identity
import CSharpKit.Proofs.Syntax.Levels
import CSharpKit.Proofs.Syntax.Lossless
import CSharpKit.Proofs.Syntax.MethodBodies
import CSharpKit.Proofs.Syntax.Operands
import CSharpKit.Proofs.Syntax.OperatorRows
import CSharpKit.Proofs.Syntax.Relexing
import CSharpKit.Proofs.Syntax.Replays
import CSharpKit.Proofs.Syntax.Termination
import CSharpKit.Proofs.Syntax.Tiling
import CSharpKit.Proofs.Syntax.TypeGrammar
import CSharpKit.Proofs.Syntax.TypeScanning
import CSharpKit.Proofs.Workspace.History
import CSharpKit.Refactor.CustomDelegate
import CSharpKit.Refactor.DelegateShape
import CSharpKit.Refactor.Edit
import CSharpKit.Refactor.Forwarding
import CSharpKit.Semantics.Conversion
import CSharpKit.Semantics.Declare
import CSharpKit.Semantics.Display
import CSharpKit.Semantics.ExpressionTypes
import CSharpKit.Semantics.Framework
import CSharpKit.Semantics.Model
import CSharpKit.Semantics.NameBinding
import CSharpKit.Semantics.Overload
import CSharpKit.Semantics.Scope
import CSharpKit.Semantics.Symbol
import CSharpKit.Semantics.Symbols
import CSharpKit.Semantics.Ty
import CSharpKit.Settings.Basic
import CSharpKit.Settings.Directive
import CSharpKit.Settings.Discovery
import CSharpKit.Settings.Load
import CSharpKit.Settings.LogFilter
import CSharpKit.Settings.Schema
import CSharpKit.Syntax.Build
import CSharpKit.Syntax.Builder
import CSharpKit.Syntax.Cursor
import CSharpKit.Syntax.Edit
import CSharpKit.Syntax.Grammar.Declarations
import CSharpKit.Syntax.Grammar.Expressions
import CSharpKit.Syntax.Grammar.Rules
import CSharpKit.Syntax.Grammar.Statements
import CSharpKit.Syntax.Grammar.Types
import CSharpKit.Syntax.Kind
import CSharpKit.Syntax.Lookahead
import CSharpKit.Syntax.Parse
import CSharpKit.Syntax.Parser
import CSharpKit.Syntax.Pointer
import CSharpKit.Syntax.Token
import CSharpKit.Syntax.Tree
import CSharpKit.Syntax.View
import CSharpKit.Text.CharClass
import CSharpKit.Text.JsonValue
import CSharpKit.Text.Lines
import CSharpKit.Text.Pattern
import CSharpKit.Text.Quoted
import CSharpKit.Text.Search
import CSharpKit.Text.Span
import CSharpKit.Text.UpperCase
import CSharpKit.Toml.Document
import CSharpKit.Toml.Reader
import CSharpKit.Toml.Value
import CSharpKit.Workspace.Document
import CSharpKit.Workspace.Path
import CSharpKit.Workspace.Project
