import SharpRefactor.Proofs.Lexing
import SharpRefactor.Proofs.Lexing.Standalone
import SharpRefactor.Proofs.Lexing.Tiling
import SharpRefactor.Proofs.Parsing.Bare
import SharpRefactor.Proofs.Parsing.Branches
import SharpRefactor.Proofs.Parsing.Builder
import SharpRefactor.Proofs.Parsing.Complete
import SharpRefactor.Proofs.Parsing.Contract
import SharpRefactor.Proofs.Parsing.Depth
import SharpRefactor.Proofs.Parsing.Ensured
import SharpRefactor.Proofs.Parsing.Grouped
import SharpRefactor.Proofs.Parsing.Grouping
import SharpRefactor.Proofs.Parsing.Kept
import SharpRefactor.Proofs.Parsing.Leading
import SharpRefactor.Proofs.Parsing.Levels
import SharpRefactor.Proofs.Parsing.Lossless
import SharpRefactor.Proofs.Parsing.Makes
import SharpRefactor.Proofs.Parsing.Nesting
import SharpRefactor.Proofs.Parsing.Objections
import SharpRefactor.Proofs.Parsing.Progress
import SharpRefactor.Proofs.Parsing.Reentry
import SharpRefactor.Proofs.Parsing.Run
import SharpRefactor.Proofs.Parsing.Scanning
import SharpRefactor.Proofs.Parsing.Sights
import SharpRefactor.Proofs.Parsing.Trivia
import SharpRefactor.Proofs.Parsing.TypeGrammar
import SharpRefactor.Proofs.Parsing.TypeName
import SharpRefactor.Proofs.Parsing.TypeScan
import SharpRefactor.Proofs.Parsing.TypeTexts
import SharpRefactor.Proofs.Parsing.Unbounded
import SharpRefactor.Proofs.Refactor.Calling
import SharpRefactor.Proofs.Refactor.Edits
import SharpRefactor.Proofs.Refactor.Faithful
import SharpRefactor.Proofs.Refactor.History
import SharpRefactor.Proofs.Refactor.Previews
import SharpRefactor.Proofs.Refactor.Probing
import SharpRefactor.Proofs.Refactor.Retyping
import SharpRefactor.Proofs.Refactor.TypeNames
import SharpRefactor.Proofs.Refactor.Untouched
import SharpRefactor.Proofs.Syntax.Exchange
import SharpRefactor.Proofs.Syntax.Identity
import SharpRefactor.Proofs.Syntax.Listing
import SharpRefactor.Proofs.Syntax.Mandatory
import SharpRefactor.Proofs.Syntax.Names
import SharpRefactor.Proofs.Syntax.Paths
import SharpRefactor.Proofs.Syntax.Positions
import SharpRefactor.Proofs.Text.Coalescing
import SharpRefactor.Proofs.Text.Quoting
import SharpRefactor.Proofs.Text.Splicing
import SharpRefactor.Proofs.Types.Aliases
import SharpRefactor.Proofs.Types.Ancestry
import SharpRefactor.Proofs.Types.Answers
import SharpRefactor.Proofs.Types.Bounded
import SharpRefactor.Proofs.Types.Built
import SharpRefactor.Proofs.Types.Canonical
import SharpRefactor.Proofs.Types.Converting
import SharpRefactor.Proofs.Types.Declarations
import SharpRefactor.Proofs.Types.Defined
import SharpRefactor.Proofs.Types.Described
import SharpRefactor.Proofs.Types.Display
import SharpRefactor.Proofs.Types.Dotted
import SharpRefactor.Proofs.Types.Headers
import SharpRefactor.Proofs.Types.Identities
import SharpRefactor.Proofs.Types.Judging
import SharpRefactor.Proofs.Types.Locals
import SharpRefactor.Proofs.Types.Members
import SharpRefactor.Proofs.Types.Minimal
import SharpRefactor.Proofs.Types.Mirrors
import SharpRefactor.Proofs.Types.Named
import SharpRefactor.Proofs.Types.Reordered
import SharpRefactor.Proofs.Types.Returned
import SharpRefactor.Proofs.Types.Scoped
import SharpRefactor.Proofs.Types.Scopes
import SharpRefactor.Proofs.Types.Spaces
import SharpRefactor.Proofs.Types.Surroundings
import SharpRefactor.Proofs.Types.Written
import SharpRefactor.Refactor.AnonymousMethod
import SharpRefactor.Refactor.Asking
import SharpRefactor.Refactor.Commit
import SharpRefactor.Refactor.Configured
import SharpRefactor.Refactor.Edit
import SharpRefactor.Refactor.Error
import SharpRefactor.Refactor.Inspect
import SharpRefactor.Refactor.MethodGroup
import SharpRefactor.Refactor.Rule
import SharpRefactor.Refactor.RuleSet
import SharpRefactor.Refactor.Session
import SharpRefactor.Settings.Basic
import SharpRefactor.Settings.LogFilter
import SharpRefactor.Settings.Titles
import SharpRefactor.Syntax.Diagnostic
import SharpRefactor.Syntax.Dump
import SharpRefactor.Syntax.Factory
import SharpRefactor.Syntax.Kind
import SharpRefactor.Syntax.Lexer
import SharpRefactor.Syntax.Node
import SharpRefactor.Syntax.Outline
import SharpRefactor.Syntax.Parse
import SharpRefactor.Syntax.Parse.Basic
import SharpRefactor.Syntax.Parse.Construct
import SharpRefactor.Syntax.Parse.Declarations
import SharpRefactor.Syntax.Parse.Expressions
import SharpRefactor.Syntax.Parse.Lookahead
import SharpRefactor.Syntax.Parse.Statements
import SharpRefactor.Syntax.Parse.Types
import SharpRefactor.Syntax.Recipe
import SharpRefactor.Syntax.Token
import SharpRefactor.Syntax.Tree
import SharpRefactor.Syntax.Version
import SharpRefactor.Syntax.View
import SharpRefactor.Text.Bytes
import SharpRefactor.Text.Decimal
import SharpRefactor.Text.Diff.Piece
import SharpRefactor.Text.Diff.Settle
import SharpRefactor.Text.Diff.Shortest
import SharpRefactor.Text.Diff.Unified
import SharpRefactor.Text.Edit
import SharpRefactor.Text.Lines
import SharpRefactor.Text.Marker
import SharpRefactor.Text.Quoted
import SharpRefactor.Text.Range
import SharpRefactor.Toml.Document
import SharpRefactor.Toml.Reader
import SharpRefactor.Toml.Scalar
import SharpRefactor.Toml.Section
import SharpRefactor.Toml.Value
import SharpRefactor.Types.Bindings
import SharpRefactor.Types.Declare
import SharpRefactor.Types.Definition
import SharpRefactor.Types.Denotation
import SharpRefactor.Types.Dotted
import SharpRefactor.Types.Evaluate
import SharpRefactor.Types.Hierarchy
import SharpRefactor.Types.Library
import SharpRefactor.Types.Lookup
import SharpRefactor.Types.Resolver
import SharpRefactor.Types.Scope
import SharpRefactor.Types.Spelling
import SharpRefactor.Types.Ty
import SharpRefactor.Types.TypeSyntax
import SharpRefactor.Unicode.Classes
import SharpRefactor.Unicode.GraphemeExtend
import SharpRefactor.Unicode.IdentContinue
import SharpRefactor.Unicode.IdentStart
import SharpRefactor.Unicode.Unprintable
import SharpRefactor.Wire.Label
import SharpRefactor.Wire.Type
import SharpRefactor.Wire.Value
import SharpRefactor.Proofs.Types.Substitution
import SharpRefactor.Proofs.Types.Matching
import SharpRefactor.Proofs.Types.Instances
import SharpRefactor.Proofs.Refactor.Sharing
