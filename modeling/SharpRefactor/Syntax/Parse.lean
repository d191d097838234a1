import SharpRefactor.Syntax.Parse.Declarations

/-!
The parser. `parse` reads any text: a malformed one gives a tree as well, with the objections beside
it, and the tokens of the tree are those of the text. `parseTypeName` reads a text that is to be a
type and nothing else.
-/

namespace SharpRefactor

/-- The rule for each construct. -/
def Construct.rule : Construct → Parse Unit
  | .namespaceBody braced => Parse.namespaceBody braced
  | .usings => Parse.usings
  | .namespaceMembers braced => Parse.namespaceMembers braced
  | .typeParameters => Parse.typeParameters
  | .baseTypes => Parse.baseTypes
  | .members => Parse.members
  | .accessors => Parse.accessors
  | .parameters => Parse.parameters
  | .block => Parse.block
  | .statements => Parse.statements
  | .statement => Parse.statement
  | .declarators => Parse.declarators
  | .type => Parse.type
  | .qualifiers => Parse.qualifiers
  | .ranks => Parse.ranks
  | .typeArguments => Parse.typeArguments
  | .expression power => Parse.expression power
  | .operators power => Parse.operators power
  | .unary => Parse.unary
  | .suffixes => Parse.suffixes
  | .arguments => Parse.arguments

/-- Reads a construct with constructs nested at most `depth` deep inside it. -/
def Construct.read : Nat → Construct → ParseState → ParseState
  | 0, _, s => s
  | depth + 1, c, s => (c.rule.run (read depth) s).2

/-- More levels than constructs can nest over some tokens: between two of them that begin at one
token there are only finitely many kinds of construct. -/
def nestingBound (ts : List Token) : Nat := 32 * (Lookahead.significant ts + 1)

/-- What came of reading a text. -/
structure ParseResult where
  root : Tree
  errors : List Diagnostic

namespace ParseResult

/-- Whether the text was well formed. -/
def ok (r : ParseResult) : Bool := r.errors.isEmpty

end ParseResult

/-- The faults of single tokens as objections to the text. -/
def lexicalErrors (ls : List Lexeme) : List Diagnostic :=
  (lexFaults 0 ls).map fun (fault, range) => ⟨.lexical fault, range⟩

/-- The beginning of a reading of some tokens. -/
def ParseState.start (ts : List Token) : ParseState := ⟨ts, [], 0, []⟩

/-- The state after the tokens of a file have been read, with nothing around its parts. -/
def readFile (ts : List Token) : ParseState :=
  (Construct.read (nestingBound ts) (.namespaceBody false) (ParseState.start ts).trivia).trivia

/-- Reads a source file. -/
def parse (text : String) : ParseResult :=
  let ls := lex text
  let s := readFile (ls.map Lexeme.token)
  ⟨.node .compilationUnit s.level.reverse, lexicalErrors ls ++ s.errors.reverse⟩

/-- Why a text cannot be had as a type. -/
inductive TypeNameError where
  | malformed (diagnostic : Diagnostic)
  /-- The type has comments around it, so that more than one tree was read. -/
  | surrounded
  deriving DecidableEq

/-- A text without the white space around it. -/
def trimmed (text : String) : String :=
  String.ofList ((text.toList.dropWhile Unicode.isWhiteSpace).reverse.dropWhile
    Unicode.isWhiteSpace).reverse

/-- Reads a type, if the tokens begin like one; says whether they do. -/
def Parse.typeName : Parse Bool := do
  let started ← atTypeStart
  if started then inner .type
  return started

/-- Reads a text that spells a type. -/
def parseTypeName (text : String) : Except TypeNameError Tree :=
  let body := trimmed text
  let ls := lex body
  let ts := ls.map Lexeme.token
  let (started, s) := Parse.typeName.run (Construct.read (nestingBound ts)) (ParseState.start ts)
  if !started then
    .error (.malformed ⟨.notATypeName body, .ofSize 0 body.utf8ByteSize⟩)
  else match lexicalErrors ls ++ s.errors.reverse, s.tokens, s.level with
    | d :: _, _, _ => .error (.malformed d)
    | [], _ :: _, _ => .error (.malformed ⟨.trailingTokens, s.here⟩)
    | [], [], [.node k ts] => .ok (.node k ts)
    | [], [], _ => .error .surrounded

end SharpRefactor
