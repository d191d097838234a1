import SharpRefactor.Syntax.Diagnostic
import SharpRefactor.Syntax.Tree
import SharpRefactor.Syntax.Parse.Construct
import SharpRefactor.Syntax.Parse.Lookahead

/-!
The rules of the grammar are programs: they move tokens, ask about the tokens ahead, object, and
build nodes. A program runs on a state that holds the tokens still to be read and the siblings built
so far on the level that is open; a node is opened by starting an empty level and closed by making
the level its children. A construct whose kind shows only later is collected on a level of its own
(`group`) and wrapped when the kind is known (`wrap`). Trivia in front of a node goes to the level
outside it.
-/

namespace SharpRefactor

/-- A program of the parser with a result. -/
inductive Parse : Type → Type 1 where
  | done {α : Type} (a : α) : Parse α
  | andThen {α β : Type} (p : Parse α) (f : α → Parse β) : Parse β
  /-- The kind of the next significant token; the trivia in front of it is moved first. -/
  | current : Parse Kind
  /-- The kind of the significant token `n` places ahead; nothing is moved. -/
  | nth? (n : Nat) : Parse (Option Kind)
  /-- Asks about the tokens that are left. -/
  | ahead (question : Lookahead.Question) : Parse Bool
  /-- Moves the next significant token. -/
  | bump : Parse Unit
  /-- Moves trivia and tokens whose kinds satisfy a test as long as there are any. -/
  | skip (p : Kind → Bool) : Parse Unit
  /-- Objects to the next significant token. -/
  | fail (error : SyntaxError) : Parse Unit
  /-- Runs a program on a level of its own, with the trivia in front of it left outside. -/
  | group {α : Type} (p : Parse α) : Parse α
  /-- Runs a program and makes the open level, with what the program added, a single node. -/
  | wrap {α : Type} (k : Kind) (p : Parse α) : Parse α
  /-- Reads a construct met inside this one. -/
  | inner (c : Construct) : Parse Unit

/-- Where a reading of tokens stands. -/
structure ParseState where
  tokens : List Token
  /-- The siblings of the open level, the last one first. -/
  level : List Tree
  /-- The offset of the first token that is left. -/
  offset : Nat
  /-- The objections so far, the last one first. -/
  errors : List Diagnostic

namespace ParseState

/-- The range of the next token, empty at the end of the text. -/
def here (s : ParseState) : TextRange :=
  match s.tokens with
  | [] => .empty s.offset
  | t :: _ => .ofSize s.offset t.size

/-- The kind of the next token. -/
def front (s : ParseState) : Kind := (s.tokens.head?.map Token.kind).getD .eof

/-- Moves tokens from the front to the open level as long as their kinds satisfy a test. -/
def takeWhile (p : Kind → Bool) (s : ParseState) : ParseState :=
  let taken : Forest := (s.tokens.takeWhile (p ·.kind)).map Tree.leaf
  { s with
    tokens := s.tokens.dropWhile (p ·.kind)
    level := taken.reverse ++ s.level
    offset := s.offset + taken.size }

/-- Moves the trivia at the front. -/
def trivia (s : ParseState) : ParseState := s.takeWhile Kind.isTrivia

/-- Moves one token, trivia or not. -/
def takeOne (s : ParseState) : ParseState :=
  match s.tokens with
  | [] => s
  | t :: ts => { s with tokens := ts, level := .leaf t :: s.level, offset := s.offset + t.size }

/-- Objects to the next token. -/
def object (error : SyntaxError) (s : ParseState) : ParseState :=
  { s with errors := ⟨error, s.here⟩ :: s.errors }

/-- Opens an empty level. -/
def opened (s : ParseState) : ParseState := { s with level := [] }

/-- Closes the level, its trees coming after some siblings. -/
def closed (s : ParseState) (siblings : List Tree) : ParseState :=
  { s with level := s.level ++ siblings }

/-- Makes the open level a single node. -/
def wrapped (k : Kind) (s : ParseState) : ParseState :=
  { s with level := [.node k s.level.reverse] }

end ParseState

namespace Parse

instance : Monad Parse where
  pure := done
  bind := andThen

/-- Runs a program, reading the constructs in it by `read`. -/
def run (read : Construct → ParseState → ParseState) :
    {α : Type} → Parse α → ParseState → α × ParseState
  | _, done a, s => (a, s)
  | _, andThen p f, s => (f (p.run read s).1).run read (p.run read s).2
  | _, current, s => (s.trivia.front, s.trivia)
  | _, nth? n, s => (Lookahead.nth? n s.tokens, s)
  | _, ahead question, s => (question.ask s.tokens, s)
  | _, bump, s => ((), s.trivia.takeOne)
  | _, skip p, s => ((), s.takeWhile fun k => k.isTrivia || p k)
  | _, fail error, s => ((), s.trivia.object error)
  | _, group p, s =>
    let (a, s') := p.run read s.trivia.opened
    (a, s'.closed s.trivia.level)
  | _, wrap k p, s =>
    let (a, s') := p.run read s
    (a, s'.wrapped k)
  | _, inner c, s => ((), read c s)

def atKind (k : Kind) : Parse Bool := return (← current) == k

/-- Whether the token after the next one is of a kind. -/
def secondIs (k : Kind) : Parse Bool := return (← nth? 1) == some k

def missing (what : Expected) : Parse Unit := fail (.expected what)

/-- Moves a token of a kind, or objects; says which. -/
def expect (k : Kind) (what : Expected) : Parse Bool := do
  if ← atKind k then
    bump
    return true
  else
    missing what
    return false

/-- Moves a token of a kind, or objects. -/
def require (k : Kind) (what : Expected) : Parse Unit := do
  let _ ← expect k what

/-- A node whose children are what a program builds. -/
def node {α : Type} (k : Kind) (p : Parse α) : Parse α := group (wrap k p)

/-- Whether the next token can begin a type. -/
def atTypeStart : Parse Bool := do
  let k ← current
  return k == .identifier || k.isPredefinedType

def atIdentifier : Parse Bool := atKind .identifier

/-- Moves the modifiers in front of a declaration, and the trivia around them. -/
def modifiers : Parse Unit := skip Kind.isModifier

/-- Moves tokens up to the first one of some kinds. -/
def skipTo (stops : List Kind) : Parse Unit := skip fun k => !stops.contains k

/-- The kinds at which a malformed member ends. -/
def memberBoundary : List Kind :=
  [.semicolon, .rBrace, .classKw, .structKw, .interfaceKw, .delegateKw, .eventKw, .abstractKw,
   .constKw, .internalKw, .newKw, .overrideKw, .privateKw, .protectedKw, .publicKw, .readonlyKw,
   .sealedKw, .staticKw, .virtualKw]

/-- The kinds at which a malformed part of a namespace ends. -/
def topLevelBoundary : List Kind :=
  [.namespaceKw, .usingKw, .classKw, .structKw, .interfaceKw, .delegateKw, .publicKw, .internalKw,
   .staticKw, .eof]

/-- Skips the rest of a malformed member, a closing semicolon included. -/
def skipMember : Parse Unit := do
  skipTo memberBoundary
  if ← atKind .semicolon then bump

end Parse
end SharpRefactor
