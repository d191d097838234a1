import SharpRefactor.Syntax.Token
import SharpRefactor.Unicode.Classes

/-!
Cutting a text into tokens without losing a character. The front of a text decides the kind of the
next token, how many characters after the first belong to it, and whether something is wrong with
it; `lex` takes that many characters and goes on with the rest.
-/

namespace SharpRefactor

open Unicode

/-- What can be wrong with a single token. -/
inductive LexError where
  | unterminatedComment
  | unterminatedString
  | unterminatedVerbatimString
  | unterminatedCharacter
  | unexpectedCharacter (c : Char)
  deriving DecidableEq, Repr

def LexError.message : LexError → String
  | .unterminatedComment => "unterminated block comment"
  | .unterminatedString => "unterminated string literal"
  | .unterminatedVerbatimString => "unterminated verbatim string literal"
  | .unterminatedCharacter => "unterminated character literal"
  | .unexpectedCharacter c => s!"unexpected character `{c}`"

/-- A token as it was cut from a text, with its fault if it has one. -/
structure Lexeme where
  token : Token
  fault : Option LexError
  deriving DecidableEq, Repr

namespace Lexer

/-- How the front of a text reads: the kind, the number of characters after the first one, and the
fault. -/
structure Cut where
  kind : Kind
  more : Nat
  fault : Option LexError
  deriving DecidableEq, Repr

/-- How many characters at the front satisfy a test. -/
def run (p : Char → Bool) (cs : List Char) : Nat := (cs.takeWhile p).length

/-- The inside of a block comment up to and with its end mark, and whether the mark is there. -/
def blockComment : List Char → Nat × Bool
  | '*' :: '/' :: _ => (2, true)
  | _ :: cs => let (n, closed) := blockComment cs; (n + 1, closed)
  | [] => (0, false)

/-- The inside of a literal that a single `quote` ends on the same line, and whether it is ended. A
backslash keeps the next character from ending it, unless that is a line feed. -/
def quoted (quote : Char) : List Char → Nat × Bool
  | [] => (0, false)
  | '\\' :: c :: cs =>
    if c = '\n' then (1, false)
    else let (n, closed) := quoted quote cs; (n + 2, closed)
  | c :: cs =>
    if c = quote then (1, true)
    else if c = '\n' ∨ c = '\r' then (0, false)
    else let (n, closed) := quoted quote cs; (n + 1, closed)

/-- The inside of a verbatim string, where two quotes stand for one. -/
def verbatim : List Char → Nat × Bool
  | '"' :: '"' :: cs => let (n, closed) := verbatim cs; (n + 2, closed)
  | '"' :: _ => (1, true)
  | _ :: cs => let (n, closed) := verbatim cs; (n + 1, closed)
  | [] => (0, false)

def isHexDigit (c : Char) : Bool :=
  c.isDigit || ('a' ≤ c && c ≤ 'f') || ('A' ≤ c && c ≤ 'F')

def isDigitOrLine (c : Char) : Bool := c.isDigit || c = '_'

/-- The decimal point and the digits after it; a point without a digit is not part of a number. -/
def fraction : List Char → Nat
  | '.' :: d :: cs => if d.isDigit then 1 + run isDigitOrLine (d :: cs) else 0
  | _ => 0

/-- The exponent mark with its sign and digits; the mark alone is enough. -/
def exponent : List Char → Nat
  | e :: cs =>
    if e = 'e' ∨ e = 'E' then
      let sign := run (fun c => c = '+' || c = '-') (cs.take 1)
      1 + sign + run Char.isDigit (cs.drop sign)
    else 0
  | [] => 0

/-- The letters after a number that fix its type. -/
def suffix : List Char → Nat × Bool
  | c :: cs =>
    if c ∈ ['f', 'F', 'd', 'D', 'm', 'M'] then (1, true)
    else (run (fun c => c ∈ ['u', 'U', 'l', 'L']) (c :: cs), false)
  | [] => (0, false)

/-- The kind and length of the number at the front of a text. -/
def number (cs : List Char) : Kind × Nat :=
  let (body, real) :=
    if ['0', 'x'].isPrefixOf cs || ['0', 'X'].isPrefixOf cs then
      (2 + run (fun c => isHexDigit c || c = '_') (cs.drop 2), false)
    else
      let whole := run isDigitOrLine cs
      let part := fraction (cs.drop whole)
      let power := exponent (cs.drop (whole + part))
      (whole + part + power, 0 < part + power)
  let (tail, realSuffix) := suffix (cs.drop body)
  (if real || realSuffix then .realLiteral else .intLiteral, body + tail)

/-- The mark at the front of a text, the longest one that fits. -/
def mark? (cs : List Char) : Option Kind :=
  Kind.marks.find? fun k => (Token.fixed k).text.toList.isPrefixOf cs

/-- Whether the text begins with a character of a class. -/
def startsWith (p : Char → Bool) (cs : List Char) : Bool := cs.head?.any p

/-- Reads the token whose first character is `c` and which the text `cs` may go on with. -/
def cut (c : Char) (cs : List Char) : Cut :=
  let missing (closed : Bool) (e : LexError) := if closed then none else some e
  if isWhiteSpace c then ⟨.whitespace, run isWhiteSpace cs, none⟩
  else if c = '/' ∧ cs.head? = some '/' then
    ⟨.lineComment, run (fun c => c ≠ '\n' && c ≠ '\r') cs, none⟩
  else if c = '/' ∧ cs.head? = some '*' then
    let (n, closed) := blockComment (cs.drop 1)
    ⟨.blockComment, n + 1, missing closed .unterminatedComment⟩
  else if c = '@' ∧ cs.head? = some '"' then
    let (n, closed) := verbatim (cs.drop 1)
    ⟨.stringLiteral, n + 1, missing closed .unterminatedVerbatimString⟩
  else if c = '@' ∧ startsWith isIdentStart cs then ⟨.identifier, run isIdentContinue cs, none⟩
  else if isIdentStart c then
    let n := run isIdentContinue cs
    ⟨(Kind.ofKeyword? (String.ofList (c :: cs.take n))).getD .identifier, n, none⟩
  else if c.isDigit ∨ c = '.' ∧ startsWith Char.isDigit cs then
    let (kind, n) := number (c :: cs)
    ⟨kind, n - 1, none⟩
  else if c = '"' then
    let (n, closed) := quoted '"' cs
    ⟨.stringLiteral, n, missing closed .unterminatedString⟩
  else if c = '\'' then
    let (n, closed) := quoted '\'' cs
    ⟨.charLiteral, n, missing closed .unterminatedCharacter⟩
  else match mark? (c :: cs) with
    | some kind => ⟨kind, (Token.fixed kind).text.length - 1, none⟩
    | none => ⟨.error, 0, some (.unexpectedCharacter c)⟩

end Lexer

/-- The tokens of a text, each with its fault. -/
def lexChars : List Char → List Lexeme
  | [] => []
  | c :: cs =>
    let found := Lexer.cut c cs
    ⟨⟨found.kind, String.ofList (c :: cs.take found.more)⟩, found.fault⟩ ::
      lexChars (cs.drop found.more)
termination_by cs => cs.length
decreasing_by simp only [List.length_drop, List.length_cons]; omega

/-- The tokens of a text, trivia included. -/
def lex (text : String) : List Lexeme := lexChars text.toList

/-- Each token with the range it takes when the first one begins at `offset`. -/
def placeTokens (offset : Nat) : List Token → List (Token × TextRange)
  | [] => []
  | t :: ts => (t, TextRange.ofSize offset t.size) :: placeTokens (offset + t.size) ts

/-- The faults of a token sequence that begins at `offset`, each at the range of its token. -/
def lexFaults (offset : Nat) : List Lexeme → List (LexError × TextRange)
  | [] => []
  | l :: ls =>
    let rest := lexFaults (offset + l.token.size) ls
    match l.fault with
    | some e => (e, TextRange.ofSize offset l.token.size) :: rest
    | none => rest

end SharpRefactor
