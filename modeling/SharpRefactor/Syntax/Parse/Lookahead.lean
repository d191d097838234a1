import SharpRefactor.Syntax.Token

/-!
Looking ahead over tokens without reading them. Trivia never counts: every step of a scan goes to
the next significant token. Scans that nest are bounded by the number of significant tokens left, so
two texts that differ in trivia only are scanned alike.
-/

namespace SharpRefactor.Lookahead

/-- The kind of the next significant token and what follows it. -/
def next : List Token → Kind × List Token
  | [] => (.eof, [])
  | t :: ts => if t.isTrivia then next ts else (t.kind, ts)

/-- The kind of the next significant token. -/
def nextKind (ts : List Token) : Kind := (next ts).1

/-- The kind of a significant token, counted from zero. -/
def nth? (n : Nat) : List Token → Option Kind
  | [] => none
  | t :: ts =>
    if t.isTrivia then nth? n ts
    else match n with
      | 0 => some t.kind
      | n + 1 => nth? n ts

/-- How many tokens are left, trivia not counted. -/
def significant (ts : List Token) : Nat := ts.countP (!·.isTrivia)

/-- Bracket pairs of array ranks. -/
def skipRanks : Nat → List Token → List Token
  | 0, ts => ts
  | n + 1, ts =>
    match next ts with
    | (.lBracket, ts₁) =>
      match next ts₁ with
      | (.rBracket, ts₂) => skipRanks n ts₂
      | _ => ts
    | _ => ts

mutual

/-- What follows a type, if the tokens begin with one. -/
def scanType : Nat → List Token → Option (List Token)
  | 0, _ => none
  | n + 1, ts =>
    match next ts with
    | (.identifier, rest) => some (skipRanks n (scanQualifiers n (scanArgumentsOf n rest)))
    | (k, rest) => if k.isPredefinedType then some (skipRanks n rest) else none

/-- What follows a name whose identifier has just been passed: a list of type arguments goes with
it if it is complete. -/
def scanArgumentsOf : Nat → List Token → List Token
  | 0, ts => ts
  | n + 1, ts =>
    match next ts with
    | (.less, rest) => (scanArguments n rest).getD ts
    | _ => ts

/-- What follows the dotted continuation of a name. -/
def scanQualifiers : Nat → List Token → List Token
  | 0, ts => ts
  | n + 1, ts =>
    match next ts with
    | (.dot, ts₁) =>
      match next ts₁ with
      | (.identifier, ts₂) => scanQualifiers n (scanArgumentsOf n ts₂)
      | _ => ts
    | _ => ts

/-- What follows the inside of a type argument list and its closing bracket. -/
def scanArguments : Nat → List Token → Option (List Token)
  | 0, _ => none
  | n + 1, ts =>
    match scanType n ts with
    | none => none
    | some rest =>
      match next rest with
      | (.comma, ts₁) => scanArguments n ts₁
      | (.greater, ts₁) => some ts₁
      | _ => none

end

/-- Enough steps for any scan of some tokens. -/
def steps (ts : List Token) : Nat := 4 * significant ts + 4

/-- What follows a type at the front of some tokens. -/
def afterType? (ts : List Token) : Option (List Token) := scanType (steps ts) ts

/-- What follows the type argument list of the name at the front of some tokens. -/
def afterTypeArguments? (ts : List Token) : Option (List Token) :=
  match next (next ts).2 with
  | (.less, rest) => scanArguments (steps rest) rest
  | _ => none

/-- What follows the bracket that closes the innermost of `depth` open ones. A brace or a semicolon
cannot stand between parentheses. -/
def afterClosing? : Nat → List Token → Option (List Token)
  | _, [] => none
  | depth, t :: ts =>
    match t.kind with
    | .lParen => afterClosing? (depth + 1) ts
    | .rParen =>
      match depth with
      | 0 => none
      | 1 => some ts
      | d + 2 => afterClosing? (d + 1) ts
    | .lBrace | .rBrace | .semicolon => none
    | _ => afterClosing? depth ts

/-- Whether a local variable is declared here: constants marks, a type, a name, and then what can
follow the name of a variable. -/
def atLocalDeclaration (ts : List Token) : Bool :=
  match afterType? (ts.dropWhile fun t => t.isTrivia || t.kind == .constKw) with
  | none => false
  | some rest =>
    match next rest with
    | (.identifier, rest) => nextKind rest ∈ [Kind.eq, .semicolon, .comma]
    | _ => false

/-- The tokens that can begin the operand of a cast. A sign cannot: after a name in parentheses it
adds or subtracts. -/
def beginsCastOperand (k : Kind) : Bool :=
  k == .identifier || k.isLiteral ||
    k ∈ [Kind.thisKw, .newKw, .lParen, .delegateKw, .bang, .tilde]

/-- Whether the parenthesis at the front opens a cast. -/
def atCast (ts : List Token) : Bool :=
  match afterType? (next ts).2 with
  | none => false
  | some rest =>
    match next rest with
    | (.rParen, rest) => beginsCastOperand (nextKind rest)
    | _ => false

/-- Whether the parenthesis at the front opens the parameters of a lambda. -/
def atParenthesizedLambda (ts : List Token) : Bool :=
  match afterClosing? 0 ts with
  | none => false
  | some rest => nextKind rest == .fatArrow

/-- The tokens after which a bracketed list in an expression is a type argument list and not a
comparison. -/
def followsTypeArguments (k : Kind) : Bool :=
  k ∈ [Kind.lParen, .rParen, .rBracket, .rBrace, .colon, .semicolon, .comma, .dot, .question,
    .eqEq, .bangEq, .eof]

/-- Whether the name at the front of an expression has type arguments. -/
def atGenericExpression (ts : List Token) : Bool :=
  match afterTypeArguments? ts with
  | none => false
  | some rest => followsTypeArguments (nextKind rest)

/-- Whether the name at the front of a type has type arguments. -/
def atGenericType (ts : List Token) : Bool := (afterTypeArguments? ts).isSome

/-- What the grammar asks about the tokens ahead where the next one or two do not decide. -/
inductive Question where
  | localDeclaration | cast | parenthesizedLambda | genericExpression | genericType
  deriving DecidableEq, Repr

def Question.ask : Question → List Token → Bool
  | .localDeclaration => atLocalDeclaration
  | .cast => atCast
  | .parenthesizedLambda => atParenthesizedLambda
  | .genericExpression => atGenericExpression
  | .genericType => atGenericType

end SharpRefactor.Lookahead
