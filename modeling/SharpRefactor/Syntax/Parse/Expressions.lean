import SharpRefactor.Syntax.Parse.Types

/-!
Grammar of expressions. Binary operators group by binding powers: an operator takes an operand on
its left if it binds at least as tightly as the surrounding expression asks, and reads its right
operand at its own right power. Assignment groups to the right, every other operator to the left.
-/

namespace SharpRefactor.Parse

/-- The left and right binding power of a binary operator. -/
def bindingPower? : Kind → Option (Nat × Nat)
  | .pipePipe => some (3, 4)
  | .ampAmp => some (5, 6)
  | .pipe => some (7, 8)
  | .caret => some (9, 10)
  | .amp => some (11, 12)
  | .eqEq | .bangEq => some (13, 14)
  | .less | .lessEq | .greater | .greaterEq => some (15, 16)
  | .plus | .minus => some (17, 18)
  | .star | .slash | .percent => some (19, 20)
  | _ => none

/-- The binding power of an assignment, below that of every binary operator. -/
def assignmentPower : Nat := 1

/-- The marks that stand in front of an operand. -/
def isSign : Kind → Bool
  | .bang | .minus | .plus | .tilde | .plusPlus | .minusMinus => true
  | _ => false

/-- The tokens with which an expression can begin. -/
def beginsExpression (k : Kind) : Bool :=
  k == .identifier || k.isLiteral || k.isPredefinedType || isSign k ||
    k ∈ [Kind.thisKw, .newKw, .delegateKw, .lParen]

def expression (power : Nat) : Parse Unit :=
  group do
    inner .unary
    inner (.operators power)

def operators (power : Nat) : Parse Unit := do
  let op ← current
  if op.isAssignment then
    if power ≤ assignmentPower then
      wrap .assignmentExpression do
        bump
        inner (.expression assignmentPower)
      inner (.operators power)
  else
    match bindingPower? op with
    | none => pure ()
    | some (left, right) =>
      if power ≤ left then
        wrap .binaryExpression do
          bump
          inner (.expression right)
        inner (.operators power)

/-- A name in an expression: a bracketed list after it counts as type arguments only if what follows
cannot go on with a comparison. -/
def nameExpression : Parse Unit := do
  if ← ahead .genericExpression then genericName else identifierName

def argumentList : Parse Unit :=
  node .argumentList do
    require .lParen .leftParen
    inner .arguments
    require .rParen .rightParen

def arguments : Parse Unit := do
  if !(← atKind .rParen) && !(← atKind .eof) then
    node .argument (inner (.expression 0))
    if ← atKind .comma then
      bump
      inner .arguments

def lambdaBody : Parse Unit := do
  if ← atKind .lBrace then inner .block else inner (.expression 0)

def parameterList : Parse Unit :=
  node .parameterList do
    require .lParen .leftParen
    inner .parameters
    require .rParen .rightParen

/-- The sign of a value and the value. -/
def equalsValue : Parse Unit :=
  node .equalsValueClause do
    bump
    inner (.expression 0)

/-- A parameter; in a lambda its type may be missing. -/
def parameter : Parse Unit :=
  node .parameter do
    if (← atIdentifier) && ((← secondIs .comma) || (← secondIs .rParen)) then
      bump
    else if ← atTypeStart then
      inner .type
      require .identifier .parameterName
      if ← atKind .eq then equalsValue
    else
      missing .parameter

def parameters : Parse Unit := do
  if !(← atKind .rParen) && !(← atKind .eof) then
    parameter
    if ← atKind .comma then
      bump
      inner .parameters

def objectCreation : Parse Unit :=
  node .objectCreationExpression do
    bump
    typeOr .typeAfterNew
    if ← atKind .lParen then argumentList else missing .leftParen

def anonymousMethod : Parse Unit :=
  node .anonymousMethodExpression do
    bump
    if ← atKind .lParen then parameterList
    inner .block

def simpleLambda : Parse Unit :=
  node .simpleLambdaExpression do
    node .parameter bump
    bump
    lambdaBody

def parenthesizedLambda : Parse Unit :=
  node .parenthesizedLambdaExpression do
    parameterList
    require .fatArrow .arrow
    lambdaBody

def parenthesized : Parse Unit :=
  node .parenthesizedExpression do
    bump
    inner (.expression 0)
    require .rParen .rightParen

/-- The marks that an operand may be missing in front of; they are left for what is around it. -/
def endsOperand (k : Kind) : Bool := k ∈ [Kind.semicolon, .rParen, .rBrace, .comma, .eof]

def malformedOperand (k : Kind) : Parse Unit :=
  node .error do
    missing .expression
    if !endsOperand k then bump

/-- An operand without signs before it or suffixes after it. -/
def operand : Parse Unit := do
  let k ← current
  if k.isLiteral then node .literalExpression bump
  else if k.isPredefinedType then node .predefinedType bump
  else match k with
    | .thisKw => node .thisExpression bump
    | .newKw => objectCreation
    | .delegateKw => anonymousMethod
    | .identifier => if ← secondIs .fatArrow then simpleLambda else nameExpression
    | .lParen =>
      if ← ahead .parenthesizedLambda then parenthesizedLambda
      else parenthesized
    | _ => malformedOperand k

def prefixed : Parse Unit :=
  node .prefixUnaryExpression do
    bump
    inner .unary

def cast : Parse Unit :=
  node .castExpression do
    bump
    inner .type
    require .rParen .rightParen
    inner .unary

def unary : Parse Unit :=
  group do
    let k ← current
    if isSign k then prefixed
    else if k == .lParen && (← ahead .cast) then cast
    else
      operand
      inner .suffixes

def suffixes : Parse Unit := do
  match ← current with
  | .dot =>
    wrap .memberAccessExpression do
      bump
      if ← atIdentifier then nameExpression else missing .nameAfterDot
    inner .suffixes
  | .lParen =>
    wrap .invocationExpression (argumentList)
    inner .suffixes
  | .plusPlus | .minusMinus =>
    wrap .postfixUnaryExpression bump
    inner .suffixes
  | _ => pure ()

end SharpRefactor.Parse
