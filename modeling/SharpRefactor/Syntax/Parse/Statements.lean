import SharpRefactor.Syntax.Parse.Expressions

/-!
Grammar of statements and of the declarators that locals, fields and events share.
-/

namespace SharpRefactor.Parse

def block : Parse Unit :=
  node .block do
    require .lBrace .leftBrace
    inner .statements
    require .rBrace .rightBrace

def statements : Parse Unit := do
  if !(← atKind .rBrace) && !(← atKind .eof) then
    inner .statement
    inner .statements

def declarators : Parse Unit := do
  node .variableDeclarator do
    require .identifier .variableName
    if ← atKind .eq then equalsValue
  if ← atKind .comma then
    bump
    inner .declarators

def returnStatement : Parse Unit :=
  node .returnStatement do
    bump
    if !(← atKind .semicolon) then inner (.expression 0)
    require .semicolon .semicolonAfterReturn

def elseClause : Parse Unit :=
  node .elseClause do
    bump
    inner .statement

/-- A condition with its branches; an `else` goes with the condition read last. -/
def ifStatement : Parse Unit :=
  node .ifStatement do
    bump
    require .lParen .leftParenAfterIf
    inner (.expression 0)
    require .rParen .rightParen
    inner .statement
    if ← atKind .elseKw then elseClause

def localDeclaration : Parse Unit :=
  node .localDeclarationStatement do
    modifiers
    node .variableDeclaration do
      inner .type
      inner .declarators
    require .semicolon .semicolonAfterLocal

def expressionStatement : Parse Unit :=
  node .expressionStatement do
    inner (.expression 0)
    require .semicolon .semicolonAfterExpression

def malformedStatement : Parse Unit :=
  node .error do
    missing .statement
    bump

def statement : Parse Unit := do
  let k ← current
  match k with
  | .lBrace => inner .block
  | .semicolon => node .emptyStatement bump
  | .returnKw => returnStatement
  | .ifKw => ifStatement
  | _ =>
    if ← ahead .localDeclaration then localDeclaration
    else if beginsExpression k then expressionStatement
    else malformedStatement

end SharpRefactor.Parse
