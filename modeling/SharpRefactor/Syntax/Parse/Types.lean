import SharpRefactor.Syntax.Parse.Basic

/-!
Grammar of types and of the names in them.
-/

namespace SharpRefactor.Parse

def identifierName : Parse Unit := node .identifierName (require .identifier .identifier)

/-- A name with its type arguments. -/
def genericName : Parse Unit :=
  node .genericName do
    bump
    node .typeArgumentList do
      bump
      inner .typeArguments
      require .greater .rightAngle

def typeArguments : Parse Unit := do
  if ← atTypeStart then
    inner .type
    if ← atKind .comma then
      bump
      inner .typeArguments
  else
    missing .typeArgument

/-- A name in a type: it has type arguments if a complete list of them follows. -/
def simpleTypeName : Parse Unit := do
  if ← ahead .genericType then genericName else identifierName

def qualifiers : Parse Unit := do
  if (← atKind .dot) && (← secondIs .identifier) then
    wrap .qualifiedName do
      bump
      simpleTypeName
    inner .qualifiers

def atRank : Parse Bool := do
  return (← atKind .lBracket) && (← secondIs .rBracket)

def ranks : Parse Unit := do
  if ← atRank then
    node .arrayRankSpecifier do
      bump
      bump
    inner .ranks

/-- The ranks of an array type whose element type is on the open level, if there are any. -/
def arrayOf : Parse Unit := do
  if ← atRank then wrap .arrayType (inner .ranks)

def type : Parse Unit :=
  group do
    if (← current).isPredefinedType then
      node .predefinedType bump
      arrayOf
    else if ← atIdentifier then
      simpleTypeName
      inner .qualifiers
      arrayOf
    else
      missing .type

/-- A type, or an objection that names what the type is for. -/
def typeOr (what : Expected) : Parse Unit := do
  if ← atTypeStart then inner .type else missing what

end SharpRefactor.Parse
