import SharpRefactor.Syntax.Parse.Statements

/-!
Grammar of namespaces, types and their members.
-/

namespace SharpRefactor.Parse

def typeParameters : Parse Unit := do
  node .typeParameter (require .identifier .typeParameterName)
  if ← atKind .comma then
    bump
    inner .typeParameters

/-- The type parameters of a declaration, if it has any. -/
def typeParameterList? : Parse Unit := do
  if ← atKind .less then
    node .typeParameterList do
      bump
      inner .typeParameters
      require .greater .rightAngle

def baseTypes : Parse Unit := do
  if ← atTypeStart then
    inner .type
    if ← atKind .comma then
      bump
      inner .baseTypes
  else
    missing .baseType

/-- A class, structure or interface whose modifiers are on the open level. -/
def typeWithMembers (k : Kind) : Parse Unit :=
  wrap k do
    bump
    require .identifier .typeName
    typeParameterList?
    if ← atKind .colon then
      node .baseList do
        bump
        inner .baseTypes
    if ← expect .lBrace .typeBody then
      inner .members
      require .rBrace .endOfType
    if ← atKind .semicolon then bump

def parametersOfDeclaration : Parse Unit := do
  if ← atKind .lParen then parameterList else missing .leftParen

/-- A delegate whose modifiers are on the open level. -/
def delegateDeclaration : Parse Unit :=
  wrap .delegateDeclaration do
    bump
    typeOr .returnType
    require .identifier .delegateName
    typeParameterList?
    parametersOfDeclaration
    require .semicolon .semicolonAfterDelegate

def arrowClause : Parse Unit :=
  node .arrowExpressionClause do
    bump
    inner (.expression 0)

/-- A body in one of its three forms: a block, an expression, or none. -/
def body (afterExpression none : Expected) : Parse Unit := do
  match ← current with
  | .lBrace => inner .block
  | .fatArrow =>
    arrowClause
    require .semicolon afterExpression
  | _ => require .semicolon none

def methodBody : Parse Unit := body .semicolonAfterBody .methodBody

/-- The rest of a method whose modifiers and type are on the open level. -/
def method : Parse Unit :=
  wrap .methodDeclaration do
    bump
    typeParameterList?
    parametersOfDeclaration
    methodBody

def constructor : Parse Unit :=
  wrap .constructorDeclaration do
    bump
    parameterList
    methodBody

def accessor : Parse Unit := do
  if !(← atIdentifier) && !(← current).isModifier then
    node .error do
      missing .accessor
      bump
  else
    node .accessorDeclaration do
      modifiers
      require .identifier .accessorKeyword
      body .semicolon .accessorBody

def accessors : Parse Unit := do
  if !(← atKind .rBrace) && !(← atKind .eof) then
    accessor
    inner .accessors

def accessorList : Parse Unit :=
  node .accessorList do
    if ← expect .lBrace .leftBrace then
      inner .accessors
      require .rBrace .endOfAccessors

/-- The rest of a property whose modifiers and type are on the open level. -/
def property : Parse Unit :=
  wrap .propertyDeclaration do
    bump
    if ← atKind .fatArrow then
      arrowClause
      require .semicolon .semicolonAfterBody
    else
      accessorList
      if ← atKind .eq then
        equalsValue
        require .semicolon .semicolonAfterInitializer

/-- The name of the interface that an event is declared for, with its dot. -/
def interfaceSpecifier : Parse Unit :=
  node .explicitInterfaceSpecifier do
    identifierName
    bump

/-- The type of an event, and its declarators unless accessors follow the name; says whether they
do. -/
def eventHead : Parse Bool :=
  group do
    typeOr .eventType
    if (← atIdentifier) && ((← secondIs .lBrace) || (← secondIs .dot)) then
      return true
    else
      wrap .variableDeclaration (inner .declarators)
      return false

/-- An event whose modifiers are on the open level. -/
def event : Parse Unit := do
  bump
  if ← eventHead then
    wrap .eventDeclaration do
      if ← secondIs .dot then interfaceSpecifier
      require .identifier .eventName
      accessorList
  else
    wrap .eventFieldDeclaration (require .semicolon .semicolonAfterEvent)

/-- What a member with a type in front turns out to be. -/
inductive TypedMember where
  | nameless | method | property | field

/-- The type of a member, and its declarators if it is a field; says what the member is. -/
def typedHead : Parse TypedMember :=
  group do
    inner .type
    if !(← atIdentifier) then return .nameless
    match ← nth? 1 with
    | some .lParen | some .less => return .method
    | some .lBrace | some .fatArrow => return .property
    | _ =>
      wrap .variableDeclaration (inner .declarators)
      return .field

/-- A member that begins with its type, its modifiers being on the open level. -/
def typedMember : Parse Unit := do
  match ← typedHead with
  | .nameless =>
    wrap .error do
      missing .memberName
      skipMember
  | .method => method
  | .property => property
  | .field => wrap .fieldDeclaration (require .semicolon .semicolonAfterField)

def malformedMember : Parse Unit :=
  wrap .error do
    missing .member
    if !(← atKind .rBrace) then bump
    skipMember

/-- The declaration that a keyword begins in a type or in a namespace. -/
def typeDeclarationOf? : Kind → Option (Parse Unit)
  | .classKw => some (typeWithMembers .classDeclaration)
  | .structKw => some (typeWithMembers .structDeclaration)
  | .interfaceKw => some (typeWithMembers .interfaceDeclaration)
  | .delegateKw => some (delegateDeclaration)
  | _ => none

def member : Parse Unit :=
  group do
    modifiers
    let k ← current
    match typeDeclarationOf? k with
    | some declaration => declaration
    | none =>
      if k == .eventKw then event
      else if k == .identifier && (← secondIs .lParen) then constructor
      else if ← atTypeStart then typedMember
      else malformedMember

def members : Parse Unit := do
  if !(← atKind .rBrace) && !(← atKind .eof) then
    member
    inner .members

def typeDeclaration : Parse Unit :=
  group do
    modifiers
    match typeDeclarationOf? (← current) with
    | some declaration => declaration
    | none =>
      wrap .error do
        missing .typeDeclaration
        skipMember

def usingDirective : Parse Unit :=
  node .usingDirective do
    require .usingKw .usingKeyword
    if (← atIdentifier) && (← secondIs .eq) then
      node .nameEquals do
        identifierName
        bump
    typeOr .namespaceOrType
    require .semicolon .semicolonAfterUsing

def usings : Parse Unit := do
  if ← atKind .usingKw then
    usingDirective
    inner .usings

/-- A namespace: in braces, or for the rest of the file after a semicolon. -/
def namespaceDeclaration : Parse Unit :=
  node .namespaceDeclaration do
    require .namespaceKw .namespaceKeyword
    if ← atIdentifier then inner .type else missing .namespaceName
    if ← atKind .semicolon then
      bump
      inner (.namespaceBody false)
    else if ← expect .lBrace .namespaceBody then
      inner (.namespaceBody true)
      require .rBrace .endOfNamespace

def malformedTopLevel : Parse Unit :=
  node .error do
    fail .unexpectedAtTopLevel
    bump
    skipTo topLevelBoundary

def atTypeDeclaration : Parse Bool := do
  let k ← current
  return k.isModifier || k ∈ [Kind.classKw, .structKw, .interfaceKw, .delegateKw]

def namespaceMember : Parse Unit := do
  if ← atKind .namespaceKw then namespaceDeclaration
  else if ← atTypeDeclaration then typeDeclaration
  else malformedTopLevel

def namespaceMembers (braced : Bool) : Parse Unit := do
  if !(← atKind .eof) && !(braced && (← atKind .rBrace)) then
    namespaceMember
    inner (.namespaceMembers braced)

def namespaceBody (braced : Bool) : Parse Unit := do
  inner .usings
  inner (.namespaceMembers braced)

end SharpRefactor.Parse
