import SharpRefactor.Types.Declare
import SharpRefactor.Types.Denotation

/-!
What expressions denote where they stand, and the types that their surroundings ask of them. Either
question may lead to the other: a parameter of a lambda has the type that the delegate asks for, and
that delegate may be a parameter of a method whose choice depends on other arguments. So both are
answered together, to a bounded depth; beyond it there is no answer.
-/

namespace SharpRefactor

/-- Answers to both questions about nodes. -/
structure Judge where
  denotes : Node → Option Denotation
  /-- The type that the surroundings of an expression convert it to. -/
  target : Node → Option Ty

namespace Judge

/-- The type of an expression that denotes a value. -/
def valueType (j : Judge) (n : Node) : Option Ty :=
  match j.denotes n with
  | some (.value type) => some type
  | _ => none

end Judge

namespace Node

/-- The expressions in an argument list. -/
def argumentExpressions (list : Node) : List Node := list.arguments.filterMap firstChild?

/-- The kind of the first significant token among the children. -/
def sign? (n : Node) : Option Kind := (n.tokens.find? (!·.kind.isTrivia)).map PlacedToken.kind

/-- What an accessor is for: `get`, `set` and so on. -/
def accessorWord? (n : Node) : Option String := n.firstIdentifier?.map PlacedToken.text

/-- The parameters and the body of a function without a name. -/
def functionParts? (n : Node) : Option (List Node × Node) :=
  match n.kind with
  | .simpleLambdaExpression => n.secondChild?.map ((n.childOf? .parameter).toList, ·)
  | .parenthesizedLambdaExpression => do
    let list ← n.parameterList?
    return (list.parameters, ← n.secondChild?)
  | .anonymousMethodExpression =>
    n.block?.map (((n.parameterList?.map parameters).getD []), ·)
  | _ => none

/-- Whether a declaration has a name. -/
def declares (name : String) (n : Node) : Bool := n.declaredWord? == some name

/-- Leaves the parentheses around an expression. -/
def unparenthesize (p : Place) : List Place → Node
  | [] => ⟨p, []⟩
  | q :: qs => if q.kind == .parenthesizedExpression then unparenthesize q qs else ⟨p, q :: qs⟩

/-- The member access whose member name a simple name is. -/
def memberAccessOfName? (n : Node) : Option Node :=
  if n.kind == .identifierName || n.kind == .genericName then n.memberAccess? else none

/-- The name of the built-in type of a literal. -/
def literalTypeName? (literal : PlacedToken) : Option String :=
  let text := literal.text.toList.map Char.toLower
  let ends (suffix : String) : Bool := suffix.toList.isSuffixOf text
  match literal.kind with
  | .intLiteral =>
    some (if ends "ul" || ends "lu" then "UInt64" else if ends "l" then "Int64"
      else if ends "u" then "UInt32" else "Int32")
  | .realLiteral => some (if ends "f" then "Single" else if ends "m" then "Decimal" else "Double")
  | .charLiteral => some "Char"
  | .stringLiteral => some "String"
  | .trueKw | .falseKw => some "Boolean"
  | _ => none

end Node

namespace Table

/-! ### Names -/

/-- The type of a local variable, if a declaration statement declares one of that name. -/
def localType? (t : Table) (j : Judge) (name : String) (statement : Node) : Option Ty := do
  let declaration ← statement.variables?
  let declarator ← declaration.declarators.find? (·.declares name)
  let type ← declaration.declaredType?
  match t.resolve (.around statement) type with
  | some resolved => some resolved
  | none =>
    if type.isVar then j.valueType (← (← declarator.initializer?).firstChild?) else none

/-- The type of a parameter of a function without a name, for a name read in its body. -/
def functionParameter? (t : Table) (j : Judge) (name : String) (offset : Nat) (function : Node) :
    Option Ty := do
  let (parameters, body) ← function.functionParts?
  if !body.range.contains offset then none
  let i ← parameters.findIdx? (·.declares name)
  let parameter ← parameters[i]?
  match parameter.declaredType? with
  | some type => t.resolve (.around function) type
  | none =>
    let signature ← t.signatureOf? (← j.target function)
    return (← signature.parameters[i]?).type

/-- The type of the value that an accessor is given. -/
def accessorValue? (t : Table) (accessor : Node) : Option Ty := do
  let word ← accessor.accessorWord?
  if ¬ ["set", "add", "remove"].contains word then none
  let owner ← accessor.grandparent?
  t.resolve (.around owner) (← owner.declaredType?)

/-- The local declarations in a block that end before an offset, the last one first. -/
def earlierLocals (offset : Nat) (block : Node) : List Node :=
  (block.children.filter fun s =>
    s.kind == .localDeclarationStatement && s.stop ≤ offset).reverse

/-- The type of a local variable or parameter, searched from the inside out through the nodes around
a name. -/
def localIn (t : Table) (j : Judge) (name : String) (offset : Nat) : List Node → Option Ty
  | [] => none
  | a :: outer =>
    match a.kind with
    | .block =>
      (earlierLocals offset a).findSome? (t.localType? j name) <|> localIn t j name offset outer
    | .simpleLambdaExpression | .parenthesizedLambdaExpression | .anonymousMethodExpression =>
      t.functionParameter? j name offset a <|> localIn t j name offset outer
    | .methodDeclaration | .constructorDeclaration =>
      match a.parameterList? with
      | none => none
      | some list =>
        match list.parameters.find? (·.declares name) with
        | some parameter => parameter.declaredType?.bind (t.resolve (.around a))
        | none => localIn t j name offset outer
    | .accessorDeclaration =>
      (if name = "value" then t.accessorValue? a else none) <|> localIn t j name offset outer
    | .classDeclaration | .structDeclaration | .interfaceDeclaration => none
    | _ => localIn t j name offset outer

/-- The type of the local variable or parameter that a name means. -/
def localOf? (t : Table) (j : Judge) (n : Node) (name : String) : Option Ty :=
  t.localIn j name n.start n.ancestors.tail

/-- What a name denotes that is not local: a member of a type around it, a type, or a namespace. -/
def globalOf? (t : Table) (s : Scope) (name : String) (typeArguments : List Ty) :
    Option Denotation :=
  let member (k : TypeKey) :=
    (t.find? k).bind fun d => t.memberOf d.selfType name typeArguments none
  s.types.findSome? member <|>
    (t.lookup s name typeArguments).map .type <|>
    ((s.namespaces.map fun space => Dotted.join space.name name).find? t.hasNamespace).map .space

/-- A simple name with its type arguments. -/
def simpleName? (t : Table) (n : Node) : Option (String × List Ty) :=
  match n.typeSyntax with
  | .simple name => some (name, [])
  | .generic name args => (t.resolveAll (.around n) args).map (name, ·)
  | _ => none

def denotesName (t : Table) (j : Judge) (n : Node) : Option Denotation := do
  let (name, typeArguments) ← t.simpleName? n
  match if typeArguments.isEmpty then t.localOf? j n name else none with
  | some type => some (.value type)
  | none => t.globalOf? (.around n) name typeArguments

/-! ### Expressions -/

def denotesAccess (t : Table) (j : Judge) (n : Node) : Option Denotation := do
  let receiver ← n.firstChild?
  let (name, typeArguments) ← t.simpleName? (← n.secondChild?)
  match ← j.denotes receiver with
  | .value type => t.memberOf type name typeArguments (some false)
  | .type type =>
    (type.fullName?.bind fun path => t.instance? path name typeArguments).map .type <|>
      t.memberOf type name typeArguments (some true)
  | .space space =>
    (t.instance? space name typeArguments).map .type <|>
      (let path := Dotted.join space name
       if typeArguments.isEmpty && t.hasNamespace path then some (.space path) else none)
  | .methods _ | .function => none

def denotesCall (t : Table) (j : Judge) (n : Node) : Option Denotation := do
  let arguments := (← n.argumentList?).argumentExpressions
  match ← j.denotes (← n.firstChild?) with
  | .methods group =>
    let (method, b) ← group.pick? (arguments.map j.valueType)
    return .value (method.returns.substitute b)
  | .value type => return .value (← t.signatureOf? type).returns
  | _ => none

/-- The operators whose result is a truth value. -/
def isComparison : Kind → Bool
  | .eqEq | .bangEq | .less | .lessEq | .greater | .greaterEq | .ampAmp | .pipePipe => true
  | _ => false

/-- The type of an operation: that of the left operand, except that adding to a string gives a
string. -/
def binaryType? (j : Judge) (n : Node) : Option Ty := do
  let op ← n.sign?
  if isComparison op then return .bool
  let left := n.firstChild?.bind j.valueType
  if op == .plus then
    let right := n.secondChild?.bind j.valueType
    if left == some .string || right == some .string then return .string
  left

/-- What an expression denotes, questions about other nodes being put to `j`. -/
def denotesWith (t : Table) (j : Judge) (n : Node) : Option Denotation :=
  match n.kind with
  | .literalExpression => ((n.literal?.bind Node.literalTypeName?).map Ty.system).map .value
  | .thisExpression => do
    let d ← t.find? (← (Scope.around n).types.head?)
    return .value d.selfType
  | .identifierName | .genericName =>
    if n.isTypeSyntax then (t.resolveNode n).map .type else t.denotesName j n
  | .predefinedType | .qualifiedName | .arrayType => (t.resolveNode n).map .type
  | .memberAccessExpression => t.denotesAccess j n
  | .invocationExpression => t.denotesCall j n
  | .objectCreationExpression => (n.declaredType?.bind (t.resolve (.around n))).map .value
  | .castExpression =>
    ((n.firstChild?.filter (·.kind.isType)).bind fun type =>
      t.resolve (.around n) type.typeSyntax).map .value
  | .parenthesizedExpression => n.firstChild?.bind j.denotes
  | .assignmentExpression | .postfixUnaryExpression =>
    (n.firstChild?.bind j.valueType).map .value
  | .binaryExpression => (binaryType? j n).map .value
  | .prefixUnaryExpression =>
    if n.sign? == some .bang then some (.value .bool)
    else (n.firstChild?.bind j.valueType).map .value
  | .anonymousMethodExpression | .simpleLambdaExpression | .parenthesizedLambdaExpression =>
    some .function
  | _ => none

/-! ### Conversions -/

/-- The declared type of what an initial value belongs to. -/
def initializerTarget? (t : Table) (clause : Node) : Option Ty := do
  let owner ← clause.parent?
  let type ← match owner.kind with
    | .variableDeclarator => do
      let declaration ← owner.parent?
      if declaration.kind == .variableDeclaration then declaration.declaredType? else none
    | .parameter | .propertyDeclaration => owner.declaredType?
    | _ => none
  t.resolve (.around owner) type

/-- The types that the methods of a group ask of the argument number `i`, the others being known by
their own types. -/
def argumentTargets (j : Judge) (g : MethodGroup) (arguments : List Node) (i : Nat) : List Ty :=
  (g.candidates.filter (·.takes arguments.length)).foldl (fun targets c =>
    let observed := (c.method.parameters.zip arguments).zipIdx.filterMap fun ((p, a), k) =>
      if k = i then none else (j.valueType a).map (p.type, ·)
    match c.bindings? g.typeArguments observed, c.method.parameters[i]? with
    | some b, some p =>
      let type := p.type.substitute b
      if type.mentions c.method.typeParameters || targets.contains type then targets
      else targets ++ [type]
    | _, _ => targets) []

/-- The type that a call of a group asks of its argument number `i`; of several, the first that the
argument can be converted to. -/
def groupTarget? (t : Table) (j : Judge) (g : MethodGroup) (arguments : List Node) (i : Nat)
    (argument : Node) : Option Ty :=
  match argumentTargets j g arguments i with
  | [] => none
  | [type] => some type
  | types => (j.denotes argument).bind fun own => types.find? (t.converts own)

/-- The type that the constructors of a type ask of the argument number `i`. -/
def constructorTarget? (t : Table) (type : Ty) (count i : Nat) : Option Ty := do
  let d ← t.find? (← TypeKey.of? type)
  if d.form == .delegateForm then
    if count = 1 then some type else none
  else
    let parameters ← d.contents.constructors.find? (·.length == count)
    return (← parameters[i]?).type.substitute (d.bind type)

/-- The type that a call or a creation asks of one of its arguments. -/
def argumentTarget? (t : Table) (j : Judge) (argument expression : Node) : Option Ty := do
  let list ← argument.parent?
  let arguments := list.argumentExpressions
  let i ← list.arguments.findIdx? (·.index == argument.index)
  let owner ← list.parent?
  match owner.kind with
  | .invocationExpression =>
    match ← j.denotes (← owner.firstChild?) with
    | .methods group => t.groupTarget? j group arguments i expression
    | .value type => return (← (← t.signatureOf? type).parameters[i]?).type
    | _ => none
  | .objectCreationExpression =>
    let type ← t.resolve (.around owner) (← owner.declaredType?)
    t.constructorTarget? type arguments.length i
  | _ => none

/-- The type that the function around a returned value returns, searched from the inside out. -/
def returnIn (t : Table) (j : Judge) : List Node → Option Ty
  | [] => none
  | a :: outer =>
    match a.kind with
    | .methodDeclaration | .propertyDeclaration => a.declaredType?.bind (t.resolve (.around a))
    | .simpleLambdaExpression | .parenthesizedLambdaExpression | .anonymousMethodExpression =>
      ((j.target a).bind t.signatureOf?).map (·.returns)
    | .accessorDeclaration =>
      if a.accessorWord? == some "get" then returnIn t j outer else none
    | .constructorDeclaration | .eventDeclaration | .classDeclaration | .structDeclaration
    | .interfaceDeclaration => none
    | _ => returnIn t j outer

/-- Whether a child is the second one of its parent. -/
def isSecond (parent child : Node) : Bool := parent.secondChild?.any (·.index == child.index)

/-- The type that the surroundings of an expression ask for, questions about other nodes being put
to `j`. -/
def targetWith (t : Table) (j : Judge) (n : Node) : Option Ty := do
  let expression := Node.unparenthesize n.place n.above
  let parent ← expression.parent?
  let type ← match parent.kind with
    | .equalsValueClause => t.initializerTarget? parent
    | .assignmentExpression =>
      if isSecond parent expression then j.valueType (← parent.firstChild?) else none
    | .argument => t.argumentTarget? j parent expression
    | .returnStatement | .arrowExpressionClause => t.returnIn j parent.ancestors
    | .simpleLambdaExpression | .parenthesizedLambdaExpression =>
      if isSecond parent expression then
        ((j.target parent).bind t.signatureOf?).map (·.returns)
      else none
    | .castExpression =>
      if isSecond parent expression then
        (parent.firstChild?.filter (·.kind.isType)).bind fun type =>
          t.resolve (.around parent) type.typeSyntax
      else none
    | _ => none
  if type.isVoid then none else some type

/-! ### Answers -/

/-- Both answers, found in at most `n` steps one inside the other. -/
def judge (t : Table) : Nat → Judge
  | 0 => ⟨fun _ => none, fun _ => none⟩
  | n + 1 => ⟨t.denotesWith (t.judge n), t.targetWith (t.judge n)⟩

/-- How deep questions may lead to one another. -/
def maxDepth : Nat := 49

/-- What a node denotes. -/
def denotes (t : Table) (n : Node) : Option Denotation := (t.judge maxDepth).denotes n

/-- The type that a node is converted to where it stands. -/
def target (t : Table) (n : Node) : Option Ty := (t.judge maxDepth).target n

/-- The type of a node: for methods and functions the type they are converted to, otherwise the type
of the value, or the type that is spelt. -/
def typeOf? (t : Table) (n : Node) : Option Ty :=
  let n := n.memberAccessOfName?.getD n
  match t.denotes n with
  | some (.value type) | some (.type type) => some type
  | some (.methods g) => (t.target n).filter (t.converts (.methods g))
  | some .function => (t.target n).filter (t.converts .function)
  | some (.space _) | none => none

end Table
end SharpRefactor
