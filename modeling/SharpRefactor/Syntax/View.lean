import SharpRefactor.Syntax.Node

/-!
The named parts of nodes. A part that a malformed text lacks is absent; nothing here assumes that a
node has the shape its kind promises.
-/

namespace SharpRefactor.Node

/-- The children that spell types. -/
def typeChildren (n : Node) : List Node := n.children.filter (·.kind.isType)

/-- The first child that spells a type: the type of a declaration, the target of a directive. -/
def typeChild? (n : Node) : Option Node := n.childWhere? Kind.isType

def firstChild? (n : Node) : Option Node := n.children.head?

def secondChild? (n : Node) : Option Node := n.children[1]?

def firstIdentifier? (n : Node) : Option PlacedToken := n.tokenOf? .identifier

/-! Namespaces and types. -/

def usings (n : Node) : List Node := n.childrenOf .usingDirective

def namespaces (n : Node) : List Node := n.childrenOf .namespaceDeclaration

def typeDeclarations (n : Node) : List Node := n.children.filter (·.kind.isTypeDeclaration)

def delegates (n : Node) : List Node := n.childrenOf .delegateDeclaration

/-- The name that a directive gives to its target. -/
def alias? (n : Node) : Option Node := (n.childOf? .nameEquals).bind (·.childOf? .identifierName)

def typeParameterList? (n : Node) : Option Node := n.childOf? .typeParameterList

/-- The names in a type parameter list. -/
def listedTypeParameters (n : Node) : List String :=
  (n.childrenOf .typeParameter).filterMap fun p => p.firstIdentifier?.map PlacedToken.text

/-- The names of the type parameters that a declaration introduces. -/
def typeParameterNames (n : Node) : List String :=
  (n.typeParameterList?.map listedTypeParameters).getD []

/-- The name that a declaration gives: a type and a variable are named by their first identifier,
the others by their last one, since an interface or a type may stand before it. -/
def declaredName? (n : Node) : Option PlacedToken :=
  if n.kind.isTypeDeclaration || n.kind == .variableDeclarator then n.firstIdentifier?
  else n.lastIdentifier?

/-! Members. -/

def parameterList? (n : Node) : Option Node := n.childOf? .parameterList

def parameters (n : Node) : List Node := n.childrenOf .parameter

def block? (n : Node) : Option Node := n.childOf? .block

def arrowClause? (n : Node) : Option Node := n.childOf? .arrowExpressionClause

def variables? (n : Node) : Option Node := n.childOf? .variableDeclaration

def declarators (n : Node) : List Node := n.childrenOf .variableDeclarator

def initializer? (n : Node) : Option Node := n.childOf? .equalsValueClause

/-! Names and types. -/

/-- An identifier without the sign that keeps it from being a keyword. -/
def plainName (word : String) : String := String.ofList (word.toList.dropWhile (· == '@'))

/-- The name in a simple name; empty if there is none. -/
def nameText (n : Node) : String := (n.firstIdentifier?.map fun t => plainName t.text).getD ""

def typeArgumentList? (n : Node) : Option Node := n.childOf? .typeArgumentList

def typeArguments (n : Node) : List Node := (n.typeArgumentList?.map typeChildren).getD []

/-- The keyword of a built-in type. -/
def typeKeyword? (n : Node) : Option PlacedToken := n.tokens.find? (·.kind.isPredefinedType)

/-- How many bracket pairs an array type has. -/
def rank (n : Node) : Nat := (n.childrenOf .arrayRankSpecifier).length

/-! Expressions. -/

def argumentList? (n : Node) : Option Node := n.childOf? .argumentList

def arguments (n : Node) : List Node := n.childrenOf .argument

def assignmentSign? (n : Node) : Option PlacedToken := n.tokens.find? (·.kind.isAssignment)

def literal? (n : Node) : Option PlacedToken := n.tokens.find? (!·.kind.isTrivia)

/-! The role of a name in what is around it. -/

/-- Whether a node is the first child of its parent that is a node. -/
def isFirstChild (n : Node) : Bool :=
  (n.parent?.bind firstChild?).any (·.index == n.index)

/-- Whether a node is two levels below the declaration of an event. -/
def isInEvent (n : Node) : Bool :=
  n.grandparent?.any fun g => g.kind == .eventDeclaration || g.kind == .eventFieldDeclaration

/-- The member access whose member name a node is. -/
def memberAccess? (n : Node) : Option Node :=
  n.parent?.filter fun p =>
    p.kind == .memberAccessExpression && p.secondChild?.any (·.index == n.index)

/-- Whether a node stands on the left of an assignment. -/
def isAssignmentTarget (n : Node) : Bool :=
  n.parent?.any (·.kind == .assignmentExpression) && n.isFirstChild

/-- The parents of which every child spells a type or a declared name. -/
def holdsTypes : Kind → Bool
  | .parameter | .methodDeclaration | .delegateDeclaration | .propertyDeclaration
  | .eventDeclaration | .objectCreationExpression | .typeArgumentList | .baseList
  | .usingDirective | .nameEquals | .namespaceDeclaration | .explicitInterfaceSpecifier
  | .qualifiedName | .arrayType => true
  | _ => false

/-- Whether the grammar asks for a type, not for an expression, where a node stands. -/
def isTypeSyntax (n : Node) : Bool :=
  match n.parent? with
  | none => false
  | some p =>
    holdsTypes p.kind ||
      ((p.kind == .variableDeclaration || p.kind == .castExpression) && n.isFirstChild)

end SharpRefactor.Node
