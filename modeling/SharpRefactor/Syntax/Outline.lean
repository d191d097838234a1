import SharpRefactor.Syntax.View

/-!
The outline of a node: its named parts in one list, for readers that do not know the kinds.
-/

namespace SharpRefactor

/-- A named part as it is shown. -/
inductive Facet where
  | node (n : Option Node)
  | nodes (ns : List Node)
  | token (t : Option PlacedToken)
  | text (s : String)
  | texts (ss : List String)
  | flag (b : Bool)
  | number (n : Nat)

namespace Node

/-- The parts that a file and a namespace share. -/
def namespaceFacets (n : Node) : List (String × Facet) :=
  [("usings", .nodes n.usings), ("namespaces", .nodes n.namespaces),
   ("types", .nodes n.typeDeclarations), ("delegates", .nodes n.delegates)]

/-- The parts of a type with members. -/
def typeFacets (n : Node) : List (String × Facet) :=
  [("kind", .text n.kind.name), ("name", .token n.declaredName?),
   ("type_parameters", .node n.typeParameterList?),
   ("methods", .nodes (n.childrenOf .methodDeclaration)),
   ("fields", .nodes (n.childrenOf .fieldDeclaration)),
   ("properties", .nodes (n.childrenOf .propertyDeclaration)),
   ("event_fields", .nodes (n.childrenOf .eventFieldDeclaration)),
   ("events", .nodes (n.childrenOf .eventDeclaration)),
   ("nested", .nodes n.typeDeclarations), ("delegates", .nodes n.delegates)]

/-- The parts of a node, for the kinds that have any. -/
def facets? (n : Node) : Option (List (String × Facet)) :=
  match n.kind with
  | .compilationUnit => some n.namespaceFacets
  | .namespaceDeclaration => some (("name", .node n.typeChild?) :: n.namespaceFacets)
  | .usingDirective =>
    some [("alias", .node (n.childOf? .nameEquals)), ("target", .node n.typeChild?)]
  | .nameEquals => some [("name", .node (n.childOf? .identifierName))]
  | .classDeclaration | .structDeclaration | .interfaceDeclaration => some n.typeFacets
  | .delegateDeclaration =>
    some [("return_type", .node n.typeChild?), ("name", .token n.declaredName?),
      ("type_parameters", .node n.typeParameterList?), ("parameters", .node n.parameterList?)]
  | .typeParameterList => some [("names", .texts n.listedTypeParameters)]
  | .methodDeclaration =>
    some [("return_type", .node n.typeChild?), ("name", .token n.declaredName?),
      ("type_parameters", .node n.typeParameterList?), ("parameters", .node n.parameterList?),
      ("body", .node n.block?), ("expression_body", .node n.arrowClause?)]
  | .constructorDeclaration => some [("parameters", .node n.parameterList?)]
  | .fieldDeclaration | .eventFieldDeclaration | .localDeclarationStatement =>
    some [("declaration", .node n.variables?)]
  | .propertyDeclaration | .eventDeclaration =>
    some [("ty", .node n.typeChild?), ("name", .token n.declaredName?)]
  | .arrowExpressionClause | .expressionStatement | .returnStatement | .argument
  | .parenthesizedExpression => some [("expression", .node n.firstChild?)]
  | .variableDeclaration =>
    some [("ty", .node n.typeChild?), ("declarators", .nodes n.declarators)]
  | .variableDeclarator =>
    some [("name", .token n.declaredName?), ("initializer", .node n.initializer?)]
  | .equalsValueClause => some [("value", .node n.firstChild?)]
  | .parameterList => some [("parameters", .nodes n.parameters)]
  | .parameter => some [("ty", .node n.typeChild?), ("name", .token n.declaredName?)]
  | .block => some [("statements", .nodes n.children)]
  | .identifierName =>
    some [("token", .token n.firstIdentifier?), ("text", .text n.nameText),
      ("in_event", .flag n.isInEvent), ("member_access", .node n.memberAccess?),
      ("type_syntax", .flag n.isTypeSyntax), ("assignment_target", .flag n.isAssignmentTarget)]
  | .genericName =>
    some [("text", .text n.nameText), ("list", .node n.typeArgumentList?),
      ("arguments", .nodes n.typeArguments), ("type_syntax", .flag n.isTypeSyntax)]
  | .typeArgumentList => some [("arguments", .nodes n.typeChildren)]
  | .argumentList => some [("arguments", .nodes n.arguments)]
  | .qualifiedName =>
    some [("left", .node n.typeChildren[0]?), ("right", .node n.typeChildren[1]?),
      ("type_syntax", .flag n.isTypeSyntax)]
  | .predefinedType =>
    some [("keyword", .token n.typeKeyword?), ("type_syntax", .flag n.isTypeSyntax)]
  | .arrayType =>
    some [("element", .node n.typeChild?), ("rank", .number n.rank),
      ("type_syntax", .flag n.isTypeSyntax)]
  | .memberAccessExpression =>
    some [("expression", .node n.firstChild?), ("name", .node n.secondChild?)]
  | .invocationExpression =>
    some [("expression", .node n.firstChild?), ("arguments", .node n.argumentList?)]
  | .objectCreationExpression =>
    some [("ty", .node n.typeChild?), ("arguments", .node n.argumentList?)]
  | .anonymousMethodExpression =>
    some [("parameters", .node n.parameterList?), ("body", .node n.block?)]
  | .parenthesizedLambdaExpression =>
    some [("parameters", .node n.parameterList?), ("body", .node n.secondChild?)]
  | .simpleLambdaExpression =>
    some [("parameter", .node (n.childOf? .parameter)), ("body", .node n.secondChild?)]
  | .assignmentExpression =>
    some [("left", .node n.firstChild?), ("right", .node n.secondChild?),
      ("operator", .token n.assignmentSign?)]
  | .castExpression =>
    some [("ty", .node (n.firstChild?.filter (·.kind.isType))),
      ("expression", .node n.secondChild?)]
  | .literalExpression => some [("token", .token n.literal?)]
  | _ => none

end Node
end SharpRefactor
