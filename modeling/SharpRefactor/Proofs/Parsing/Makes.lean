import SharpRefactor.Syntax.Parse

/-!
What the rules of the grammar are made of. A rule builds nodes of a few kinds itself and leaves the
rest to the constructs that it meets; the tables say which. Whatever holds of a text for reasons
that concern some kinds of node only is settled for most of the constructs by a look at their rows.
-/

namespace SharpRefactor
namespace Construct

def builds : Construct → List Kind
  | .namespaceBody _ | .baseTypes | .statements | .typeArguments | .expression _ => []
  | .usings => [.usingDirective, .nameEquals, .identifierName]
  | .namespaceMembers _ =>
    [.namespaceDeclaration, .classDeclaration, .structDeclaration, .interfaceDeclaration,
     .delegateDeclaration, .typeParameterList, .baseList, .parameterList, .error]
  | .typeParameters => [.typeParameter]
  | .members =>
    [.classDeclaration, .structDeclaration, .interfaceDeclaration, .delegateDeclaration,
     .typeParameterList, .baseList, .parameterList, .methodDeclaration, .constructorDeclaration,
     .propertyDeclaration, .fieldDeclaration, .eventDeclaration, .eventFieldDeclaration,
     .explicitInterfaceSpecifier, .identifierName, .variableDeclaration, .accessorList,
     .equalsValueClause, .arrowExpressionClause, .error]
  | .accessors => [.accessorDeclaration, .arrowExpressionClause, .error]
  | .parameters => [.parameter, .equalsValueClause]
  | .block => [.block]
  | .statement =>
    [.emptyStatement, .returnStatement, .ifStatement, .elseClause, .localDeclarationStatement,
     .variableDeclaration, .expressionStatement, .error]
  | .declarators => [.variableDeclarator, .equalsValueClause]
  | .type => [.predefinedType, .identifierName, .genericName, .typeArgumentList, .arrayType]
  | .qualifiers => [.qualifiedName, .identifierName, .genericName, .typeArgumentList]
  | .ranks => [.arrayRankSpecifier]
  | .operators _ => [.assignmentExpression, .binaryExpression]
  | .unary =>
    [.prefixUnaryExpression, .castExpression, .literalExpression, .predefinedType, .thisExpression,
     .objectCreationExpression, .argumentList, .anonymousMethodExpression, .parameterList,
     .simpleLambdaExpression, .parameter, .parenthesizedLambdaExpression,
     .parenthesizedExpression, .identifierName, .genericName, .typeArgumentList, .error]
  | .suffixes =>
    [.memberAccessExpression, .identifierName, .genericName, .typeArgumentList,
     .invocationExpression, .argumentList, .postfixUnaryExpression]
  | .arguments => [.argument]

def Meets : Construct → Construct → Prop
  | .namespaceBody braced, c => c ∈ [.usings, .namespaceMembers braced]
  | .usings, c => c ∈ [.type, .usings]
  | .namespaceMembers braced, c =>
    c ∈ [.type, .typeParameters, .baseTypes, .members, .parameters, .namespaceBody true,
      .namespaceBody false, .namespaceMembers braced]
  | .typeParameters, c => c ∈ [.typeParameters]
  | .baseTypes, c => c ∈ [.type, .baseTypes]
  | .members, c =>
    c ∈ [.type, .typeParameters, .baseTypes, .parameters, .declarators, .accessors, .block,
      .expression 0, .members]
  | .accessors, c => c ∈ [.block, .expression 0, .accessors]
  | .parameters, c => c ∈ [.type, .expression 0, .parameters]
  | .block, c => c ∈ [.statements]
  | .statements, c => c ∈ [.statement, .statements]
  | .statement, c => c ∈ [.block, .type, .declarators, .expression 0, .statement]
  | .declarators, c => c ∈ [.expression 0, .declarators]
  | .type, c => c ∈ [.typeArguments, .qualifiers, .ranks]
  | .qualifiers, c => c ∈ [.typeArguments, .qualifiers]
  | .ranks, c => c ∈ [.ranks]
  | .typeArguments, c => c ∈ [.type, .typeArguments]
  | .expression power, c => c ∈ [.unary, .operators power]
  | .operators power, c => c = .operators power ∨ ∃ right, c = .expression right
  | .unary, c =>
    c ∈ [.unary, .suffixes, .type, .typeArguments, .arguments, .parameters, .block, .expression 0]
  | .suffixes, c => c ∈ [.typeArguments, .arguments, .suffixes]
  | .arguments, c => c ∈ [.expression 0, .arguments]

end Construct

namespace Parse

def Makes (kinds : Kind → Prop) (met : Construct → Prop) : {α : Type} → Parse α → Prop
  | _, andThen p f => p.Makes kinds met ∧ ∀ a, (f a).Makes kinds met
  | _, group p => p.Makes kinds met
  | _, wrap k p => kinds k ∧ p.Makes kinds met
  | _, inner c => met c
  | _, _ => True

section Programs

variable {kinds : Kind → Prop} {met : Construct → Prop} {α β : Type}

@[simp] theorem makes_bind {p : Parse α} {f : α → Parse β} :
    (p >>= f).Makes kinds met ↔ p.Makes kinds met ∧ ∀ a, (f a).Makes kinds met := Iff.rfl

@[simp] theorem makes_pure (a : α) : (pure a : Parse α).Makes kinds met := trivial

@[simp] theorem makes_current : current.Makes kinds met := trivial

@[simp] theorem makes_nth? (n : Nat) : (nth? n).Makes kinds met := trivial

@[simp] theorem makes_ahead (question : Lookahead.Question) : (ahead question).Makes kinds met :=
  trivial

@[simp] theorem makes_bump : bump.Makes kinds met := trivial

@[simp] theorem makes_skip (f : Kind → Bool) : (skip f).Makes kinds met := trivial

@[simp] theorem makes_fail (e : SyntaxError) : (fail e).Makes kinds met := trivial

@[simp] theorem makes_group {p : Parse α} : (group p).Makes kinds met ↔ p.Makes kinds met := Iff.rfl

@[simp] theorem makes_wrap {k : Kind} {p : Parse α} :
    (wrap k p).Makes kinds met ↔ kinds k ∧ p.Makes kinds met := Iff.rfl

@[simp] theorem makes_node {k : Kind} {p : Parse α} :
    (node k p).Makes kinds met ↔ kinds k ∧ p.Makes kinds met := Iff.rfl

@[simp] theorem makes_inner {c : Construct} : (inner c).Makes kinds met ↔ met c := Iff.rfl

@[simp] theorem makes_ite {c : Prop} [Decidable c] {p q : Parse α} :
    (if c then p else q).Makes kinds met ↔ if c then p.Makes kinds met else q.Makes kinds met := by
  split <;> rfl

@[simp] theorem makes_missing (what : Expected) : (missing what).Makes kinds met := trivial

@[simp] theorem makes_modifiers : modifiers.Makes kinds met := trivial

@[simp] theorem makes_atKind (k : Kind) : (atKind k).Makes kinds met := by simp [atKind]

@[simp] theorem makes_secondIs (k : Kind) : (secondIs k).Makes kinds met := by simp [secondIs]

@[simp] theorem makes_atIdentifier : atIdentifier.Makes kinds met := makes_atKind _

@[simp] theorem makes_atTypeStart : atTypeStart.Makes kinds met := by simp [atTypeStart]

@[simp] theorem makes_atRank : atRank.Makes kinds met := by simp [atRank]

@[simp] theorem makes_expect (k : Kind) (what : Expected) : (expect k what).Makes kinds met := by
  simp [expect]

@[simp] theorem makes_require (k : Kind) (what : Expected) : (require k what).Makes kinds met := by
  simp [require]

@[simp] theorem makes_skipMember : skipMember.Makes kinds met := by simp [skipMember, skipTo]

theorem Makes.mono {p : Parse α} {kinds' : Kind → Prop} (wider : ∀ k, kinds k → kinds' k)
    (makes : p.Makes kinds met) : p.Makes kinds' met := by
  induction p with
  | andThen p f ihp ihf => exact ⟨ihp makes.1, fun a => ihf a (makes.2 a)⟩
  | group p ih => exact ih makes
  | wrap k p ih => exact ⟨wider k makes.1, ih makes.2⟩
  | inner c => exact makes
  | _ => trivial

end Programs

section Rules

variable {kinds : Kind → Prop} {met : Construct → Prop}

@[simp] theorem makes_typeOr (what : Expected) : (typeOr what).Makes kinds met ↔ met .type := by
  simp [typeOr]

@[simp] theorem makes_identifierName : identifierName.Makes kinds met ↔ kinds .identifierName := by
  simp [identifierName]

@[simp] theorem makes_genericName :
    genericName.Makes kinds met ↔ kinds .genericName ∧ kinds .typeArgumentList ∧
      met .typeArguments := by
  simp [genericName]

@[simp] theorem makes_argumentList :
    argumentList.Makes kinds met ↔ kinds .argumentList ∧ met .arguments := by
  simp [argumentList]

@[simp] theorem makes_parameterList :
    parameterList.Makes kinds met ↔ kinds .parameterList ∧ met .parameters := by
  simp [parameterList]

@[simp] theorem makes_equalsValue :
    equalsValue.Makes kinds met ↔ kinds .equalsValueClause ∧ met (.expression 0) := by
  simp [equalsValue]

@[simp] theorem makes_arrowClause :
    arrowClause.Makes kinds met ↔ kinds .arrowExpressionClause ∧ met (.expression 0) := by
  simp [arrowClause]

theorem makes_nameExpression (name : kinds .identifierName)
    (generic : kinds .genericName ∧ kinds .typeArgumentList ∧ met .typeArguments) :
    nameExpression.Makes kinds met := by
  simp [nameExpression, name, generic]

theorem makes_simpleTypeName (name : kinds .identifierName)
    (generic : kinds .genericName ∧ kinds .typeArgumentList ∧ met .typeArguments) :
    simpleTypeName.Makes kinds met := by
  simp [simpleTypeName, name, generic]

theorem makes_body {afterExpression none : Expected} (block : met .block)
    (arrow : kinds .arrowExpressionClause ∧ met (.expression 0)) :
    (body afterExpression none).Makes kinds met := by
  refine makes_bind.mpr ⟨makes_current, fun k => ?_⟩
  split <;> simp [block, arrow]

theorem makes_methodBody (block : met .block)
    (arrow : kinds .arrowExpressionClause ∧ met (.expression 0)) : methodBody.Makes kinds met :=
  makes_body block arrow

@[simp] theorem makes_lambdaBody : lambdaBody.Makes kinds met ↔ met .block ∧ met (.expression 0) := by
  simp [lambdaBody, and_comm]

@[simp] theorem makes_parameter :
    parameter.Makes kinds met ↔
      kinds .parameter ∧ met .type ∧ kinds .equalsValueClause ∧ met (.expression 0) := by
  simp [parameter]

@[simp] theorem makes_typeParameterList? :
    typeParameterList?.Makes kinds met ↔ kinds .typeParameterList ∧ met .typeParameters := by
  simp [typeParameterList?]

@[simp] theorem makes_parametersOfDeclaration :
    parametersOfDeclaration.Makes kinds met ↔ kinds .parameterList ∧ met .parameters := by
  simp [parametersOfDeclaration]

theorem makes_method (own : kinds .methodDeclaration) (block : met .block)
    (arrow : kinds .arrowExpressionClause ∧ met (.expression 0))
    (list : kinds .typeParameterList ∧ met .typeParameters)
    (parameters : kinds .parameterList ∧ met .parameters) : method.Makes kinds met := by
  simp [method, own, list, parameters, makes_methodBody block arrow]

theorem makes_constructor (own : kinds .constructorDeclaration) (block : met .block)
    (arrow : kinds .arrowExpressionClause ∧ met (.expression 0))
    (parameters : kinds .parameterList ∧ met .parameters) : constructor.Makes kinds met := by
  simp [constructor, own, parameters, makes_methodBody block arrow]

@[simp] theorem makes_accessorList :
    accessorList.Makes kinds met ↔ kinds .accessorList ∧ met .accessors := by
  simp [accessorList]

theorem makes_eventHead (type : met .type)
    (declaration : kinds .variableDeclaration ∧ met .declarators) : eventHead.Makes kinds met := by
  simp [eventHead, type, declaration]

theorem makes_typedHead (type : met .type)
    (declaration : kinds .variableDeclaration ∧ met .declarators) : typedHead.Makes kinds met := by
  refine makes_group.mpr (makes_bind.mpr ⟨type, fun _ => makes_bind.mpr ⟨makes_atIdentifier, ?_⟩⟩)
  intro named
  split
  · exact makes_pure _
  · refine makes_bind.mpr ⟨makes_nth? 1, fun second => ?_⟩
    split <;> simp [declaration]

end Rules
end Parse

namespace Construct

section Rules

open Parse hiding cast

variable {kinds : Kind → Prop} {met : Construct → Prop}

theorem makes_typeDeclarationOf {k : Kind} {p : Parse Unit} (found : typeDeclarationOf? k = some p)
    (building : ∀ k ∈ [Kind.classDeclaration, .structDeclaration, .interfaceDeclaration,
      .delegateDeclaration, .typeParameterList, .baseList, .parameterList], kinds k)
    (meeting : ∀ c ∈ [Construct.type, .typeParameters, .baseTypes, .parameters, .members], met c) :
    p.Makes kinds met := by
  simp only [List.forall_mem_cons] at building meeting
  unfold typeDeclarationOf? at found
  split at found <;> cases found <;> simp [typeWithMembers, delegateDeclaration, building, meeting]

theorem makes_operand (building : ∀ k ∈ unary.builds, kinds k)
    (meeting : ∀ c, unary.Meets c → met c) : operand.Makes kinds met := by
  simp only [builds, Meets, List.forall_mem_cons] at building meeting
  refine makes_bind.mpr ⟨makes_current, fun k => ?_⟩
  split
  · simp [building]
  split
  · simp [building]
  · split <;> simp [objectCreation, anonymousMethod, simpleLambda, parenthesizedLambda, parenthesized,
      malformedOperand, makes_nameExpression, building, meeting]

theorem makes_member (building : ∀ k ∈ members.builds, kinds k)
    (meeting : ∀ c, members.Meets c → met c) : member.Makes kinds met := by
  simp only [builds, Meets, List.forall_mem_cons] at building meeting
  have arrow : kinds .arrowExpressionClause ∧ met (.expression 0) := by simp [building, meeting]
  have list : kinds .typeParameterList ∧ met .typeParameters := by simp [building, meeting]
  have parameters : kinds .parameterList ∧ met .parameters := by simp [building, meeting]
  have method : method.Makes kinds met :=
    makes_method (by simp [building]) (by simp [meeting]) arrow list parameters
  have constructor : constructor.Makes kinds met :=
    makes_constructor (by simp [building]) (by simp [meeting]) arrow parameters
  have typed : typedMember.Makes kinds met := by
    refine makes_bind.mpr ⟨makes_typedHead (by simp [meeting]) (by simp [building, meeting]), ?_⟩
    intro found
    split <;> simp [property, method, building, meeting]
  refine makes_group.mpr (makes_bind.mpr ⟨makes_modifiers, fun _ =>
    makes_bind.mpr ⟨makes_current, fun k => ?_⟩⟩)
  split
  · next found => exact makes_typeDeclarationOf found (by simp [building]) (by simp [meeting])
  · simp [event, eventHead, interfaceSpecifier, malformedMember, constructor, typed, building, meeting]

theorem makes_namespaceMember {braced : Bool}
    (building : ∀ k ∈ (namespaceMembers braced).builds, kinds k)
    (meeting : ∀ c, (namespaceMembers braced).Meets c → met c) : namespaceMember.Makes kinds met := by
  simp only [builds, Meets, List.forall_mem_cons] at building meeting
  have declaration : typeDeclaration.Makes kinds met := by
    refine makes_group.mpr (makes_bind.mpr ⟨makes_modifiers, fun _ =>
      makes_bind.mpr ⟨makes_current, fun k => ?_⟩⟩)
    split
    · next found => exact makes_typeDeclarationOf found (by simp [building]) (by simp [meeting])
    · simp [building]
  simp [namespaceMember, namespaceDeclaration, atTypeDeclaration, malformedTopLevel, skipTo,
    declaration, building, meeting]

/-- The rule for a construct is made of what the tables say. -/
theorem rule_makes (c : Construct) (building : ∀ k ∈ c.builds, kinds k)
    (meeting : ∀ d, c.Meets d → met d) : c.rule.Makes kinds met := by
  cases c
  case unary =>
    have operand := makes_operand building meeting
    simp only [builds, Meets, List.forall_mem_cons] at building meeting
    simp [rule, Parse.unary, prefixed, Parse.cast, operand, building, meeting]
  case members =>
    have member := makes_member building meeting
    simp only [Meets, List.forall_mem_cons] at meeting
    simp [rule, Parse.members, member, meeting]
  case namespaceMembers braced =>
    have member := makes_namespaceMember building meeting
    simp only [Meets, List.forall_mem_cons] at meeting
    simp [rule, Parse.namespaceMembers, member, meeting]
  all_goals
    simp only [builds, Meets, List.forall_mem_cons, forall_eq_or_imp, forall_exists_index]
      at building meeting
  case namespaceBody => simp [rule, Parse.namespaceBody, meeting]
  case usings => simp [rule, Parse.usings, usingDirective, building, meeting]
  case typeParameters => simp [rule, Parse.typeParameters, building, meeting]
  case baseTypes => simp [rule, Parse.baseTypes, meeting]
  case accessors => simp [rule, Parse.accessors, accessor, makes_body, building, meeting]
  case parameters => simp [rule, Parse.parameters, building, meeting]
  case block => simp [rule, Parse.block, building, meeting]
  case statements => simp [rule, Parse.statements, meeting]
  case declarators => simp [rule, Parse.declarators, building, meeting]
  case type => simp [rule, Parse.type, arrayOf, makes_simpleTypeName, building, meeting]
  case qualifiers => simp [rule, Parse.qualifiers, makes_simpleTypeName, building, meeting]
  case ranks => simp [rule, Parse.ranks, building, meeting]
  case typeArguments => simp [rule, Parse.typeArguments, meeting]
  case expression => simp [rule, Parse.expression, meeting]
  case arguments => simp [rule, Parse.arguments, building, meeting]
  case statement =>
    refine makes_bind.mpr ⟨makes_current, fun k => ?_⟩
    split <;> simp [returnStatement, ifStatement, elseClause, localDeclaration, expressionStatement,
      malformedStatement, building, meeting]
  case operators =>
    refine makes_bind.mpr ⟨makes_current, fun k => ?_⟩
    split
    · simp [building, meeting]
    · split <;> simp [building, meeting]
  case suffixes =>
    refine makes_bind.mpr ⟨makes_current, fun k => ?_⟩
    split <;> simp [makes_nameExpression, building, meeting]

end Rules
end Construct
end SharpRefactor
