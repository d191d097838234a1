import SharpRefactor.Proofs.Parsing.Ensured.Basic

/-!
The rules for expressions and for statements keep the contracts of their constructs.
-/

namespace SharpRefactor
namespace Parse

variable {α β : Type} {v : Sketch}

section Expressions

variable {post : Unit → Sketch → Prop}

theorem ensures_expression {power : Nat}
    (rest : ∀ k front second, post () ⟨front, second, v.parts ++ [.node k]⟩) :
    (inner (.expression power)).Ensures post v := by
  refine ⟨trivial, fun front second ps leaves => ?_⟩
  obtain ⟨k, rfl⟩ := leaves
  exact rest k front second

theorem ensures_unary (rest : ∀ k front second, post () ⟨front, second, v.parts ++ [.node k]⟩) :
    (inner .unary).Ensures post v := by
  refine ⟨trivial, fun front second ps leaves => ?_⟩
  obtain ⟨k, rfl⟩ := leaves
  exact rest k front second

theorem ensures_block (rest : ∀ front second, post () ⟨front, second, v.parts ++ [.node .block]⟩) :
    (inner .block).Ensures post v := by
  refine ⟨trivial, fun front second ps leaves => ?_⟩
  cases leaves
  exact rest front second

theorem ensures_argumentList
    (rest : ∀ front second, post () ⟨front, second, v.parts ++ [.node .argumentList]⟩) :
    argumentList.Ensures post v :=
  ensures_delimited (fun _ => trivial) (fun _ => trivial) (by decide) (by decide) rest

theorem ensures_parameterList
    (rest : ∀ front second, post () ⟨front, second, v.parts ++ [.node .parameterList]⟩) :
    parameterList.Ensures post v :=
  ensures_delimited (fun _ => trivial) (fun _ => trivial) (by decide) (by decide) rest

/-- A token and the expression after it. -/
theorem ensures_clause {k : Kind} {power : Nat} (holds : ∀ ps, 1 ≤ (nodeKinds ps).length → k.Whole ps)
    (rest : ∀ front second, post () ⟨front, second, v.parts ++ [.node k]⟩) :
    (node k (do bump; inner (.expression power))).Ensures post v := by
  simp only [ensures_node, ensures_bind]
  intro second moved _
  refine ensures_expression fun value front second => ⟨holds _ ?_, rest front second⟩
  simp

theorem ensures_equalsValue
    (rest : ∀ front second, post () ⟨front, second, v.parts ++ [.node .equalsValueClause]⟩) :
    equalsValue.Ensures post v :=
  ensures_clause (fun _ some => some) rest

theorem ensures_lambdaBody (rest : ∀ k front second, post () ⟨front, second, v.parts ++ [.node k]⟩) :
    lambdaBody.Ensures post v := by
  simp only [lambdaBody, ensures_bind, ensures_atKind, ensures_ite]
  exact ⟨fun _ => ensures_block (rest _), fun _ => ensures_expression rest⟩

theorem keeps_arguments : arguments.Ensures (fun _ w => Construct.arguments.Leaves v w.parts) v := by
  refine ensures_ite.mpr ⟨fun _ => ?_, fun _ => ⟨[], by simp⟩⟩
  refine ensures_expression fun value front second => ⟨by simp [Kind.Whole], ?_⟩
  exact ensures_commaRest (.free (fun _ => trivial) fun _ _ => Iff.rfl) trivial

theorem ensures_parameter
    (rest : ∀ front second, post () ⟨front, second, v.parts ++ [.node .parameter]⟩) :
    parameter.Ensures post v := by
  simp only [parameter, ensures_node, ensures_bind, ensures_atIdentifier, ensures_secondIs,
    ensures_atTypeStart, ensures_atKind, ensures_ite, ensures_missing, ensures_pure]
  refine ⟨fun plain => ?_, fun _ => ⟨fun _ => ensures_type fun k front second isType => ?_, fun _ =>
    trivial⟩⟩
  · simp only [Bool.and_eq_true, beq_iff_eq] at plain
    refine ensures_bump (by simp [plain]) fun second => ⟨?_, rest _ _⟩
    simp [Kind.Whole, plain]
  · refine ensures_require (by decide) fun _ second => ⟨fun _ => ?_, fun _ => ⟨?_, rest _ _⟩⟩
    · exact ensures_equalsValue fun front second => ⟨by simp [Kind.Whole], rest _ _⟩
    · simp [Kind.Whole]

theorem keeps_parameters :
    parameters.Ensures (fun _ w => Construct.parameters.Leaves v w.parts) v := by
  refine ensures_ite.mpr ⟨fun _ => ensures_bind.mpr ?_, fun _ => ⟨[], by simp⟩⟩
  refine ensures_parameter fun front second => ?_
  exact ensures_commaRest (.free (fun _ => trivial) fun _ _ => Iff.rfl) trivial

theorem ensures_objectCreation
    (rest : ∀ front second, post () ⟨front, second, v.parts ++ [.node .objectCreationExpression]⟩) :
    objectCreation.Ensures post v := by
  simp only [objectCreation, ensures_node, ensures_bind]
  intro second moved _
  refine ensures_typeOr fun k front second isType => ?_
  simp only [ensures_atKind, ensures_ite, ensures_missing, implies_true, and_true]
  intro _
  refine ensures_argumentList fun front second => ⟨⟨⟨k, isType, by simp⟩, by simp⟩, rest _ _⟩

theorem ensures_anonymousMethod
    (rest : ∀ front second, post () ⟨front, second, v.parts ++ [.node .anonymousMethodExpression]⟩) :
    anonymousMethod.Ensures post v := by
  simp only [anonymousMethod, ensures_node, ensures_bind, ensures_atKind, ensures_ite]
  intro second moved _
  refine ⟨fun _ => ensures_parameterList fun front second => ?_, fun _ => ?_⟩
  · exact ensures_block fun front second => ⟨by simp [Kind.Whole], rest _ _⟩
  · exact ensures_block fun front second => ⟨by simp [Kind.Whole], rest _ _⟩

theorem ensures_simpleLambda (name : v.front = .identifier)
    (rest : ∀ front second, post () ⟨front, second, v.parts ++ [.node .simpleLambdaExpression]⟩) :
    simpleLambda.Ensures post v := by
  simp only [simpleLambda, ensures_node, ensures_bind]
  refine ensures_bump (by simp [name]) fun second => ⟨by simp [Kind.Whole, name], ?_⟩
  intro second moved _
  refine ensures_lambdaBody fun k front second => ⟨?_, rest _ _⟩
  simp [Kind.Whole]

theorem ensures_parenthesizedLambda
    (rest : ∀ front second,
      post () ⟨front, second, v.parts ++ [.node .parenthesizedLambdaExpression]⟩) :
    parenthesizedLambda.Ensures post v := by
  simp only [parenthesizedLambda, ensures_node, ensures_bind]
  refine ensures_parameterList fun front second => ensures_require (by decide) fun _ second => ?_
  refine ensures_lambdaBody fun k front second => ⟨?_, rest _ _⟩
  simp [Kind.Whole]

theorem ensures_parenthesized
    (rest : ∀ front second, post () ⟨front, second, v.parts ++ [.node .parenthesizedExpression]⟩) :
    parenthesized.Ensures post v := by
  simp only [parenthesized, ensures_node, ensures_bind]
  intro second moved _
  refine ensures_expression fun k front second => ensures_require (by decide) fun _ second => ?_
  refine ⟨?_, rest _ _⟩
  simp [Kind.Whole]

theorem ensures_operand (rest : ∀ k front second, post () ⟨front, second, v.parts ++ [.node k]⟩) :
    operand.Ensures post v := by
  simp only [operand, ensures_bind, ensures_current, ensures_ite, ensures_node]
  refine ⟨fun literal => ?_, fun _ => ⟨fun predefined => ?_, fun _ => ?_⟩⟩
  · refine ensures_bump (Kind.ne_eof_of rfl literal) fun second => ?_
    exact ⟨⟨v.front, by simp⟩, rest _ _ _⟩
  · refine ensures_bump (Kind.ne_eof_of rfl predefined) fun second => ?_
    exact ⟨⟨_, predefined, by simp⟩, rest _ _ _⟩
  split
  · exact fun second moved _ => ⟨trivial, rest _ _ _⟩
  · exact ensures_objectCreation (rest _)
  · exact ensures_anonymousMethod (rest _)
  · next name =>
      simp only [ensures_bind, ensures_secondIs, ensures_ite]
      exact ⟨fun _ => ensures_simpleLambda name (rest _), fun _ => ensures_nameExpression name rest⟩
  · simp only [ensures_bind, ensures_ahead, ensures_ite]
    exact fun lambda => ⟨fun _ => ensures_parenthesizedLambda (rest _), fun _ =>
      ensures_parenthesized (rest _)⟩
  · exact trivial

theorem ensures_cast
    (rest : ∀ front second, post () ⟨front, second, v.parts ++ [.node .castExpression]⟩) :
    cast.Ensures post v := by
  simp only [cast, ensures_node, ensures_bind]
  refine fun second moved _ => ensures_type fun k front second isType => ?_
  refine ensures_require (by decide) fun _ second => ?_
  refine ensures_unary fun value front second => ⟨?_, rest _ _⟩
  simp [Kind.Whole, isType]

theorem keeps_expression (power : Nat) :
    (expression power).Ensures (fun _ w => (Construct.expression power).Leaves v w.parts) v := by
  simp only [expression, ensures_group, ensures_bind]
  refine ensures_unary fun k front second => ⟨⟨k, rfl⟩, fun front second ps leaves => ?_⟩
  obtain ⟨k, rfl⟩ := leaves
  exact ⟨k, rfl⟩

theorem keeps_operators {power : Nat} (asks : (Construct.operators power).Asks v.parts) :
    (operators power).Ensures (fun _ w => (Construct.operators power).Leaves v w.parts) v := by
  obtain ⟨front, second, parts⟩ := v
  obtain ⟨k, rfl⟩ := asks
  have again : ∀ k front second, (inner (.operators power)).Ensures
      (fun _ w => (Construct.operators power).Leaves ⟨front, second, [.node k]⟩ w.parts)
      ⟨front, second, [.node k]⟩ := fun k _ _ => ⟨⟨k, rfl⟩, fun _ _ _ leaves => leaves⟩
  simp only [operators, ensures_bind, ensures_current, ensures_ite, ensures_wrap, ensures_pure]
  refine ⟨fun assigns => ⟨fun _ => ?_, fun _ => ⟨k, rfl⟩⟩, fun _ => ?_⟩
  · refine ensures_bump (Kind.ne_eof_of rfl assigns) fun next => ?_
    refine ensures_expression fun right front' second => ⟨?_, again _ _ _⟩
    exact ⟨by simp, front, assigns, by simp⟩
  · split
    · exact ⟨k, rfl⟩
    · simp only [ensures_ite, ensures_bind, ensures_wrap, ensures_pure]
      refine ⟨fun _ => ?_, fun _ => ⟨k, rfl⟩⟩
      intro next moved _
      exact ensures_expression fun right front second => ⟨trivial, again _ _ _⟩

theorem keeps_suffixes (asks : Construct.suffixes.Asks v.parts) :
    suffixes.Ensures (fun _ w => Construct.suffixes.Leaves v w.parts) v := by
  obtain ⟨front, second, parts⟩ := v
  obtain ⟨k, rfl⟩ := asks
  have again : ∀ k front second, (inner .suffixes).Ensures
      (fun _ w => Construct.suffixes.Leaves ⟨front, second, [.node k]⟩ w.parts)
      ⟨front, second, [.node k]⟩ := fun k _ _ => ⟨⟨k, rfl⟩, fun _ _ _ leaves => leaves⟩
  simp only [suffixes, ensures_bind, ensures_current]
  split
  · simp only [ensures_bind, ensures_wrap, ensures_atIdentifier, ensures_ite, ensures_missing]
    refine fun next moved _ => ⟨fun named => ?_, fun _ => trivial⟩
    refine ensures_nameExpression (by simpa using named) fun name front second => ⟨?_, again _ _ _⟩
    simp [Kind.Whole]
  · simp only [ensures_bind, ensures_wrap]
    refine ensures_argumentList fun front second => ⟨?_, again _ _ _⟩
    simp [Kind.Whole]
  · exact fun next moved _ => ⟨trivial, again _ _ _⟩
  · exact fun next moved _ => ⟨trivial, again _ _ _⟩
  · exact ⟨k, rfl⟩

theorem keeps_unary : unary.Ensures (fun _ w => Construct.unary.Leaves v w.parts) v := by
  have left : ∀ k (front : Kind) (second : Option Kind),
      Construct.unary.Leaves v (v.parts ++ [.node k]) := fun k _ _ => ⟨k, rfl⟩
  simp only [unary, prefixed, ensures_group, ensures_bind, ensures_current, ensures_ite, ensures_node,
    ensures_ahead]
  refine ⟨fun _ second moved _ => ?_, fun _ casts => ⟨fun _ => ensures_cast (left _), fun _ => ?_⟩⟩
  · exact ensures_unary fun k front second => ⟨trivial, left _ front second⟩
  · refine ensures_operand fun k front second => ⟨⟨k, rfl⟩, fun front second ps leaves => ?_⟩
    obtain ⟨k, rfl⟩ := leaves
    exact left k front second

end Expressions

section Statements

variable {post : Unit → Sketch → Prop}

theorem keeps_block : block.Ensures (fun _ w => Construct.block.Leaves v w.parts) v :=
  ensures_delimited (fun _ => trivial) (fun _ => trivial) (by decide) (by decide) fun _ _ => rfl

theorem ensures_declarator
    (rest : ∀ front second, post () ⟨front, second, v.parts ++ [.node .variableDeclarator]⟩) :
    (node .variableDeclarator do
      require .identifier .variableName
      if ← atKind .eq then equalsValue).Ensures post v := by
  simp only [ensures_node, ensures_bind, ensures_atKind, ensures_ite, ensures_pure]
  refine ensures_require (by decide) fun _ second => ⟨fun _ => ?_, fun _ => ⟨?_, rest _ _⟩⟩
  · exact ensures_equalsValue fun front second => ⟨by simp [Kind.Whole], rest _ _⟩
  · simp [Kind.Whole]

theorem keeps_declarators :
    declarators.Ensures (fun _ w => Construct.declarators.Leaves v w.parts) v := by
  refine ensures_bind.mpr (ensures_declarator fun front second => ?_)
  have lists : Construct.declarators.Lists fun more => .node .variableDeclarator ∈ more :=
    ⟨fun _ => trivial, fun _ _ => Iff.rfl, fun _ others member => List.mem_append_left others member⟩
  exact ensures_commaRest lists (by simp)

theorem ensures_ifStatement
    (rest : ∀ front second, post () ⟨front, second, v.parts ++ [.node .ifStatement]⟩) :
    ifStatement.Ensures post v := by
  simp only [ifStatement, elseClause, ensures_node, ensures_bind, ensures_atKind, ensures_ite,
    ensures_pure]
  refine fun second moved _ => ensures_require (by decide) fun _ second => ?_
  refine ensures_expression fun k front second => ensures_require (by decide) fun _ second => ?_
  refine ⟨trivial, fun front second ps _ => ⟨fun _ second moved _ => ?_, fun _ => ?_⟩⟩
  · exact ⟨trivial, fun front second ps _ => ⟨trivial, trivial, rest _ _⟩⟩
  · exact ⟨trivial, rest _ _⟩

theorem ensures_returnStatement
    (rest : ∀ front second, post () ⟨front, second, v.parts ++ [.node .returnStatement]⟩) :
    returnStatement.Ensures post v := by
  simp only [returnStatement, ensures_node, ensures_bind, ensures_atKind, ensures_ite]
  refine fun second moved _ => ⟨fun _ => ensures_expression fun k front second => ?_, fun _ => ?_⟩
  · exact ensures_require (by decide) fun _ second => ⟨trivial, rest _ _⟩
  · exact ensures_require (by decide) fun _ second => ⟨trivial, rest _ _⟩

theorem ensures_localDeclaration
    (rest : ∀ front second, post () ⟨front, second, v.parts ++ [.node .localDeclarationStatement]⟩) :
    localDeclaration.Ensures post v := by
  simp only [localDeclaration, modifiers, ensures_node, ensures_bind]
  refine fun front second moved => ensures_type fun k front second isType => ?_
  refine ⟨trivial, fun front second ps leaves => ?_⟩
  obtain ⟨more, rfl, declared⟩ := leaves
  refine ⟨⟨⟨k, isType, by simp⟩, by simp [declared]⟩, ?_⟩
  exact ensures_require (by decide) fun _ second => ⟨by simp [Kind.Whole], rest _ _⟩

theorem ensures_expressionStatement
    (rest : ∀ front second, post () ⟨front, second, v.parts ++ [.node .expressionStatement]⟩) :
    expressionStatement.Ensures post v := by
  simp only [expressionStatement, ensures_node, ensures_bind]
  refine ensures_expression fun k front second => ?_
  exact ensures_require (by decide) fun _ second => ⟨by simp [Kind.Whole], rest _ _⟩

theorem keeps_statement :
    statement.Ensures (fun _ w => Construct.statement.Leaves v w.parts) v := by
  have left : ∀ k (front : Kind) (second : Option Kind),
      Construct.statement.Leaves v (v.parts ++ [.node k]) := fun k _ _ => ⟨[.node k], rfl⟩
  simp only [statement, ensures_bind, ensures_current]
  split
  · exact ensures_block (left _)
  · exact fun second moved _ => ⟨trivial, left _ .eof none⟩
  · exact ensures_returnStatement (left _)
  · exact ensures_ifStatement (left _)
  · simp only [ensures_bind, ensures_ahead, ensures_ite]
    exact fun declares => ⟨fun _ => ensures_localDeclaration (left _), fun _ => ⟨fun _ =>
      ensures_expressionStatement (left _), fun _ => trivial⟩⟩

theorem keeps_statements :
    statements.Ensures (fun _ w => Construct.statements.Leaves v w.parts) v := by
  simp only [statements, ensures_bind, ensures_atKind, ensures_ite, ensures_pure]
  refine ⟨fun _ => ⟨trivial, fun front second ps leaves => ?_⟩, fun _ => ⟨[], by simp⟩⟩
  obtain ⟨more, rfl⟩ := leaves
  exact ensures_rest (.free (fun _ => trivial) fun _ _ => Iff.rfl) trivial

end Statements

end Parse
end SharpRefactor
