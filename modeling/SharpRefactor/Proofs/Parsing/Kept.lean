import SharpRefactor.Proofs.Parsing.Ensured

/-!
Declarations keep their contracts, and so every rule of the grammar does.
-/

namespace SharpRefactor
namespace Parse

variable {v : Sketch}

section Parts

variable {post : Unit → Sketch → Prop}

theorem keeps_typeParameters :
    typeParameters.Ensures (fun _ w => Construct.typeParameters.Leaves v w.parts) v := by
  refine ensures_bind.mpr (ensures_node.mpr (ensures_require (by decide) fun _ second => ?_))
  exact ⟨trivial, ensures_commaRest (.free (fun _ => trivial) fun _ _ => Iff.rfl) trivial⟩

theorem keeps_baseTypes : baseTypes.Ensures (fun _ w => Construct.baseTypes.Leaves v w.parts) v := by
  refine ensures_ite.mpr ⟨fun _ => ensures_bind.mpr ?_, fun _ => trivial⟩
  refine ensures_type fun k front second isType => ?_
  exact ensures_commaRest (.free (fun _ => trivial) fun _ _ => Iff.rfl) trivial

theorem ensures_typeParameterList?
    (rest : ∀ front second more, more = [] ∨ more = [.node .typeParameterList] →
      post () ⟨front, second, v.parts ++ more⟩) : typeParameterList?.Ensures post v := by
  simp only [typeParameterList?, ensures_bind, ensures_atKind, ensures_ite, ensures_node, ensures_pure]
  refine ⟨fun _ second moved _ => ⟨trivial, fun front second ps _ => ?_⟩, fun _ => ?_⟩
  · exact ensures_require (by decide) fun _ second => ⟨trivial, rest _ _ _ (.inr rfl)⟩
  · simpa using rest v.front v.second [] (.inl rfl)

theorem ensures_parametersOfDeclaration
    (rest : ∀ front second, post () ⟨front, second, v.parts ++ [.node .parameterList]⟩) :
    parametersOfDeclaration.Ensures post v := by
  simp only [parametersOfDeclaration, ensures_bind, ensures_atKind, ensures_ite, ensures_missing]
  exact ⟨fun _ => ensures_parameterList rest, fun _ => trivial⟩

theorem ensures_arrowClause
    (rest : ∀ front second, post () ⟨front, second, v.parts ++ [.node .arrowExpressionClause]⟩) :
    arrowClause.Ensures post v :=
  ensures_clause (fun _ some => some) rest

/-- A body is a block or an expression, not both. -/
theorem ensures_body {afterExpression none : Expected}
    (rest : ∀ front second more, .node .block ∉ more ∨ .node .arrowExpressionClause ∉ more →
      (∀ k, .node k ∈ more → k = .block ∨ k = .arrowExpressionClause) →
      post () ⟨front, second, v.parts ++ more⟩) : (body afterExpression none).Ensures post v := by
  simp only [body, ensures_bind, ensures_current]
  split
  · exact ensures_block fun front second => rest _ _ _ (.inr (by simp)) (by simp)
  · refine ensures_bind.mpr (ensures_arrowClause fun front second => ensures_require (by decide) ?_)
    intro _ second
    rw [List.append_assoc]
    exact rest _ second _ (.inl (by simp)) (by simp)
  · refine ensures_require (by decide) fun _ second => ?_
    exact rest _ second _ (.inl (by simp)) (by simp)

theorem keeps_accessors :
    accessors.Ensures (fun _ w => Construct.accessors.Leaves v w.parts) v := by
  simp only [accessors, accessor, modifiers, ensures_bind, ensures_atKind, ensures_atIdentifier,
    ensures_current, ensures_ite, ensures_node, ensures_missing, ensures_pure]
  refine ⟨fun _ => ⟨fun _ => trivial, fun _ front second moved => ?_⟩, fun _ => ⟨[], by simp⟩⟩
  refine ensures_require (by decide) fun _ second => ensures_body fun front second more _ _ => ?_
  exact ⟨trivial, ensures_rest (.free (fun _ => trivial) fun _ _ => Iff.rfl) trivial⟩

theorem ensures_accessorList
    (rest : ∀ front second, post () ⟨front, second, v.parts ++ [.node .accessorList]⟩) :
    accessorList.Ensures post v := by
  simp only [accessorList, ensures_node, ensures_bind]
  refine ensures_expect (by decide) fun _ second => ⟨trivial, fun front second ps _ => ?_⟩
  exact ensures_require (by decide) fun _ second => ⟨trivial, rest _ _⟩

end Parts

section Members

variable {post : Unit → Sketch → Prop}

theorem ensures_method {k : Kind} {moved : List Kind} (isType : k.isType)
    (name : v.front = .identifier) (head : v.parts = moved.map .token ++ [.node k])
    (rest : ∀ front second, post () ⟨front, second, [.node .methodDeclaration]⟩) :
    method.Ensures post v := by
  obtain ⟨front, second, parts⟩ := v
  cases name
  cases head
  simp only [method, methodBody, ensures_wrap, ensures_bind]
  refine ensures_bump (by simp) fun second => ?_
  refine ensures_typeParameterList? fun front second listed list => ?_
  refine ensures_parametersOfDeclaration fun front second => ?_
  refine ensures_body fun front second body one _ => ?_
  refine ⟨⟨⟨k, isType, by simp⟩, by simp, by simp, ?_⟩, rest _ _⟩
  have own : k ≠ .block ∧ k ≠ .arrowExpressionClause := by
    constructor <;> (rintro rfl; cases isType)
  refine one.imp (fun none => ?_) fun none => ?_
  · rcases list with rfl | rfl <;> simp [none, own.1.symm]
  · rcases list with rfl | rfl <;> simp [none, own.2.symm]

theorem ensures_constructor (name : v.front = .identifier)
    (rest : ∀ front second, post () ⟨front, second, [.node .constructorDeclaration]⟩) :
    constructor.Ensures post v := by
  simp only [constructor, methodBody, ensures_wrap, ensures_bind]
  refine ensures_bump (by simp [name]) fun second => ensures_parameterList fun front second => ?_
  exact ensures_body fun front second more _ _ => ⟨by simp [Kind.Whole], rest _ _⟩

theorem ensures_property {k : Kind} (isType : k.isType) (typed : .node k ∈ v.parts)
    (name : v.front = .identifier)
    (rest : ∀ front second, post () ⟨front, second, [.node .propertyDeclaration]⟩) :
    property.Ensures post v := by
  obtain ⟨front, second, parts⟩ := v
  cases name
  simp only [property, ensures_wrap, ensures_bind, ensures_atKind, ensures_ite, ensures_pure]
  refine ensures_bump (by simp) fun second => ⟨fun _ => ?_, fun _ => ?_⟩
  · refine ensures_arrowClause fun front second => ensures_require (by decide) fun _ second => ?_
    exact ⟨⟨⟨k, isType, by simp_all⟩, by simp⟩, rest _ _⟩
  · refine ensures_accessorList fun front second => ⟨fun _ => ?_, fun _ => ?_⟩
    · refine ensures_equalsValue fun front second => ensures_require (by decide) fun _ second => ?_
      exact ⟨⟨⟨k, isType, by simp_all⟩, by simp⟩, rest _ _⟩
    · exact ⟨⟨⟨k, isType, by simp_all⟩, by simp⟩, rest _ _⟩

/-- The declarators after a type. -/
theorem ensures_variables {k : Kind} (isType : k.isType) (typed : .node k ∈ v.parts)
    (rest : ∀ front second, post () ⟨front, second, [.node .variableDeclaration]⟩) :
    (wrap .variableDeclaration (inner .declarators)).Ensures post v := by
  refine ⟨trivial, fun front second ps leaves => ?_⟩
  obtain ⟨more, rfl, declared⟩ := leaves
  exact ⟨⟨⟨k, isType, by simp [typed]⟩, by simp [declared]⟩, rest _ _⟩

theorem ensures_interfaceSpecifier
    (rest : ∀ front second, post () ⟨front, second, v.parts ++ [.node .explicitInterfaceSpecifier]⟩) :
    interfaceSpecifier.Ensures post v := by
  simp only [interfaceSpecifier, ensures_node, ensures_bind]
  exact ensures_identifierName fun _ second next moved _ => ⟨trivial, rest _ _⟩

theorem ensures_eventHead {post : Bool → Sketch → Prop}
    (accessors : ∀ k front second, k.isType → post true ⟨front, second, v.parts ++ [.node k]⟩)
    (field : ∀ front second, post false ⟨front, second, v.parts ++ [.node .variableDeclaration]⟩) :
    eventHead.Ensures post v := by
  simp only [eventHead, ensures_group, ensures_bind, ensures_atIdentifier, ensures_secondIs,
    ensures_ite, ensures_pure]
  refine ensures_typeOr fun k front second isType => ⟨fun _ => accessors k _ _ isType, fun _ => ?_⟩
  exact ensures_variables isType (by simp) field

theorem ensures_event (rest : ∀ k front second, post () ⟨front, second, [.node k]⟩) :
    event.Ensures post v := by
  simp only [event, ensures_bind]
  refine fun second moved _ => ensures_eventHead
    (fun k front second isType => ?_) fun front second => ?_
  · simp only [if_true, ensures_wrap, ensures_bind, ensures_secondIs, ensures_ite]
    refine ⟨fun _ => ensures_interfaceSpecifier fun front second => ?_, fun _ => ?_⟩
    · refine ensures_require (by decide) fun _ second => ensures_accessorList fun front second => ?_
      exact ⟨⟨⟨k, isType, by simp⟩, by simp⟩, rest _ _ _⟩
    · refine ensures_require (by decide) fun _ second => ensures_accessorList fun front second => ?_
      exact ⟨⟨⟨k, isType, by simp⟩, by simp⟩, rest _ _ _⟩
  · exact ensures_require (by decide) fun _ second => ⟨by simp [Kind.Whole], rest _ _ _⟩

theorem ensures_typedHead {post : TypedMember → Sketch → Prop}
    (nameless : ∀ w, post .nameless w)
    (method : ∀ k second, k.isType → post .method ⟨.identifier, second, v.parts ++ [.node k]⟩)
    (property : ∀ k second, k.isType → post .property ⟨.identifier, second, v.parts ++ [.node k]⟩)
    (field : ∀ front second, post .field ⟨front, second, v.parts ++ [.node .variableDeclaration]⟩) :
    typedHead.Ensures post v := by
  simp only [typedHead, ensures_group, ensures_bind, ensures_atIdentifier, ensures_ite, ensures_pure,
    ensures_second]
  refine ensures_type fun k front second isType => ⟨fun _ => nameless _, fun named => ?_⟩
  have name : front = .identifier := by simpa using named
  subst name
  split
  · exact method k _ isType
  · exact method k _ isType
  · exact property k _ isType
  · exact property k _ isType
  · exact ensures_bind.mpr (ensures_variables isType (by simp) field)

/-- After modifiers a member is a single node. -/
theorem ensures_typedMember {moved : List Kind} (head : v.parts = moved.map .token)
    (rest : ∀ k front second, post () ⟨front, second, [.node k]⟩) : typedMember.Ensures post v := by
  simp only [typedMember, ensures_bind]
  refine ensures_typedHead (fun w => trivial) (fun k second isType => ?_) (fun k second isType => ?_)
    fun front second => ?_
  · exact ensures_method isType rfl (by rw [head]) (rest _)
  · exact ensures_property isType (by simp) rfl (rest _)
  · exact ensures_require (by decide) fun _ second => ⟨by simp [Kind.Whole], rest _ _ _⟩

theorem ensures_delegateDeclaration
    (rest : ∀ front second, post () ⟨front, second, [.node .delegateDeclaration]⟩) :
    delegateDeclaration.Ensures post v := by
  simp only [delegateDeclaration, ensures_wrap, ensures_bind]
  refine fun second moved _ => ensures_typeOr fun k front second isType => ?_
  refine ensures_require (by decide) fun _ second => ?_
  refine ensures_typeParameterList? fun front second _ _ => ?_
  refine ensures_parametersOfDeclaration fun front second => ?_
  refine ensures_require (by decide) fun _ second => ?_
  exact ⟨⟨⟨k, isType, by simp⟩, by simp, by simp⟩, rest _ _⟩

theorem ensures_typeBody (named : .token .identifier ∈ v.parts)
    (rest : ∀ w, .token .identifier ∈ w.parts → post () w) :
    (do
      if ← expect .lBrace .typeBody then
        inner .members
        require .rBrace .endOfType
      if ← atKind .semicolon then bump : Parse Unit).Ensures post v := by
  simp only [ensures_bind, ensures_ite, ensures_atKind, ensures_pure]
  refine ensures_expect (by decide) fun _ second => ⟨fun _ => ?_, fun none => absurd rfl none⟩
  refine ⟨trivial, fun front second ps leaves => ensures_require (by decide) fun _ second => ?_⟩
  obtain ⟨more, rfl⟩ := leaves
  exact ⟨fun _ second moved _ => rest _ (by simp [named]), fun _ => rest _ (by simp [named])⟩

theorem ensures_typeWithMembers {k : Kind} (named : ∀ ps, .token .identifier ∈ ps → k.Whole ps)
    (rest : ∀ front second, post () ⟨front, second, [.node k]⟩) :
    (typeWithMembers k).Ensures post v := by
  have ends : ∀ w : Sketch, .token .identifier ∈ w.parts →
      k.Whole w.parts ∧ post () { w with parts := [.node k] } :=
    fun w member => ⟨named _ member, rest _ _⟩
  refine ensures_wrap.mpr (ensures_bind.mpr fun second moved _ => ensures_bind.mpr ?_)
  refine ensures_require (by decide) fun _ second => ensures_bind.mpr ?_
  refine ensures_typeParameterList? fun front second listed _ => ?_
  refine ensures_ite.mpr ⟨fun _ => ?_, fun _ => ?_⟩
  · refine ensures_bind.mpr (ensures_node.mpr fun second moved _ => ?_)
    exact ⟨trivial, fun front second ps _ => ⟨trivial, ensures_typeBody (by simp) ends⟩⟩
  · exact ensures_typeBody (by simp) ends

theorem ensures_typeDeclarationOf {k : Kind} {p : Parse Unit} (found : typeDeclarationOf? k = some p)
    (rest : ∀ k front second, post () ⟨front, second, [.node k]⟩) : p.Ensures post v := by
  unfold typeDeclarationOf? at found
  split at found
  · cases found
    exact ensures_typeWithMembers (fun _ member => member) (rest _)
  · cases found
    exact ensures_typeWithMembers (fun _ member => member) (rest _)
  · cases found
    exact ensures_typeWithMembers (fun _ member => member) (rest _)
  · cases found
    exact ensures_delegateDeclaration (rest _)
  · cases found

theorem ensures_member
    (rest : ∀ k front second, post () ⟨front, second, v.parts ++ [.node k]⟩) :
    member.Ensures post v := by
  simp only [member, modifiers, ensures_group, ensures_bind, ensures_current]
  intro front second moved
  split
  · next found => exact ensures_typeDeclarationOf found rest
  · simp only [ensures_ite, ensures_bind, ensures_secondIs, ensures_atTypeStart]
    refine ⟨fun _ => ensures_event rest, fun _ => ⟨fun constructs => ?_, fun _ => ⟨fun _ => ?_, fun _ =>
      trivial⟩⟩⟩
    · simp only [Bool.and_eq_true, beq_iff_eq] at constructs
      exact ensures_constructor constructs.1 (rest _)
    · exact ensures_typedMember (List.nil_append _) rest

theorem ensures_typeDeclaration
    (rest : ∀ k front second, post () ⟨front, second, v.parts ++ [.node k]⟩) :
    typeDeclaration.Ensures post v := by
  simp only [typeDeclaration, modifiers, ensures_group, ensures_bind, ensures_current]
  intro front second moved
  split
  · next found => exact ensures_typeDeclarationOf found rest
  · exact trivial

theorem keeps_members : members.Ensures (fun _ w => Construct.members.Leaves v w.parts) v := by
  refine ensures_ite.mpr ⟨fun _ => ensures_bind.mpr ?_, fun _ => ⟨[], by simp⟩⟩
  refine ensures_member fun k front second => ?_
  exact ensures_rest (.free (fun _ => trivial) fun _ _ => Iff.rfl) trivial

end Members

section Namespaces

variable {post : Unit → Sketch → Prop}

theorem ensures_usingDirective
    (rest : ∀ front second, post () ⟨front, second, v.parts ++ [.node .usingDirective]⟩) :
    usingDirective.Ensures post v := by
  have target : ∀ w : Sketch,
      (do typeOr .namespaceOrType; require .semicolon .semicolonAfterUsing : Parse Unit).Ensures
      (fun a w => Kind.usingDirective.Whole w.parts ∧
        post a { w with parts := v.parts ++ [.node .usingDirective] }) w := by
    intro w
    refine ensures_bind.mpr (ensures_typeOr fun k front second isType => ?_)
    exact ensures_require (by decide) fun _ second => ⟨⟨k, isType, by simp⟩, rest _ _⟩
  refine ensures_node.mpr (ensures_bind.mpr (ensures_require (by decide) fun _ second => ?_))
  refine ensures_bind.mpr ((ensures_atIdentifier _).mpr
    (ensures_bind.mpr ((ensures_secondIs _).mpr ?_)))
  refine ensures_ite.mpr ⟨fun _ => ensures_bind.mpr (ensures_node.mpr ?_), fun _ => target _⟩
  refine ensures_bind.mpr (ensures_identifierName fun _ second next moved _ => ⟨?_, target _⟩)
  simp [Kind.Whole]

theorem keeps_usings : usings.Ensures (fun _ w => Construct.usings.Leaves v w.parts) v := by
  refine ensures_ite.mpr ⟨fun _ => ensures_bind.mpr ?_, fun _ => ⟨[], by simp⟩⟩
  refine ensures_usingDirective fun front second => ?_
  exact ensures_rest (.free (fun _ => trivial) fun _ _ => Iff.rfl) trivial

theorem ensures_namespaceDeclaration
    (rest : ∀ front second, post () ⟨front, second, v.parts ++ [.node .namespaceDeclaration]⟩) :
    namespaceDeclaration.Ensures post v := by
  simp only [namespaceDeclaration, ensures_node, ensures_bind, ensures_atIdentifier, ensures_atKind,
    ensures_ite, ensures_missing, ensures_pure, implies_true, and_true]
  refine ensures_require (by decide) fun _ second _ => ensures_type fun k front second isType => ?_
  refine ⟨fun _ second moved _ => ⟨trivial, fun front second ps leaves => ?_⟩, fun _ => ?_⟩
  · obtain ⟨more, rfl⟩ := leaves
    exact ⟨⟨k, isType, by simp⟩, rest _ _⟩
  · refine ensures_expect (by decide) fun _ second => ⟨fun _ => ?_, fun none => absurd rfl none⟩
    refine ⟨trivial, fun front second ps leaves => ?_⟩
    obtain ⟨more, rfl⟩ := leaves
    exact ensures_require (by decide) fun _ second => ⟨⟨k, isType, by simp⟩, rest _ _⟩

theorem ensures_namespaceMember
    (rest : ∀ k front second, post () ⟨front, second, v.parts ++ [.node k]⟩) :
    namespaceMember.Ensures post v := by
  simp only [namespaceMember, atTypeDeclaration, ensures_bind, ensures_atKind, ensures_ite,
    ensures_current, ensures_pure]
  exact ⟨fun _ => ensures_namespaceDeclaration (rest _), fun _ => ⟨fun _ =>
    ensures_typeDeclaration rest, fun _ => trivial⟩⟩

theorem keeps_namespaceMembers {braced : Bool} :
    (namespaceMembers braced).Ensures
      (fun _ w => (Construct.namespaceMembers braced).Leaves v w.parts) v := by
  have members : (do namespaceMember; inner (.namespaceMembers braced) : Parse Unit).Ensures
      (fun _ w => (Construct.namespaceMembers braced).Leaves v w.parts) v := by
    refine ensures_bind.mpr (ensures_namespaceMember fun k front second => ?_)
    exact ensures_rest (.free (fun _ => trivial) fun _ _ => Iff.rfl) trivial
  have none : (Construct.namespaceMembers braced).Leaves v v.parts := ⟨[], by simp⟩
  cases braced with
  | false => exact ensures_ite.mpr ⟨fun _ => members, fun _ => none⟩
  | true => exact ensures_ite.mpr ⟨fun _ => members, fun _ => none⟩

theorem keeps_namespaceBody {braced : Bool} :
    (namespaceBody braced).Ensures
      (fun _ w => (Construct.namespaceBody braced).Leaves v w.parts) v := by
  refine ⟨trivial, fun front second ps usings => ⟨trivial, fun front second qs members => ?_⟩⟩
  obtain ⟨more, rfl⟩ := usings
  obtain ⟨others, rfl⟩ := members
  exact ⟨more ++ others, by simp⟩

end Namespaces

theorem rules_keep : RulesKeep := by
  intro c v asks
  cases c with
  | namespaceBody braced => exact keeps_namespaceBody
  | usings => exact keeps_usings
  | namespaceMembers braced => exact keeps_namespaceMembers
  | typeParameters => exact keeps_typeParameters
  | baseTypes => exact keeps_baseTypes
  | members => exact keeps_members
  | accessors => exact keeps_accessors
  | parameters => exact keeps_parameters
  | block => exact keeps_block
  | statements => exact keeps_statements
  | statement => exact keeps_statement
  | declarators => exact keeps_declarators
  | type => exact keeps_type
  | qualifiers => exact keeps_qualifiers asks
  | ranks => exact keeps_ranks
  | typeArguments => exact keeps_typeArguments
  | expression power => exact keeps_expression power
  | operators power => exact keeps_operators asks
  | unary => exact keeps_unary
  | suffixes => exact keeps_suffixes asks
  | arguments => exact keeps_arguments

end Parse
end SharpRefactor
