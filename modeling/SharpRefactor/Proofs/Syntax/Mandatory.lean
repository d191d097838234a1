import SharpRefactor.Proofs.Parsing.Kept
import SharpRefactor.Proofs.Syntax.Extents
import SharpRefactor.Syntax.Outline

/-!
The parts that no node lacks in a well-formed text. What the parser leaves behind without objections
is read off by the views: `Kind.mandatory` names the facets that must be there, and `Node.has` asks
for one.
-/

namespace SharpRefactor

/-- The facets that a node of a kind has in a well-formed text. -/
def Kind.mandatory : Kind → List String
  | .usingDirective => ["target"]
  | .nameEquals | .namespaceDeclaration | .classDeclaration | .structDeclaration
  | .interfaceDeclaration | .variableDeclarator | .parameter => ["name"]
  | .delegateDeclaration | .methodDeclaration => ["return_type", "name", "parameters"]
  | .constructorDeclaration => ["parameters"]
  | .fieldDeclaration | .eventFieldDeclaration | .localDeclarationStatement => ["declaration"]
  | .propertyDeclaration | .eventDeclaration => ["ty", "name"]
  | .arrowExpressionClause | .expressionStatement | .argument | .parenthesizedExpression =>
    ["expression"]
  | .equalsValueClause => ["value"]
  | .variableDeclaration => ["ty", "declarators"]
  | .identifierName | .literalExpression => ["token"]
  | .genericName => ["list", "arguments"]
  | .typeArgumentList => ["arguments"]
  | .qualifiedName => ["left", "right"]
  | .predefinedType => ["keyword"]
  | .arrayType => ["element", "rank"]
  | .memberAccessExpression => ["expression", "name"]
  | .invocationExpression => ["expression", "arguments"]
  | .objectCreationExpression => ["ty", "arguments"]
  | .anonymousMethodExpression => ["body"]
  | .parenthesizedLambdaExpression => ["parameters", "body"]
  | .simpleLambdaExpression => ["parameter", "body"]
  | .assignmentExpression => ["left", "right", "operator"]
  | .castExpression => ["ty", "expression"]
  | _ => []

/-- Whether a facet is there: a node or a token that is not missing, some nodes, a number that is
not zero. -/
def Facet.present : Facet → Bool
  | .node n => n.isSome
  | .nodes ns => !ns.isEmpty
  | .token t => t.isSome
  | .number n => n != 0
  | .text _ | .texts _ | .flag _ => true

def Node.has (n : Node) (name : String) : Bool :=
  ((n.facets?.getD []).lookup name).any Facet.present

/-! ### From the parts of a node to its view -/

namespace Node

def parts (n : Node) : List Part := n.tree.children.parts

variable {n : Node} {k : Kind}

theorem map_kind_children (n : Node) : n.children.map kind = nodeKinds n.parts := by
  have trees : n.children.map kind = (n.tree.children.filter Tree.isNode).map Tree.kind := by
    rw [← map_tree_children, List.map_map]
    rfl
  rw [trees, parts]
  induction n.tree.children with
  | nil => rfl
  | cons t ts ih =>
      cases t with
      | leaf token =>
          cases trivia : token.isTrivia <;>
            simpa [Forest.parts, Tree.part?, Tree.isNode, trivia] using ih
      | node k us => exact congrArg (k :: ·) ih

theorem exists_child (h : .node k ∈ n.parts) : ∃ m ∈ n.children, m.kind = k := by
  have listed : k ∈ n.children.map kind := by
    rw [map_kind_children]
    exact List.mem_filterMap.mpr ⟨_, h, rfl⟩
  exact List.mem_map.mp listed

theorem exists_token (h : .token k ∈ n.parts) :
    ∃ t ∈ n.tokens, t.kind = k ∧ t.kind.isTrivia = false := by
  obtain ⟨u, child, part⟩ := List.mem_filterMap.mp h
  obtain ⟨⟨u, start, index⟩, placed, rfl⟩ := exists_mem_elements child
  cases u with
  | node k us => cases part
  | leaf token =>
      obtain ⟨real, same⟩ := Option.ite_none_left_eq_some.mp part
      cases same
      have listed : ⟨token, start⟩ ∈ n.tokens := List.mem_filterMap.mpr ⟨_, placed, rfl⟩
      exact ⟨_, listed, rfl, Bool.eq_false_iff.mpr real⟩

theorem childWhere?_isSome {p : Kind → Bool} (h : .node k ∈ n.parts) (holds : p k) :
    (n.childWhere? p).isSome := by
  obtain ⟨m, child, rfl⟩ := exists_child h
  exact List.find?_isSome.mpr ⟨m, child, holds⟩

theorem childOf?_isSome (h : .node k ∈ n.parts) : (n.childOf? k).isSome :=
  childWhere?_isSome h (by simp)

theorem childrenOf_ne_nil (h : .node k ∈ n.parts) : n.childrenOf k ≠ [] := by
  obtain ⟨m, child, rfl⟩ := exists_child h
  exact List.ne_nil_of_mem (List.mem_filter.mpr ⟨child, by simp⟩)

theorem typeChild?_isSome (h : HasType n.parts) : n.typeChild?.isSome := by
  obtain ⟨k, isType, member⟩ := h
  exact childWhere?_isSome member isType

theorem typeChildren_ne_nil (h : HasType n.parts) : n.typeChildren ≠ [] := by
  obtain ⟨k, isType, member⟩ := h
  obtain ⟨m, child, rfl⟩ := exists_child member
  exact List.ne_nil_of_mem (List.mem_filter.mpr ⟨child, isType⟩)

theorem length_children (n : Node) : n.children.length = (nodeKinds n.parts).length := by
  rw [← map_kind_children, List.length_map]

theorem firstChild?_isSome (h : 1 ≤ (nodeKinds n.parts).length) : n.firstChild?.isSome := by
  rw [← length_children] at h
  rw [firstChild?, List.head?_eq_getElem?, List.getElem?_eq_getElem h]
  rfl

theorem secondChild?_isSome (h : 2 ≤ (nodeKinds n.parts).length) : n.secondChild?.isSome := by
  rw [← length_children] at h
  rw [secondChild?, List.getElem?_eq_getElem h]
  rfl

theorem typeChildren_isSome {i : Nat} (h : i < ((nodeKinds n.parts).filter Kind.isType).length) :
    n.typeChildren[i]?.isSome := by
  have same : n.typeChildren.length = ((nodeKinds n.parts).filter Kind.isType).length := by
    rw [← map_kind_children, List.filter_map, List.length_map]
    rfl
  rw [List.getElem?_eq_getElem (same ▸ h)]
  rfl

theorem tokens_find?_isSome {p : PlacedToken → Bool} (h : .token k ∈ n.parts)
    (holds : ∀ t : PlacedToken, t.kind = k → t.kind.isTrivia = false → p t) :
    (n.tokens.find? p).isSome := by
  obtain ⟨t, listed, same, real⟩ := exists_token h
  exact List.find?_isSome.mpr ⟨t, listed, holds t same real⟩

theorem declaredName?_isSome (h : .token .identifier ∈ n.parts) : n.declaredName?.isSome := by
  rw [declaredName?]
  split
  · exact tokens_find?_isSome h fun t same _ => by simp [same]
  · obtain ⟨t, listed, same, -⟩ := exists_token h
    have some : n.tokens.filter (·.kind == .identifier) ≠ [] :=
      List.ne_nil_of_mem (List.mem_filter.mpr ⟨listed, by simp [same]⟩)
    rw [lastIdentifier?, List.getLast?_eq_some_getLast some]
    rfl

theorem typeArguments_ne_nil (listed : .node .typeArgumentList ∈ n.parts)
    (inside : ∀ m ∈ n.children, m.kind.Whole m.parts) : n.typeArguments ≠ [] := by
  obtain ⟨list, found⟩ := Option.isSome_iff_exists.mp (childOf?_isSome listed)
  have whole := inside list (List.mem_of_find?_eq_some found)
  rw [show list.kind = .typeArgumentList by simpa using List.find?_some found] at whole
  rw [typeArguments, typeArgumentList?, found]
  exact typeChildren_ne_nil whole

/-- A node that has the parts of its kind has its facets. -/
theorem has_of_whole (own : n.kind.Whole n.parts) (inside : ∀ m ∈ n.children, m.kind.Whole m.parts) :
    ∀ name ∈ n.kind.mandatory, n.has name := by
  cases kind : n.kind <;> try exact fun _ member => absurd member List.not_mem_nil
  all_goals
    simp only [kind, Kind.Whole] at own
    simp only [Kind.mandatory, List.mem_cons, List.not_mem_nil, or_false, forall_eq_or_imp, forall_eq,
      has, facets?, typeFacets, kind, Option.getD_some, List.lookup_cons, String.reduceBEq, BEq.rfl,
      Option.any_some, Facet.present, Option.isSome_filter, bne_iff_ne, ne_eq]
  case usingDirective | namespaceDeclaration => exact typeChild?_isSome own
  case typeArgumentList => simpa using typeChildren_ne_nil own
  case nameEquals | constructorDeclaration | fieldDeclaration | eventFieldDeclaration
      | localDeclarationStatement | anonymousMethodExpression => exact childOf?_isSome own
  case classDeclaration | structDeclaration | interfaceDeclaration | variableDeclarator
      | parameter => exact declaredName?_isSome own
  case identifierName => exact tokens_find?_isSome own fun t same _ => by simp [same]
  case delegateDeclaration =>
    exact ⟨typeChild?_isSome own.1, declaredName?_isSome own.2.1, childOf?_isSome own.2.2⟩
  case methodDeclaration =>
    exact ⟨typeChild?_isSome own.1, declaredName?_isSome own.2.1, childOf?_isSome own.2.2.1⟩
  case propertyDeclaration | eventDeclaration =>
    exact ⟨typeChild?_isSome own.1, declaredName?_isSome own.2⟩
  case arrowExpressionClause | expressionStatement | argument | parenthesizedExpression
      | equalsValueClause => exact firstChild?_isSome own
  case variableDeclaration =>
    exact ⟨typeChild?_isSome own.1, by simpa [declarators] using childrenOf_ne_nil own.2⟩
  case genericName =>
    exact ⟨childOf?_isSome own, by simpa using typeArguments_ne_nil own inside⟩
  case qualifiedName => exact ⟨typeChildren_isSome (by omega), typeChildren_isSome own⟩
  case predefinedType =>
    obtain ⟨k, predefined, member⟩ := own
    exact tokens_find?_isSome member fun t same _ => by simpa [same] using predefined
  case arrayType =>
    exact ⟨typeChild?_isSome own.1, by simpa [rank] using childrenOf_ne_nil own.2⟩
  case memberAccessExpression =>
    exact ⟨firstChild?_isSome (by omega), secondChild?_isSome own⟩
  case invocationExpression =>
    exact ⟨firstChild?_isSome (by omega), childOf?_isSome own.2⟩
  case objectCreationExpression => exact ⟨typeChild?_isSome own.1, childOf?_isSome own.2⟩
  case parenthesizedLambdaExpression | simpleLambdaExpression =>
    exact ⟨childOf?_isSome own.2, secondChild?_isSome own.1⟩
  case assignmentExpression =>
    obtain ⟨two, k, assigns, member⟩ := own
    refine ⟨firstChild?_isSome (by omega), secondChild?_isSome two, ?_⟩
    exact tokens_find?_isSome member fun t same _ => by simpa [same] using assigns
  case castExpression =>
    obtain ⟨two, k, isType, first⟩ := own
    refine ⟨?_, secondChild?_isSome two⟩
    rw [← map_kind_children, List.head?_map] at first
    obtain ⟨m, child, rfl⟩ := Option.map_eq_some_iff.mp first
    simp [firstChild?, child, isType]
  case literalExpression =>
    obtain ⟨k, member⟩ := own
    exact tokens_find?_isSome member fun t _ real => by simp [real]

/-! ### Every node of a tree -/

theorem own_whole (isNode : n.tree.isNode) (whole : n.tree.Whole) : n.kind.Whole n.parts := by
  rw [parts, kind]
  generalize n.tree = tree at isNode whole
  cases whole with
  | leaf token => cases isNode
  | node own each => exact own

theorem children_whole (whole : n.tree.Whole) : ∀ m ∈ n.children, m.kind.Whole m.parts := by
  intro m child
  have member := tree_mem_of_mem_children child
  refine own_whole (isNode_of_mem_children child) ?_
  generalize n.tree = tree at whole member
  cases whole with
  | leaf token => cases member
  | node own each => exact each _ member

theorem childOf?_eq_none (missing : .node k ∉ n.parts) : n.childOf? k = none := by
  refine List.find?_eq_none.mpr fun m child same => missing ?_
  have listed := List.mem_map_of_mem (f := kind) child
  rw [map_kind_children, beq_iff_eq.mp same] at listed
  obtain ⟨part, member, found⟩ := List.mem_filterMap.mp listed
  cases part with
  | token k => cases found
  | node k =>
      cases found
      exact member

/-- A method has a block or an expression for its body, or neither. -/
theorem bodies_of_whole (own : n.kind.Whole n.parts) (method : n.kind = .methodDeclaration) :
    n.block? = none ∨ n.arrowClause? = none := by
  rw [method] at own
  obtain ⟨-, -, -, one⟩ := own
  exact one.imp childOf?_eq_none childOf?_eq_none

end Node

theorem whole_of_mem_descendants {t : Tree} {n : Node} (whole : t.Whole)
    (inside : n ∈ (Node.root t).descendants) : n.tree.Whole :=
  Node.of_mem_descendants (fun _ _ parent => by cases parent with | node own each => exact each)
    whole inside

/-- The tree of a text without objections is whole. -/
theorem parse_whole {text : String} (ok : (parse text).ok) : (parse text).root.Whole := by
  let ts := (lex text).map Lexeme.token
  have clean : (readFile ts).errors = [] := by
    have none : (parse text).errors = [] := by simpa [ParseResult.ok] using ok
    simpa [parse, ts] using (List.append_eq_nil_iff.mp none).2
  have file : Parse.file.Ensures (fun _ _ => True) (ParseState.start ts).sketch :=
    ⟨trivial, fun _ _ _ _ => trivial⟩
  have none : ∀ t ∈ (ParseState.start ts).level, t.Whole := fun _ member =>
    absurd member List.not_mem_nil
  have whole := ((Parse.runs_file ts).leaves Parse.rules_keep file none clean).2
  exact .node trivial fun t inside => whole t (List.mem_reverse.mp inside)

/-- In the tree of a text without objections no node lacks a facet that its kind must have, and no
method has both a block and an expression for its body. -/
theorem parse_ok_has {text : String} (ok : (parse text).ok) :
    ∀ n ∈ (Node.root (parse text).root).descendants,
      (∀ name ∈ n.kind.mandatory, n.has name) ∧
      (n.kind = .methodDeclaration → n.block? = none ∨ n.arrowClause? = none) := by
  intro n inside
  have whole := whole_of_mem_descendants (parse_whole ok) inside
  have own := Node.own_whole (Node.isNode_of_mem_descendants inside) whole
  exact ⟨Node.has_of_whole own (Node.children_whole whole), Node.bodies_of_whole own⟩

/-- A method whose body is an expression. -/
theorem parse_ok_has_method :
    let text := "class C { L<int> F(int x) => f.g(x); }"
    (parse text).ok ∧
    ∃ n ∈ (Node.root (parse text).root).descendants, n.kind = .methodDeclaration ∧
      (∀ name ∈ ["return_type", "name", "parameters"], n.has name) ∧
      (n.block? = none ∨ n.arrowClause? = none) := by
  intro text
  obtain ⟨ok, some⟩ : (parse text).ok ∧ ((Node.root (parse text).root).descendants.find?
      (·.kind == .methodDeclaration)).isSome := by decide +kernel
  obtain ⟨n, found⟩ := Option.isSome_iff_exists.mp some
  have inside := List.mem_of_find?_eq_some found
  have method : n.kind = .methodDeclaration := by simpa using List.find?_some found
  obtain ⟨facets, bodies⟩ := parse_ok_has ok n inside
  rw [method] at facets
  exact ⟨ok, n, inside, method, facets, bodies method⟩

end SharpRefactor
