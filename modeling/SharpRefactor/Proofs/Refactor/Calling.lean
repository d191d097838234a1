import SharpRefactor.Proofs.Parsing.TypeName
import SharpRefactor.Proofs.Refactor.Faithful

/-!
The anonymous method that is built for a signature, read back. It has the parameters of the
signature under their names and with the spellings of their types, and its body does nothing but
hand them on to the target. It is built exactly if all these spellings are types; the first one that
is none is named otherwise.
-/

namespace SharpRefactor

/-- The first item of a list that is bad, with all before it good, is its head or is in its tail. -/
theorem exists_first_cons {α : Type} {good bad : α → Prop} {a : α} {l : List α} :
    (∃ before x after, a :: l = before ++ x :: after ∧ (∀ y ∈ before, good y) ∧ bad x) ↔
      bad a ∨ good a ∧
        ∃ before x after, l = before ++ x :: after ∧ (∀ y ∈ before, good y) ∧ bad x := by
  constructor
  · rintro ⟨before, x, after, split, fine, wrong⟩
    cases before with
    | nil =>
        cases split
        exact .inl wrong
    | cons b before =>
        cases split
        obtain ⟨own, later⟩ := List.forall_mem_cons.mp fine
        exact .inr ⟨own, before, x, after, rfl, later, wrong⟩
  · rintro (wrong | ⟨own, before, x, after, rfl, fine, wrong⟩)
    · exact ⟨[], a, l, rfl, by simp, wrong⟩
    · exact ⟨a :: before, x, after, rfl, List.forall_mem_cons.mpr ⟨own, fine⟩, wrong⟩

namespace Node

theorem map_token_lastIdentifier? (n : Node) : n.lastIdentifier?.map PlacedToken.token =
    ((n.tree.children.filterMap Tree.token?).filter (·.kind == .identifier)).getLast? := by
  rw [← map_token_tokens, List.filter_map, List.getLast?_map]
  rfl

theorem map_token_firstIdentifier? (n : Node) : n.firstIdentifier?.map PlacedToken.token =
    (n.tree.children.filterMap Tree.token?).find? (·.kind == .identifier) := by
  rw [← map_token_tokens, List.find?_map]
  rfl

end Node

theorem Factory.filter_isNode_separated {opening closing : Kind} {ts : Forest}
    (nodes : ∀ t ∈ ts, t.isNode) : (separated opening closing ts).filter Tree.isNode = ts := by
  cases ts with
  | nil => rfl
  | cons item items =>
      obtain ⟨first, later⟩ := List.forall_mem_cons.mp nodes
      have rest : (items.flatMap fun t => [fixed .comma, blank, t]).filter Tree.isNode = items := by
        clear nodes
        induction items with
        | nil => rfl
        | cons t items ih =>
            obtain ⟨own, later⟩ := List.forall_mem_cons.mp later
            rw [List.flatMap_cons, List.filter_append, ih later]
            change [t].filter Tree.isNode ++ items = _
            rw [List.filter_cons_of_pos own]
            rfl
      change ((item :: items.flatMap fun t => [fixed .comma, blank, t]) ++ [fixed closing]).filter
        Tree.isNode = _
      rw [List.filter_append, List.filter_cons_of_pos first, rest]
      exact List.append_nil _

/-- Items in a list that was written are read back. -/
theorem Node.childrenOf_separated {n : Node} {j k opening closing : Kind} {ts : Forest}
    (made : n.tree = .node j (Factory.separated opening closing ts))
    (items : ∀ t ∈ ts, t.isNode ∧ t.kind = k) : (n.childrenOf k).map tree = ts := by
  have inside : n.tree.children.filter Tree.isNode = ts := by
    rw [made]
    exact Factory.filter_isNode_separated fun t member => (items t member).1
  rw [map_tree_childrenOf, inside]
  exact List.filter_eq_self.mpr fun t member => beq_iff_eq.mpr (items t member).2

namespace AnonymousMethod

/-- A parameter that is written for one of a signature: it has the name, and the spelling of the
type without the white space around it. -/
structure Writes (r : Resolver) (offset : Nat) (p : Parameter) (n : Node) : Prop where
  name : n.declaredName?.map PlacedToken.text = some p.name
  type : ∃ text type, r.display p.type offset = .ok text ∧ parseTypeName text = .ok type.tree ∧
    n.typeChild? = some type ∧ type.text = trimmed text

structure HandsOn (p : Parameter) (n : Node) : Prop where
  name : ∃ name, n.firstChild? = some name ∧ name.kind = .identifierName ∧ name.text = p.name ∧
    name.firstIdentifier?.map PlacedToken.text = some p.name

/-- An anonymous method with the parameters of a signature that calls a target with them. -/
structure Calls (r : Resolver) (s : Signature) (target : Handle) (n : Node) : Prop where
  kind : n.kind = .anonymousMethodExpression
  lists : (n.childrenOf .parameterList).length = if s.parameters = [] then 0 else 1
  parameters : List.Forall₂ (Writes r target.range.start) s.parameters
    ((n.parameterList?.map Node.parameters).getD [])
  body : ∃ block statement call callee list, n.block? = some block ∧ block.children = [statement] ∧
    statement.kind = (if s.returns = .void then .expressionStatement else .returnStatement) ∧
    statement.firstChild? = some call ∧ call.kind = .invocationExpression ∧
    call.children = [callee, list] ∧ callee.tree = target.node.tree ∧
    list.kind = .argumentList ∧ List.Forall₂ HandsOn s.parameters list.arguments

def Writable (r : Resolver) (offset : Nat) (p : Parameter) : Prop :=
  ∃ text tree, r.display p.type offset = .ok text ∧ parseTypeName text = .ok tree

variable {s : Signature} {r : Resolver} {offset : Nat} {p : Parameter} {n : Node}

/-! ### One parameter -/

theorem exists_parameter_iff :
    (∃ tree, parameter p (r.display p.type offset) = .ok tree) ↔ Writable r offset p := by
  simp only [parameter_eq_ok_iff]
  exact ⟨fun ⟨_, text, type, displayed, read, _⟩ => ⟨text, type, displayed, read⟩,
    fun ⟨text, type, displayed, read⟩ => ⟨_, text, type, displayed, read, rfl⟩⟩

theorem parameter_eq_error_iff {spelled : Except Surrounded String} {e : RefactorError} :
    parameter p spelled = .error e ↔
      (∃ around, spelled = .error around ∧ e = .surroundedType around.spelling) ∨
      ∃ text, spelled = .ok text ∧
        (parseTypeName text = .error .surrounded ∧ e = .surroundedType text ∨
          ∃ d, parseTypeName text = .error (.malformed d) ∧ e = .invalidType text) := by
  cases spelled with
  | error around => simp [parameter, eq_comm]
  | ok text =>
      cases read : parseTypeName text with
      | ok type => simp [parameter, read]
      | error wrong => cases wrong <;> simp [parameter, read, eq_comm]

theorem parameter_isNode {spelled : Except Surrounded String} {tree : Tree}
    (made : parameter p spelled = .ok tree) : tree.isNode ∧ tree.kind = .parameter := by
  obtain ⟨text, type, -, -, rfl⟩ := parameter_eq_ok_iff.mp made
  exact ⟨rfl, rfl⟩

/-- What is written for a parameter is read back. -/
theorem writes_of_tree (made : parameter p (r.display p.type offset) = .ok n.tree) :
    Writes r offset p n := by
  obtain ⟨text, type, displayed, read, tree⟩ := parameter_eq_ok_iff.mp made
  obtain ⟨isNode, isType⟩ := parseTypeName_isType read
  have kind : n.kind = .parameter := by rw [Node.kind, tree]; rfl
  obtain ⟨m, only, rfl⟩ : ∃ m, n.children = [m] ∧ m.tree = type := by
    refine Node.children_eq_singleton ?_
    rw [tree]
    exact List.filter_cons_of_pos isNode
  refine ⟨?_, text, m, displayed, read, ?_, parseTypeName_text read⟩
  · have last : n.lastIdentifier?.map PlacedToken.token = some ⟨.identifier, p.name⟩ := by
      rw [Node.map_token_lastIdentifier?, tree]
      -- the type is a node, so the identifiers in it are not among these tokens
      cases own : m.tree with
      | leaf token =>
          rw [own] at isNode
          cases isNode
      | node k ts => rfl
    rw [Node.declaredName?, kind]
    change n.lastIdentifier?.map (Token.text ∘ PlacedToken.token) = _
    rw [← Option.map_map, last]
    rfl
  · rw [Node.typeChild?, Node.childWhere?, only]
    exact List.find?_cons_of_pos isType

/-! ### All parameters -/

/-- The first parameter that cannot be written decides. -/
theorem parameters_eq_error_iff {ps : List Parameter} {e : RefactorError} :
    (parameters r offset ps).result = .error e ↔
      ∃ before p after, ps = before ++ p :: after ∧
        (∀ q ∈ before, ∃ tree, parameter q (r.display q.type offset) = .ok tree) ∧
        parameter p (r.display p.type offset) = .error e := by
  induction ps with
  | nil => simp [parameters]
  | cons p ps ih =>
      rw [parameters_cons, exists_first_cons, ← ih]
      cases parameter p (r.display p.type offset) with
      | error f => simp [bind, Except.bind]
      | ok tree =>
          cases (parameters r offset ps).result <;> simp [bind, Except.bind, pure, Except.pure]

/-! ### The method around them -/

variable {target : Tree} {trees : Forest}

/-- What is written for an argument is read back. -/
theorem handsOn_of_tree (made : n.tree = Factory.argument (Factory.identifierName p.name)) :
    HandsOn p n := by
  obtain ⟨name, only, tree⟩ : ∃ name, n.children = [name] ∧
      name.tree = Factory.identifierName p.name :=
    Node.children_eq_singleton (by rw [made]; rfl)
  refine ⟨name, by rw [Node.firstChild?, only]; rfl, by rw [Node.kind, tree]; rfl, ?_, ?_⟩
  · rw [Node.text, tree, Tree.text]
    simp [Factory.identifierName, tokensText]
  · change name.firstIdentifier?.map (Token.text ∘ PlacedToken.token) = _
    rw [← Option.map_map, Node.map_token_firstIdentifier?, tree]
    rfl

theorem assemble_children (s : Signature) (target : Tree) (trees : Forest) :
    (assemble s target trees).children.filter Tree.isNode =
      (parameterList? trees).toList ++ [Factory.block [statement s target]] := by
  cases trees <;> rfl

theorem parameters_of_tree {callee : Tree} (made : n.tree = assemble s callee trees)
    (items : ∀ t ∈ trees, t.isNode ∧ t.kind = .parameter) :
    ((n.parameterList?.map Node.parameters).getD []).map Node.tree = trees := by
  have list : n.parameterList?.map Node.tree = parameterList? trees := by
    rw [Node.parameterList?, Node.map_tree_childOf?, made, assemble_children]
    cases trees <;> rfl
  cases trees with
  | nil =>
      rw [Option.map_eq_none_iff.mp list]
      rfl
  | cons t ts =>
      obtain ⟨l, found, tree⟩ := Option.map_eq_some_iff.mp list
      rw [found]
      exact Node.childrenOf_separated tree items

theorem arguments_of_tree {ps : List Parameter}
    (made : n.tree = Factory.argumentList (ps.map fun p => Factory.identifierName p.name)) :
    List.Forall₂ HandsOn ps n.arguments := by
  have trees : n.arguments.map Node.tree =
      ps.map fun p => Factory.argument (Factory.identifierName p.name) := by
    rw [Factory.argumentList, List.map_map] at made
    refine Node.childrenOf_separated made fun t member => ?_
    obtain ⟨p, -, rfl⟩ := List.mem_map.mp member
    exact ⟨rfl, rfl⟩
  have each : List.Forall₂ (fun p t => t = Factory.argument (Factory.identifierName p.name)) ps
      (n.arguments.map Node.tree) := by
    rw [trees, List.forall₂_map_right_iff]
    exact List.forall₂_same.mpr fun _ _ => rfl
  exact (List.forall₂_map_right_iff.mp each).imp fun _ _ => handsOn_of_tree

theorem call_of_tree {callee : Tree} (real : callee.isNode) (made : n.tree = call s callee) :
    n.kind = .invocationExpression ∧ ∃ m list, n.children = [m, list] ∧ m.tree = callee ∧
      list.kind = .argumentList ∧ List.Forall₂ HandsOn s.parameters list.arguments := by
  refine ⟨by rw [Node.kind, made]; rfl, ?_⟩
  obtain ⟨m, list, two, reached, handed⟩ := Node.children_eq_pair (n := n) (t := callee) (by
    rw [made]
    exact List.filter_cons_of_pos real)
  exact ⟨m, list, two, reached, by rw [Node.kind, handed]; rfl, arguments_of_tree handed⟩

theorem statement_of_tree {callee : Tree} (made : n.tree = statement s callee) :
    n.kind = (if s.returns = .void then .expressionStatement else .returnStatement) ∧
      ∃ m, n.firstChild? = some m ∧ m.tree = call s callee := by
  have one : n.tree.children.filter Tree.isNode = [call s callee] := by
    rw [made, statement]
    cases s.returnsVoid <;> rfl
  obtain ⟨m, only, tree⟩ := Node.children_eq_singleton one
  refine ⟨?_, m, by rw [Node.firstChild?, only]; rfl, tree⟩
  rw [Node.kind, made, statement, Signature.returnsVoid, Ty.isVoid]
  by_cases void : s.returns = .void
  · rw [if_pos void, if_pos (decide_eq_true void)]
    rfl
  · rw [if_neg void, if_neg (by simpa using void)]
    rfl

/-- What is assembled from the parameters is read back. -/
theorem calls_of_tree {target : Handle} (real : target.node.tree.isNode)
    (written : List.Forall₂ (fun p tree => parameter p (r.display p.type target.range.start) = .ok tree)
      s.parameters trees)
    (made : n.tree = assemble s target.node.tree trees) : Calls r s target n := by
  have children := assemble_children s target.node.tree trees
  rw [← made] at children
  refine ⟨by rw [Node.kind, made]; rfl, ?_, ?_, ?_⟩
  · have none_iff : trees = [] ↔ s.parameters = [] := by
      rw [← List.length_eq_zero_iff, ← written.length_eq, List.length_eq_zero_iff]
    rw [← List.length_map Node.tree, Node.map_tree_childrenOf, children]
    simp only [← none_iff]
    cases trees <;> rfl
  · have items : ∀ t ∈ trees, t.isNode ∧ t.kind = .parameter :=
      ((List.forall₂_and_left trees _).mp
        (written.flip.imp fun _ _ one => ⟨parameter_isNode one, one⟩)).1
    rw [← parameters_of_tree made items, List.forall₂_map_right_iff] at written
    exact written.imp fun _ _ => writes_of_tree
  · obtain ⟨block, blocked, tree⟩ : ∃ block, n.block? = some block ∧
        block.tree = Factory.block [statement s target.node.tree] := by
      refine Option.map_eq_some_iff.mp ?_
      rw [Node.block?, Node.map_tree_childOf?, children]
      cases trees <;> rfl
    obtain ⟨statement, only, inside⟩ : ∃ m, block.children = [m] ∧
        m.tree = statement s target.node.tree := by
      refine Node.children_eq_singleton ?_
      rw [tree, statement]
      cases s.returnsVoid <;> rfl
    obtain ⟨kind, call, first, invoked⟩ := statement_of_tree inside
    obtain ⟨invocation, callee, list, rest⟩ := call_of_tree real invoked
    exact ⟨block, statement, call, callee, list, blocked, only, kind, first, invocation, rest⟩

/-- An anonymous method that calls a target is built exactly if all parameter types are displayed as
types; the first text that is none is named otherwise, and nothing else is found wrong with texts
that no comments surround. What is built has the parameters and the body that the signature and the
target ask for. A target taken from a version is a node of it, never a token. -/
theorem build_calls (s : Signature) (target : Handle) (r : Resolver)
    (real : target.node.tree.isNode) :
    let offset := target.range.start
    let built := (build s target r).result
    ((∃ new, built = .ok new) ↔ ∀ p ∈ s.parameters, Writable r offset p) ∧
    (∀ text, built = .error (.invalidType text) ↔
      ∃ before p after, s.parameters = before ++ p :: after ∧
        (∀ q ∈ before, Writable r offset q) ∧
        r.display p.type offset = .ok text ∧ ∃ d, parseTypeName text = .error (.malformed d)) ∧
    ((∀ p ∈ s.parameters, ∃ text, r.display p.type offset = .ok text ∧
        parseTypeName text ≠ .error .surrounded) →
      ∀ e, built = .error e → ∃ text, e = .invalidType text) ∧
    ∀ new, built = .ok new → Calls r s target (Node.root new.tree) := by
  intro offset built
  refine ⟨?_, fun text => ?_, fun tight e wrong => ?_, fun new made => ?_⟩
  · constructor
    · rintro ⟨new, made⟩
      obtain ⟨trees, written, -⟩ := build_eq_ok.mp made
      have each := (parameters_eq_ok_iff.mp written).imp fun p tree one =>
        And.intro (exists_parameter_iff.mp ⟨tree, one⟩) one
      exact ((List.forall₂_and_left s.parameters trees).mp each).1
    · intro writable
      cases outcome : built with
      | ok new => exact ⟨new, rfl⟩
      | error e =>
          obtain ⟨before, p, after, split, -, bad⟩ :=
            parameters_eq_error_iff.mp (build_eq_error.mp outcome)
          obtain ⟨tree, good⟩ := exists_parameter_iff.mpr (writable p (by simp [split]))
          cases good.symm.trans bad
  · rw [build_eq_error, parameters_eq_error_iff]
    simp [offset, exists_parameter_iff, parameter_eq_error_iff]
  · obtain ⟨before, p, after, split, -, bad⟩ := parameters_eq_error_iff.mp (build_eq_error.mp wrong)
    obtain ⟨text, displayed, plain⟩ := tight p (by simp [split])
    rw [displayed, parameter_eq_error_iff] at bad
    obtain ⟨around, other, -⟩ | ⟨shown, same, ⟨surrounded, -⟩ | ⟨d, -, rfl⟩⟩ := bad
    · cases other
    · cases same
      exact (plain surrounded).elim
    · exact ⟨shown, rfl⟩
  · obtain ⟨trees, written, rfl⟩ := build_eq_ok.mp made
    exact calls_of_tree real (parameters_eq_ok_iff.mp written) rfl

/-- White space around a type is left out, and a list that is not closed is no type. -/
theorem build_calls_trimmed :
    let name := Factory.identifierName "f"
    let target : Handle := ⟨⟨name, .parsed 0 name⟩, .root name⟩
    let r : Resolver := ⟨fun _ => none, fun _ => none,
      fun type _ => .ok (if type = .object then "L<" else " int ")⟩
    let s : Signature := ⟨[⟨"x", .int⟩, ⟨"y", .int⟩], .void⟩
    let bad : Signature := ⟨[⟨"x", .int⟩, ⟨"y", .object⟩], .void⟩
    target.node.tree.isNode ∧
      (∃ new, (build s target r).result = .ok new ∧ Calls r s target (Node.root new.tree)) ∧
      (build bad target r).result = .error (.invalidType "L<") := by
  intro name target r s bad
  have read : parseTypeName " int " = .ok (.node .predefinedType [Factory.fixed .intKw]) :=
    parseTypeName_eq_ok_iff.mpr (by decide +kernel)
  have unclosed : ∃ d, parseTypeName "L<" = .error (.malformed d) := by
    have rejected : (match parseTypeName "L<" with
      | .error (.malformed _) => true
      | _ => false) = true := by decide +kernel
    split at rejected
    · exact ⟨_, ‹_›⟩
    · cases rejected
  have int : ∀ name, Writable r target.range.start ⟨name, .int⟩ :=
    fun name => ⟨" int ", _, rfl, read⟩
  obtain ⟨succeeds, -, -, calls⟩ := build_calls s target r rfl
  obtain ⟨-, fails, -, -⟩ := build_calls bad target r rfl
  obtain ⟨new, built⟩ := succeeds.mpr (by simp [s, int])
  exact ⟨rfl, ⟨new, built, calls new built⟩, (fails "L<").mpr
    ⟨[⟨"x", .int⟩], ⟨"y", .object⟩, [], rfl, by simp [int], rfl, unclosed⟩⟩

end AnonymousMethod
end SharpRefactor
