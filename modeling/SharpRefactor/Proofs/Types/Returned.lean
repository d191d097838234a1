import SharpRefactor.Proofs.Parsing.Complete
import SharpRefactor.Proofs.Types.Display

/-!
Questions about a text that may be malformed are answered all the same. A type that was given out
can be written anywhere, since it is called by names; and the number of an argument in its list is
the number of an expression, so a method that takes as many arguments has a parameter for each.
-/

namespace SharpRefactor

namespace Node

variable {t : Tree} {n : Node}

theorem complete_of_mem_descendants (complete : t.Complete) (inside : n ∈ (root t).descendants) :
    n.tree.Complete :=
  of_mem_descendants (fun _ _ parent => by cases parent with | node own each => exact each)
    complete inside

/-- Every argument holds an expression. -/
theorem firstChild?_of_argument (complete : t.Complete) (inside : n ∈ (root t).descendants)
    (argument : n.kind = .argument) : ∃ e, n.firstChild? = some e := by
  have own := complete_of_mem_descendants complete inside
  obtain ⟨isRoot, is, led⟩ := mem_descendants.mp inside
  have isNode := isNode_of_follow? isRoot led
  obtain ⟨u, child, isNode⟩ : ∃ u ∈ n.tree.children, u.isNode := by
    unfold kind at argument
    generalize n.tree = tree at own argument isNode
    cases own with
    | leaf token => cases isNode
    | node own each =>
        cases argument
        exact own
  obtain ⟨p, placed, rfl⟩ := exists_mem_elements child
  have member : n.below p ∈ n.children := List.mem_filterMap.mpr ⟨p, placed, by simp [isNode]⟩
  rw [firstChild?]
  cases children : n.children with
  | nil => rw [children] at member; cases member
  | cons e es => exact ⟨e, rfl⟩

/-- The arguments in a list are as many as the expressions in it. -/
theorem length_argumentExpressions (complete : t.Complete) (inside : n ∈ (root t).descendants) :
    n.argumentExpressions.length = n.arguments.length := by
  have each : ∀ a ∈ n.arguments, ∃ e, a.firstChild? = some e := by
    intro a member
    obtain ⟨child, kind⟩ := List.mem_filter.mp member
    exact firstChild?_of_argument complete (mem_descendants_of_mem_children inside child)
      (beq_iff_eq.mp kind)
  rw [argumentExpressions]
  generalize n.arguments = arguments at each
  induction arguments with
  | nil => rfl
  | cons a as ih =>
      rw [List.forall_mem_cons] at each
      obtain ⟨e, first⟩ := each.1
      rw [List.filterMap_cons_some first, List.length_cons, ih each.2, List.length_cons]

end Node

/-- A type that was given out for a text: the type of a node of its tree, or one that occurs in how
values of such a type are called. -/
inductive SyntaxTree.Returns (tree : SyntaxTree) : Ty → Prop where
  | typeOf {n : Node} {type : Ty} (inside : n ∈ tree.rootNode.descendants)
      (found : (Resolver.ofTree tree).typeOf ⟨tree, n⟩ = some type) : Returns tree type
  | signatureOf {type part : Ty} {s : Signature} (returned : Returns tree type)
      (found : (Resolver.ofTree tree).signatureOf type = some s) (member : part ∈ s.types) :
      Returns tree part

theorem SyntaxTree.Returns.named {tree : SyntaxTree} (lexed : tree.root.Lexed) {type : Ty}
    (returned : tree.Returns type) : type.Named := by
  induction returned with
  | typeOf inside found =>
      exact Table.typeOf?_named lexed inside (Option.ite_none_right_eq_some.mp found).2
  | signatureOf _ found member ih => exact Table.signatureOf?_named lexed ih found _ member

/-- Every offset has a node; beyond the end of the text it is the root. -/
theorem SyntaxTree.place_mem_descendants {tree : SyntaxTree} (isNode : tree.root.isNode)
    (offset : Nat) :
    (tree.nodeAt offset).toOption.getD tree.rootNode ∈ tree.rootNode.descendants := by
  cases found : tree.nodeAt offset with
  | error e => exact Node.mem_descendants_self isNode
  | ok n => exact mem_descendants_of_nodeAt isNode found

/-- Whatever the text, each type that was given out can be written at each offset, and the number of
an argument is the number of a parameter in every method that takes as many arguments as there
are. -/
theorem Resolver.answers_return (text : String) (serial : Nat) :
    let root := (parse text).root
    let tree : SyntaxTree := ⟨root, .parsed serial root⟩
    (∀ type, tree.Returns type →
      ∀ offset, ∃ spelling, (ofTree tree).display type offset = .ok spelling) ∧
    ∀ argument ∈ tree.rootNode.descendants, argument.kind = .argument →
      (∃ expression, argument.firstChild? = some expression) ∧
      ∀ list i, argument.parent? = some list →
        list.arguments.findIdx? (·.index == argument.index) = some i →
        i < list.argumentExpressions.length ∧
        ∀ c : Table.Candidate, c.takes list.argumentExpressions.length →
          ∀ k < list.argumentExpressions.length, ∃ p, c.method.parameters[k]? = some p := by
  intro root tree
  have lexed : tree.root.Lexed := parse_lexed text
  have complete : tree.root.Complete := parse_complete text
  refine ⟨fun type returned offset => ?_, fun argument inside kind => ⟨?_, ?_⟩⟩
  · obtain ⟨spelling, written, -⟩ := Table.spell_ok (t := Table.ofRoot tree.rootNode)
      (Scope.around_named lexed (SyntaxTree.place_mem_descendants rfl offset)) (returned.named lexed)
    exact ⟨spelling, written⟩
  · exact Node.firstChild?_of_argument complete inside kind
  · intro list i up found
    have outer := Node.mem_descendants_of_parent? inside up
    refine ⟨?_, fun c takes k below => ?_⟩
    · rw [Node.length_argumentExpressions complete outer]
      exact (List.findIdx?_eq_some_iff_getElem.mp found).1
    · have count := beq_iff_eq.mp takes
      exact ⟨_, List.getElem?_eq_getElem (by rw [count]; exact below)⟩

/-- A list of arguments that breaks off, the first of which is empty. -/
theorem Resolver.answers_return_broken :
    let root := (parse "class C\x7bvoid M(int i)\x7bM(,1").root
    let tree : SyntaxTree := ⟨root, .parsed 0 root⟩
    ∃ argument ∈ tree.rootNode.descendants, argument.kind = .argument ∧ argument.tree.text = "" ∧
      ∃ expression, argument.firstChild? = some expression := by
  intro root tree
  obtain ⟨argument, inside, kind, empty⟩ : ∃ argument ∈ tree.rootNode.descendants,
      argument.kind = .argument ∧ argument.tree.text = "" := by
    decide +kernel
  exact ⟨argument, inside, kind, empty, ((answers_return _ 0).2 argument inside kind).1⟩

end SharpRefactor
