import SharpRefactor.Proofs.Types.Scopes

/-!
The table of a file is read off its declarations, and no expression holds any. So a file declares
the same types and members after an expression has given way to a function without a name.
-/

namespace SharpRefactor

/-- The nodes in trees side by side are those in each tree that is a node. -/
theorem Forest.nodesAt_eq (ts : Forest) (start index : Nat) (above : List Place) :
    Forest.nodesAt ts start index above =
      ((Forest.places start index ts).filterMap fun p =>
        if p.tree.isNode then some (⟨p, above⟩ : Node) else none).flatMap Node.descendants := by
  induction ts generalizing start index with
  | nil => rfl
  | cons t ts ih =>
      rw [Forest.nodesAt_cons, ih, Forest.places, List.filterMap_cons]
      cases t <;> rfl

namespace Node

/-- The nodes in a node: itself, and those in its children. -/
theorem descendants_eq {n : Node} (isNode : n.tree.isNode) :
    n.descendants = n :: n.children.flatMap descendants := by
  obtain ⟨⟨token | ⟨k, ts⟩, start, index⟩, above⟩ := n
  · cases isNode
  · exact congrArg (List.cons _) (Forest.nodesAt_eq ts start 0 _)

end Node

namespace Tree.Nested

theorem of_mem {t u : Tree} (nested : t.Nested) (member : u ∈ t.children) : u.Nested := by
  cases nested with
  | leaf token => cases member
  | node inside admitted => exact inside u member

theorem admits {t u : Tree} (nested : t.Nested) (member : u ∈ t.children) (isNode : u.isNode) :
    t.kind.admits u.kind := by
  cases nested with
  | leaf token => cases member
  | node inside admitted => exact admitted u member isNode

/-- A node that declares nothing has no declarations inside. -/
theorem outline_eq_nil {n : Node} (nested : n.tree.Nested) (isNode : n.tree.isNode)
    (inner : n.kind.isOutline = false) : n.descendants.filter (·.kind.isOutline) = [] := by
  induction whole : n.tree using Tree.induct generalizing n with
  | leaf token =>
      rw [whole] at isNode
      cases isNode
  | node k ts ih =>
      rw [Node.descendants_eq isNode, List.filter_cons_of_neg (by simp [inner]), List.filter_flatMap]
      refine List.flatMap_eq_nil_iff.mpr fun m member => ?_
      have tree := Node.tree_mem_of_mem_children member
      have isNode' := Node.isNode_of_mem_children member
      have admitted := nested.admits tree isNode'
      change n.kind.admits m.kind at admitted
      refine ih m.tree (by rw [whole] at tree; exact tree) (nested.of_mem tree) isNode' ?_ rfl
      by_contra outline
      rw [Kind.isOutline_of_admits admitted (by simpa using outline)] at inner
      cases inner

end Tree.Nested

theorem Tree.Nested.of_follow? {n m : Node} {is : List Nat} (nested : n.tree.Nested)
    (led : n.follow? is = some m) : m.tree.Nested := by
  induction is generalizing n with
  | nil =>
      cases led
      exact nested
  | cons i is ih =>
      obtain ⟨child, step, rest⟩ := Option.bind_eq_some_iff.mp led
      obtain ⟨t, found, -, rfl⟩ := Node.child?_eq_some.mp step
      exact ih (nested.of_mem (List.mem_of_getElem? found)) rest

namespace Exchange.ForFunction

variable {x : Exchange} {n n' : Node} (h : x.ForFunction)

include h

/-- What stands around a node admits it. -/
theorem parent? (pair : x.Pairs n n') :
    Option.Rel (fun p p' => x.Keeps p p' ∧ p.kind.admits n.kind) n.parent? n'.parent? := by
  obtain ⟨way, at_⟩ := pair
  cases at_ with
  | root => exact .none
  | child parents outside old new =>
      obtain ⟨t, found, isNode, rfl⟩ := Node.child?_eq_some.mp old
      obtain ⟨t', -, -, rfl⟩ := Node.child?_eq_some.mp new
      have whole : (Node.root x.tree).tree.Nested := h.nested
      have nested := whole.of_follow? parents.found.1
      exact .some ⟨⟨_, outside, parents⟩, nested.admits (List.mem_of_getElem? found) isNode⟩

/-- The exchanged node and the new one declare nothing. -/
theorem outline_eq_nil (pair : x.Pairs x.node n') :
    x.node.descendants.filter (·.kind.isOutline) = [] ∧
      n'.descendants.filter (·.kind.isOutline) = [] := by
  obtain ⟨isNode, led⟩ := Node.mem_descendants_root.mp x.inside
  constructor
  · have whole : (Node.root x.tree).tree.Nested := h.nested
    exact Tree.Nested.outline_eq_nil (whole.of_follow? led)
      (Node.isNode_of_follow? (show (Node.root x.tree).tree.isNode from isNode) led)
      (h.old_eq rfl rfl)
  · refine Tree.Nested.outline_eq_nil ?_ ?_ ?_
    · rw [pair.tree_new]
      exact h.nested'
    · rw [pair.tree_new]
      exact x.isNode
    · rw [pair.kind_new]
      exact h.new_eq rfl

/-- The nodes that declare something are left, in their order. -/
theorem outline (kept : x.Keeps n n') :
    List.Forall₂ (fun m m' => x.Keeps m m' ∧ m.kind.isOutline)
      (n.descendants.filter (·.kind.isOutline)) (n'.descendants.filter (·.kind.isOutline)) := by
  induction whole : n.tree using Tree.induct generalizing n n' with
  | leaf token =>
      have isNode := kept.isNode
      rw [whole] at isNode
      cases isNode
  | node k ts ih =>
      have inside : List.Forall₂ (fun m m' => m ∈ n.children ∧ x.Pairs m m') n.children n'.children :=
        (List.forall₂_and_left _ _).mpr ⟨fun _ member => member, kept.children⟩
      have rest : List.Forall₂ (fun m m' => x.Keeps m m' ∧ m.kind.isOutline)
          ((n.children.flatMap Node.descendants).filter (·.kind.isOutline))
          ((n'.children.flatMap Node.descendants).filter (·.kind.isOutline)) := by
        rw [List.filter_flatMap, List.filter_flatMap]
        refine List.rel_flatMap inside ?_
        rintro m m' ⟨member, pair⟩
        rcases pair.keeps_or_eq with kept' | rfl
        · have tree := Node.tree_mem_of_mem_children member
          rw [whole] at tree
          exact ih m.tree tree kept' rfl
        · obtain ⟨old, new⟩ := h.outline_eq_nil pair
          simp only [old, new]
          exact .nil
      rw [Node.descendants_eq kept.isNode, Node.descendants_eq kept.isNode', List.filter_cons,
        List.filter_cons, kept.kind_eq]
      split
      · next own => exact .cons ⟨kept, own⟩ rest
      · exact rest

end Exchange.ForFunction

namespace Table

theorem declaredForm?_of_not_outline {n : Node} (inner : n.kind.isOutline = false) :
    n.declaredForm? = none := by
  unfold Node.declaredForm?
  split <;> first | rfl | next kind => rw [kind] at inner; cases inner

/-- Only declarations are entered. -/
theorem names_eq (root : Node) :
    names root = (root.descendants.filter (·.kind.isOutline)).foldl enter Library.table := by
  rw [names, List.foldl_filter]
  congr 1
  funext t n
  split
  · rfl
  · next inner =>
      have inner : n.kind.isOutline = false := by simpa using inner
      have other : n.kind ≠ .namespaceDeclaration := fun kind => by rw [kind] at inner; cases inner
      rw [enter, if_neg other, declaredForm?_of_not_outline inner]

theorem declarations_eq (nodes : List Node) :
    declarations nodes = declarations (nodes.filter (·.kind.isOutline)) := by
  rw [declarations, declarations, List.filterMap_filter]
  congr 1
  funext n
  split
  · rfl
  · next inner => rw [declaredForm?_of_not_outline (by simpa using inner), Option.bind_none]

end Table

namespace Exchange.ForFunction

variable {x : Exchange} {n n' : Node} (h : x.ForFunction)

include h

theorem enter_eq' (t : Table) (kept : x.Keeps n n') : t.enter n' = t.enter n := by
  rw [Table.enter, Table.enter, kept.kind_eq, h.namespaceAt_eq kept.pairs, h.typeKey?_eq kept,
    h.mirror.typeParameterNames_eq kept, (h.mirror.sameTokens kept).declaredForm?_eq]

theorem contentsOf_eq (t : Table) (kept : x.Keeps n n') : t.contentsOf n' = t.contentsOf n :=
  h.mirror.contentsOf_eq kept (fun both => h.around_eq both.pairs) t

theorem declarations_rel {l l' : List Node}
    (kept : List.Forall₂ (fun m m' => x.Keeps m m' ∧ m.kind.isOutline) l l') :
    List.Forall₂ (fun (d d' : Node × TypeKey) => x.Keeps d.1 d'.1 ∧ d'.2 = d.2)
      (Table.declarations l) (Table.declarations l') := by
  refine List.rel_filterMap (fun m m' own => ?_) kept
  rw [(h.mirror.sameTokens own.1).declaredForm?_eq, h.typeKey?_eq own.1]
  cases m.declaredForm? with
  | none => exact .none
  | some form =>
      rw [Option.bind_some, Option.bind_some]
      cases m.typeKey? with
      | none => exact .none
      | some key => exact .some ⟨own.1, rfl⟩

/-- A file declares the same after the exchange. -/
theorem ofRoot_eq : Table.ofRoot (Node.root x.result) = Table.ofRoot (Node.root x.tree) := by
  have outline : List.Forall₂ (fun m m' => x.Keeps m m' ∧ m.kind.isOutline)
      ((Node.root x.tree).descendants.filter (·.kind.isOutline))
      ((Node.root x.result).descendants.filter (·.kind.isOutline)) := by
    have roots : x.Pairs (Node.root x.tree) (Node.root x.result) := ⟨_, .root⟩
    rcases roots.keeps_or_eq with kept | same
    · exact h.outline kept
    · rw [same] at roots ⊢
      rw [(h.outline_eq_nil roots).1, (h.outline_eq_nil roots).2]
      exact .nil
  have names : Table.names (Node.root x.result) = Table.names (Node.root x.tree) := by
    rw [Table.names_eq, Table.names_eq]
    exact outline.foldl_eq (fun t _ _ own => h.enter_eq' t own.1) _
  rw [Table.ofRoot, Table.ofRoot, names, Table.declarations_eq (Node.root x.result).descendants,
    Table.declarations_eq (Node.root x.tree).descendants]
  refine (h.declarations_rel outline).foldl_eq (fun t d d' own => ?_) _
  obtain ⟨⟨m, k⟩, ⟨m', k'⟩⟩ := d, d'
  obtain ⟨kept, rfl⟩ := own
  exact congrArg (t.extend k') (h.contentsOf_eq _ kept)

end Exchange.ForFunction

end SharpRefactor
