import SharpRefactor.Proofs.Syntax.Exchange

/-!
Corresponding nodes before and after an exchange. Those that are kept have the same kind, the same
tokens and corresponding children; around any of them stand nodes that are kept.
-/

namespace SharpRefactor
namespace Exchange

variable {x : Exchange} {way : Option (List Nat)} {m m' n n' : Node} {i : Nat}

namespace Pairs

theorem keeps_or_eq (h : x.Pairs n n') : x.Keeps n n' ∨ n = x.node := by
  obtain ⟨way, at_⟩ := h
  by_cases last : way = some []
  · exact .inr (at_.eq_node_iff.mpr last)
  · exact .inl ⟨way, last, at_⟩

theorem index_eq (h : x.Pairs n n') : n.index = n'.index := h.elim fun _ at_ => at_.index_eq

theorem parent? (h : x.Pairs n n') : Option.Rel x.Keeps n.parent? n'.parent? := by
  obtain ⟨way, at_⟩ := h
  cases at_ with
  | root => exact .none
  | child parents outside old new =>
      obtain ⟨t, -, -, rfl⟩ := Node.child?_eq_some.mp old
      obtain ⟨t', -, -, rfl⟩ := Node.child?_eq_some.mp new
      exact .some ⟨_, outside, parents⟩

theorem tree_new (h : x.Pairs x.node n') : n'.tree = x.graft := by
  obtain ⟨way, at_⟩ := h
  obtain rfl := at_.eq_node_iff.mp rfl
  exact at_.tree_eq

theorem kind_new (h : x.Pairs x.node n') : n'.kind = x.graft.kind :=
  congrArg Tree.kind h.tree_new

/-- The nodes around corresponding nodes correspond. -/
theorem around (h : x.Pairs n n') :
    List.Forall₂ x.Keeps n.ancestors.tail n'.ancestors.tail := by
  obtain ⟨way, at_⟩ := h
  induction at_ with
  | root => exact .nil
  | @child way m m' n n' i parents outside old new ih =>
      obtain ⟨t, -, -, rfl⟩ := Node.child?_eq_some.mp old
      obtain ⟨t', -, -, rfl⟩ := Node.child?_eq_some.mp new
      change List.Forall₂ x.Keeps m.ancestors m'.ancestors
      rw [m.ancestors_eq, m'.ancestors_eq]
      exact .cons ⟨way, outside, parents⟩ ih

theorem ancestors (h : x.Pairs n n') : List.Forall₂ x.Pairs n.ancestors n'.ancestors := by
  rw [n.ancestors_eq, n'.ancestors_eq]
  exact .cons h (h.around.imp fun _ _ kept => kept.imp fun _ both => both.2)

end Pairs

theorem Keeps.kind_eq (h : x.Keeps n n') : n'.kind = n.kind := by
  obtain ⟨way, outside, at_⟩ := h
  rw [Node.kind, at_.tree_eq, after_kind outside]
  rfl

/-- Among corresponding nodes those of some kinds are kept, if the exchange has nothing to do with
such kinds. -/
theorem keeps_filter {p : Kind → Bool} (old : p x.node.kind = false) (new : p x.graft.kind = false)
    {l l' : List Node} (pairs : List.Forall₂ x.Pairs l l') :
    List.Forall₂ (fun m m' => x.Keeps m m' ∧ p m.kind) (l.filter (p ·.kind))
      (l'.filter (p ·.kind)) := by
  induction pairs with
  | nil => exact .nil
  | @cons m m' _ _ pair _ ih =>
      rw [List.filter_cons, List.filter_cons]
      rcases pair.keeps_or_eq with kept | rfl
      · rw [kept.kind_eq]
        split
        · next own => exact .cons ⟨kept, own⟩ ih
        · exact ih
      · rw [pair.kind_new, old, new]
        exact ih

namespace Keeps

theorem pairs (h : x.Keeps n n') : x.Pairs n n' := h.imp fun _ both => both.2

theorem ancestors (h : x.Keeps n n') : List.Forall₂ x.Keeps n.ancestors n'.ancestors := by
  rw [n.ancestors_eq, n'.ancestors_eq]
  exact .cons h h.pairs.around

theorem isNode (h : x.Keeps n n') : n.tree.isNode := h.elim fun _ both => both.2.isNode

theorem isNode' (h : x.Keeps n n') : n'.tree.isNode := by
  obtain ⟨way, outside, at_⟩ := h
  rw [at_.tree_eq, after_isNode outside]
  exact at_.isNode

theorem ne_node (h : x.Keeps n n') : n ≠ x.node := by
  obtain ⟨way, outside, at_⟩ := h
  exact fun same => outside (at_.eq_node_iff.mp same)

/-- The children of corresponding nodes correspond. -/
theorem children (h : x.Keeps n n') : List.Forall₂ x.Pairs n.children n'.children := by
  obtain ⟨way, outside, at_⟩ := h
  refine List.rel_filterMap (fun p p' both => ?_) (at_.elements outside)
  obtain ⟨-, i, child⟩ := both
  exact child.imp fun at_ => ⟨_, at_⟩

/-- Where no child is exchanged, all children are kept. -/
theorem children_of_ne (h : x.Keeps n n') (other : ∀ m ∈ n.children, m ≠ x.node) :
    List.Forall₂ x.Keeps n.children n'.children := by
  refine List.Forall₂.imp ?_ (List.forall₂_and_left _ _ |>.mpr ⟨other, h.children⟩)
  rintro m m' ⟨ne, pairs⟩
  exact pairs.keeps_or_eq.resolve_right ne

/-- Corresponding nodes have the same tokens, though not at the same offsets. -/
theorem tokens (h : x.Keeps n n') :
    List.Forall₂ (fun t t' => t.token = t'.token) n.tokens n'.tokens := by
  obtain ⟨way, outside, at_⟩ := h
  refine List.rel_filterMap (fun p p' both => ?_) (at_.elements outside)
  rw [← both.1]
  cases p.tree.token? with
  | none => exact .none
  | some token => exact .some rfl

/-- The children of some kinds that the exchange has nothing to do with. -/
theorem childrenWhere (h : x.Keeps n n') {p : Kind → Bool} (old : p x.node.kind = false)
    (new : p x.graft.kind = false) :
    List.Forall₂ (fun m m' => x.Keeps m m' ∧ p m.kind) (n.children.filter (p ·.kind))
      (n'.children.filter (p ·.kind)) :=
  keeps_filter old new h.children

end Keeps

end Exchange
end SharpRefactor
