import SharpRefactor.Proofs.Relators
import SharpRefactor.Proofs.Syntax.Paths

/-!
The extent of nodes and of their children, and how it changes with a subtree that is replaced.
-/

namespace SharpRefactor

theorem Forest.length_places (ts : Forest) (start index : Nat) :
    (Forest.places start index ts).length = ts.length := by
  induction ts generalizing start index with
  | nil => rfl
  | cons t ts ih => exact congrArg Nat.succ (ih ..)

namespace Forest

theorem size_take_succ {ts : Forest} {i : Nat} {t : Tree} (h : ts[i]? = some t) :
    Forest.size (ts.take (i + 1)) = Forest.size (ts.take i) + t.size := by
  rw [List.take_add_one, h, size_append]
  simp

theorem size_take_le (ts : Forest) {i j : Nat} (le : i ≤ j) :
    Forest.size (ts.take i) ≤ Forest.size (ts.take j) := by
  obtain ⟨d, rfl⟩ := Nat.exists_eq_add_of_le le
  rw [List.take_add, size_append]
  exact Nat.le_add_right _ _

/-- How much is in front of a tree changes with the trees in front of it. -/
theorem size_take_modify {ts : Forest} {j : Nat} {u : Tree} (h : ts[j]? = some u) (f : Tree → Tree)
    (i : Nat) :
    (i ≤ j → Forest.size ((ts.modify j f).take i) = Forest.size (ts.take i)) ∧
      (j < i → Forest.size ((ts.modify j f).take i) + u.size =
        Forest.size (ts.take i) + (f u).size) := by
  induction ts generalizing i j with
  | nil => cases h
  | cons t ts ih =>
      cases i with
      | zero => simp
      | succ i =>
          cases j with
          | zero =>
              cases h
              simp only [List.modify_zero_cons, List.take_succ_cons, size_cons]
              omega
          | succ j =>
              have rest := ih h i
              simp only [List.modify_succ_cons, List.take_succ_cons, size_cons]
              omega

end Forest

theorem Tree.size_splice (graft : Tree) {t u : Tree} {is : List Nat} (h : t.get? is = some u) :
    (graft.splice is t).size + u.size = t.size + graft.size := by
  induction is generalizing t with
  | nil =>
      cases h
      exact Nat.add_comm _ _
  | cons i is ih =>
      obtain ⟨v, found, rest⟩ := Option.bind_eq_some_iff.mp h
      cases t with
      | leaf token => cases found
      | node k ts =>
          have found : ts[i]? = some v := found
          have own := ih rest
          have whole := (Forest.size_take_modify found (graft.splice is) ts.length).2
            (List.getElem?_eq_some_iff.mp found).1
          rw [List.take_of_length_le (Nat.le_of_eq (List.length_modify ..)), List.take_length] at whole
          rw [Tree.splice_cons, Tree.size_node, Tree.size_node]
          omega

theorem Tree.token?_of_isNode {t : Tree} (isNode : t.isNode) : t.token? = none := by
  cases t with
  | leaf token => cases isNode
  | node k ts => rfl

theorem Tree.children_splice (graft : Tree) (i : Nat) (is : List Nat) (t : Tree) :
    (graft.splice (i :: is) t).children = t.children.modify i (graft.splice is) := by
  cases t with
  | leaf token => simp [splice, children]
  | node k ts => rfl

theorem Tree.size_children_le (t : Tree) : Forest.size t.children ≤ t.size := by
  cases t with
  | leaf token => exact Nat.zero_le _
  | node k ts => exact Nat.le_of_eq (Tree.size_node k ts).symm

/-- The way to a node leads through its parent. -/
theorem Node.parent?_of_follow? {n m : Node} {is : List Nat} (h : n.follow? is = some m)
    (below : is ≠ []) : ∃ p, n.follow? is.dropLast = some p ∧ m.parent? = some p := by
  rcases List.eq_nil_or_concat is with rfl | ⟨js, i, rfl⟩
  · exact absurd rfl below
  · rw [List.concat_eq_append, follow?_append] at h
    obtain ⟨p, first, last⟩ := Option.bind_eq_some_iff.mp h
    obtain ⟨child, step, done⟩ := Option.bind_eq_some_iff.mp last
    cases done
    obtain ⟨t, -, -, rfl⟩ := child?_eq_some.mp step
    rw [List.concat_eq_append, List.dropLast_concat]
    exact ⟨p, first, parent?_below ..⟩

theorem Node.parent?_of_mem_children {n m : Node} (h : m ∈ n.children) : m.parent? = some n := by
  obtain ⟨p, -, made⟩ := List.mem_filterMap.mp h
  obtain ⟨-, made⟩ := Option.ite_none_right_eq_some.mp made
  cases made
  exact parent?_below n p

theorem Node.isNode_of_mem_children {n m : Node} (h : m ∈ n.children) : m.tree.isNode := by
  obtain ⟨p, -, made⟩ := List.mem_filterMap.mp h
  obtain ⟨isNode, made⟩ := Option.ite_none_right_eq_some.mp made
  cases made
  exact isNode

theorem Node.mem_elements {n : Node} {p : Place} (member : p ∈ n.elements) :
    p.tree ∈ n.tree.children := by
  obtain ⟨i, found⟩ := List.mem_iff_getElem?.mp member
  rw [elements, Forest.places_getElem?] at found
  obtain ⟨t, child, rfl⟩ := Option.map_eq_some_iff.mp found
  exact List.mem_of_getElem? child

theorem Node.exists_mem_elements {n : Node} {u : Tree} (child : u ∈ n.tree.children) :
    ∃ p ∈ n.elements, p.tree = u := by
  obtain ⟨i, found⟩ := List.mem_iff_getElem?.mp child
  refine ⟨⟨u, n.start + Forest.size (n.tree.children.take i), 0 + i⟩,
    List.mem_iff_getElem?.mpr ⟨i, ?_⟩, rfl⟩
  rw [elements, Forest.places_getElem?, found]
  rfl

theorem Node.tree_mem_of_mem_children {n m : Node} (h : m ∈ n.children) :
    m.tree ∈ n.tree.children := by
  obtain ⟨p, member, made⟩ := List.mem_filterMap.mp h
  obtain ⟨-, made⟩ := Option.ite_none_right_eq_some.mp made
  cases made
  exact mem_elements member

theorem Node.ancestors_eq (n : Node) : n.ancestors = n :: n.ancestors.tail := by
  obtain ⟨p, - | ⟨q, qs⟩⟩ := n <;> rfl

theorem Node.stop_eq (n : Node) : n.stop = n.start + n.tree.size := rfl

/-- A node inside another one lies within it. -/
theorem Node.extent_of_follow? {n m : Node} {is : List Nat} (h : n.follow? is = some m) :
    n.start ≤ m.start ∧ m.stop ≤ n.stop := by
  induction is generalizing n with
  | nil =>
      cases h
      exact ⟨Nat.le_refl _, Nat.le_refl _⟩
  | cons i is ih =>
      obtain ⟨child, step, rest⟩ := Option.bind_eq_some_iff.mp h
      obtain ⟨within, before⟩ := ih rest
      obtain ⟨t, found, -, rfl⟩ := Node.child?_eq_some.mp step
      have upTo := Forest.size_take_succ found
      have inside : i + 1 ≤ n.tree.children.length := (List.getElem?_eq_some_iff.mp found).1
      have whole := Forest.size_take_le n.tree.children inside
      rw [List.take_length] at whole
      have own := n.tree.size_children_le
      change n.start + _ ≤ m.start at within
      change m.stop ≤ n.start + _ + t.size at before
      change n.start ≤ m.start ∧ m.stop ≤ n.start + n.tree.size
      omega

theorem Node.extent_of_parent? {t : Tree} {n p : Node} (inside : n ∈ (root t).descendants)
    (up : n.parent? = some p) : p.start ≤ n.start ∧ n.stop ≤ p.stop := by
  obtain ⟨-, i, -, step⟩ := follow?_of_parent? inside up
  exact extent_of_follow? (show p.follow? [i] = some n by simp [follow?, step])

theorem Node.child?_of_getElem? {n : Node} {i : Nat} {t : Tree}
    (found : n.tree.children[i]? = some t) :
    n.child? i = if t.isNode then
      some (n.below ⟨t, n.start + Forest.size (n.tree.children.take i), i⟩) else none := by
  rw [child?, elements, Forest.places_getElem?, found]
  simp

theorem Node.child?_of_getElem?_none {n : Node} {i : Nat} (ended : n.tree.children[i]? = none) :
    n.child? i = none := by
  rw [child?, elements, Forest.places_getElem?, ended]
  rfl

end SharpRefactor
