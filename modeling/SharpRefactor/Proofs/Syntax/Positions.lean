import SharpRefactor.Proofs.Syntax.Siblings

/-!
Nodes by their position in the text. The walk by a range that is not empty passes through every node
that covers it and through no other node, and where it ends the byte of an offset belongs to a token
of that very node.
-/

namespace SharpRefactor

namespace Node

variable {r : TextRange} {n m : Node} {p : Place}

theorem getElem?_index (member : p ∈ n.elements) : n.elements[p.index]? = some p := by
  obtain ⟨i, placed⟩ := List.getElem?_of_mem member
  have same := placed
  rw [elements, Forest.places_getElem?, Option.map_eq_some_iff] at same
  obtain ⟨t, -, rfl⟩ := same
  rwa [show (0 + i) = i from Nat.zero_add i] at placed ⊢

theorem child?_index (member : p ∈ n.elements) :
    n.child? p.index = if p.tree.isNode then some (n.below p) else none := by
  rw [child?, getElem?_index member]
  rfl

theorem elements_apart (n : Node) : n.elements.Pairwise fun p q => p.stop ≤ q.start :=
  Forest.places_apart ..

theorem covers_of_mem_elements (member : p ∈ n.elements) : n.range.covers p.range := by
  obtain ⟨after, before⟩ := Forest.size_of_mem_places member
  have own := n.tree.size_children_le
  refine TextRange.covers_iff.mpr ⟨after, Nat.le_trans before ?_⟩
  exact Nat.add_le_add_left own n.start

/-- The child to go on with is the one that covers the range. -/
theorem childCovering?_eq (real : r.isEmpty = false) (n : Node) :
    childCovering? r n = (n.elements.find? (·.range.covers r)).map Place.index := by
  unfold childCovering?
  cases found : n.elements.find? (·.range.covers r) with
  | none =>
      refine Option.bind_eq_none_iff.mpr fun p candidate => if_neg ?_
      exact List.find?_eq_none.mp found p (candidate?_mem candidate)
  | some p =>
      have covers : p.range.covers r := by simpa using List.find?_some found
      rw [candidate?_of_covers real n.elements_apart (List.mem_of_find?_eq_some found) covers]
      exact if_pos covers

/-- An offset leads to the node that covers the byte there. -/
theorem atOffset_eq_covering (offset : Nat) (n : Node) :
    n.atOffset offset = n.covering (.ofSize offset 1) := by
  have same : childAt? offset = childCovering? (.ofSize offset 1) := funext fun n => by
    rw [childCovering?_eq (TextRange.byte_real offset)]
    rfl
  rw [atOffset, covering, same]

/-- The walk by a range goes on from the child that covers it. -/
theorem covering_eq (real : r.isEmpty = false) (n : Node) :
    n.covering r = ((n.elements.find? (·.range.covers r)).bind fun p =>
      if p.tree.isNode then some ((n.below p).covering r) else none).getD n := by
  rw [covering, walk_eq, childCovering?_eq real]
  cases found : n.elements.find? (·.range.covers r) with
  | none => rfl
  | some p =>
      rw [Option.map_some, Option.bind_some, Option.bind_some,
        child?_index (List.mem_of_find?_eq_some found)]
      cases p.tree.isNode <;> rfl

/-- A node inside another one lies within it. -/
theorem covers_of_mem_descendants (inside : m ∈ n.descendants) : n.range.covers m.range := by
  obtain ⟨-, is, led⟩ := mem_descendants.mp inside
  exact TextRange.covers_iff.mpr (extent_of_follow? led)

/-- A token inside a node lies within it. -/
theorem covers_of_mem_leaves (inside : m ∈ n.leaves) : n.range.covers m.range := by
  obtain ⟨⟨t, start, index⟩, above⟩ := n
  induction t using Tree.induct generalizing start index above with
  | leaf token =>
      obtain rfl := List.mem_singleton.mp inside
      exact TextRange.covers_iff.mpr ⟨Nat.le_refl _, Nat.le_refl _⟩
  | node k ts ih =>
      let here : Node := ⟨⟨.node k ts, start, index⟩, above⟩
      change m ∈ Forest.leavesAt ts start 0 (here.place :: above) at inside
      rw [Forest.leavesAt_eq_flatMap, List.mem_flatMap] at inside
      obtain ⟨p, member, inner⟩ := inside
      have child : p ∈ here.elements := member
      exact TextRange.covers_trans (covers_of_mem_elements child)
        (ih p.tree (mem_elements child) _ _ _ inner)

/-- What is found for a range covers it. -/
theorem covering_covers (n : Node) (covers : n.range.covers r) : (n.covering r).range.covers r := by
  obtain ⟨⟨t, start, index⟩, above⟩ := n
  induction t using Tree.induct generalizing start index above with
  | leaf token => exact covers
  | node k ts ih =>
      rcases walk_step (childCovering? r) ⟨⟨.node k ts, start, index⟩, above⟩ with
        ends | ⟨i, m, chosen, step, walked⟩
      · rw [covering, ends]
        exact covers
      · obtain ⟨p, candidate, picked⟩ := Option.bind_eq_some_iff.mp chosen
        obtain ⟨inner, picked⟩ := Option.ite_none_right_eq_some.mp picked
        cases picked
        have member := candidate?_mem candidate
        rw [child?_index member] at step
        obtain ⟨-, step⟩ := Option.ite_none_right_eq_some.mp step
        cases step
        rw [covering, walked]
        exact ih p.tree (mem_elements member) _ _ _ inner

/-- The nodes on the way down to what is found for a range are the nodes that cover it. -/
theorem filter_descendants (real : r.isEmpty = false) (isNode : n.tree.isNode)
    (covers : n.range.covers r) :
    n.ancestors.tail.reverse ++ n.descendants.filter (·.range.covers r) =
      (n.covering r).ancestors.reverse := by
  obtain ⟨⟨t, start, index⟩, above⟩ := n
  induction t using Tree.induct generalizing start index above with
  | leaf token => cases isNode
  | node k ts ih =>
      let here : Node := ⟨⟨.node k ts, start, index⟩, above⟩
      have opened : here.descendants = here ::
          here.elements.flatMap fun p => (here.below p).descendants :=
        congrArg (here :: ·) (Forest.nodesAt_eq_flatMap ..)
      have way : here.ancestors.tail.reverse ++ [here] = here.ancestors.reverse := by
        rw [← List.reverse_cons, ← ancestors_eq]
      change here.ancestors.tail.reverse ++ here.descendants.filter _ =
        (here.covering r).ancestors.reverse
      rw [opened, List.filter_cons_of_pos (by exact covers), covering_eq real, filter_flatMap_covers
        (fun p m inside => covers_of_mem_descendants (n := here.below p) inside)
        real here.elements_apart,
        ← List.singleton_append, ← List.append_assoc, way]
      cases found : here.elements.find? (·.range.covers r) with
      | none => exact List.append_nil _
      | some p =>
          have inner : p.range.covers r := by simpa using List.find?_some found
          cases isNode : p.tree.isNode with
          | false =>
              have none : (here.below p).descendants = [] := by
                refine List.eq_nil_iff_forall_not_mem.mpr fun m inside => ?_
                exact Bool.false_ne_true (isNode.symm.trans (mem_descendants.mp inside).1)
              simp [isNode, none]
          | true =>
              have child := mem_elements (List.mem_of_find?_eq_some found)
              simp only [Option.elim_some, Option.bind_some, if_pos isNode, Option.getD_some]
              exact ih p.tree child (here.place :: above) p.start p.index isNode inner

/-- A byte belongs to one token, and that token to the node which the offset leads to. -/
theorem filter_leaves {offset : Nat} (isNode : n.tree.isNode) (holds : n.range.contains offset) :
    ∃ leaf, n.leaves.filter (·.range.contains offset) = [leaf] ∧
      leaf.parent? = some (n.atOffset offset) := by
  have real := TextRange.byte_real offset
  rw [atOffset_eq_covering]
  simp only [← TextRange.covers_byte] at holds ⊢
  obtain ⟨⟨t, start, index⟩, above⟩ := n
  induction t using Tree.induct generalizing start index above with
  | leaf token => cases isNode
  | node k ts ih =>
      let here : Node := ⟨⟨.node k ts, start, index⟩, above⟩
      have opened : here.leaves = here.elements.flatMap fun p => (here.below p).leaves :=
        Forest.leavesAt_eq_flatMap ..
      change ∃ leaf, here.leaves.filter _ = [leaf] ∧ leaf.parent? = some (here.covering _)
      rw [opened, covering_eq real, filter_flatMap_covers
        (fun p m inside => covers_of_mem_leaves (n := here.below p) inside) real here.elements_apart]
      have bounds := TextRange.covers_iff.mp holds
      have within : offset < start + Forest.size ts := by
        rw [← Tree.size_node k ts]
        exact bounds.2
      obtain ⟨q, member, byte⟩ := Forest.exists_place 0 bounds.1 within
      obtain ⟨p, found⟩ := Option.isSome_iff_exists.mp
        (List.find?_isSome.mpr ⟨q, member, (q.range.covers_byte offset).trans byte⟩ :
          (here.elements.find? (·.range.covers (.ofSize offset 1))).isSome)
      have inner : p.range.covers (.ofSize offset 1) := by simpa using List.find?_some found
      rw [found]
      cases isNode : p.tree.isNode with
      | false =>
          obtain ⟨token | ⟨k, us⟩, at_, number⟩ := p
          · exact ⟨here.below ⟨.leaf token, at_, number⟩, List.filter_cons_of_pos (by exact inner), rfl⟩
          · cases isNode
      | true =>
          have child := mem_elements (List.mem_of_find?_eq_some found)
          simp only [Option.elim_some, Option.bind_some, if_pos isNode, Option.getD_some]
          exact ih p.tree child (here.place :: above) p.start p.index isNode inner

end Node

namespace SyntaxTree

/-- The node at an offset is the one whose own token has the byte there: the nodes that contain the
offset are that node and what is around it, from the root inwards. The end of the text belongs to
the root, and behind it there is nothing. -/
theorem nodeAt_exact {t : SyntaxTree} (isNode : t.root.isNode) (offset : Nat) :
    (∀ e, t.nodeAt offset = .error e ↔ t.text.utf8ByteSize < offset ∧ e = .notFound offset) ∧
    (offset = t.text.utf8ByteSize → t.nodeAt offset = .ok t.rootNode) ∧
    (offset < t.text.utf8ByteSize → ∃ n leaf, t.nodeAt offset = .ok n ∧
      t.rootNode.leaves.filter (·.range.contains offset) = [leaf] ∧ leaf.parent? = some n ∧
      t.rootNode.descendants.filter (·.range.contains offset) = n.ancestors.reverse) := by
  have length : t.text.utf8ByteSize = t.root.size := t.root.size_eq.symm
  have extent : t.rootNode.range = .ofSize 0 t.root.size := rfl
  rw [length]
  refine ⟨fun e => ?_, fun atEnd => ?_, fun inside => ?_⟩
  · unfold nodeAt
    split
    · next beyond => simp [beyond, eq_comm]
    · next within => simp [within]
  · refine nodeAt_eq_ok.mpr ⟨Nat.le_of_eq atEnd, ?_⟩
    rcases Node.atOffset_contains offset t.rootNode with stays | holds
    · exact stays
    · have inside : t.rootNode.atOffset offset ∈ t.rootNode.descendants :=
        Node.walk_mem_descendants _ isNode
      have within := (TextRange.covers_iff.mp (Node.covers_of_mem_descendants inside)).2
      rw [extent, TextRange.stop_ofSize, Nat.zero_add, ← atEnd] at within
      have before := of_decide_eq_true (Bool.and_eq_true_iff.mp holds).2
      exact absurd before (Nat.not_lt.mpr within)
  · have holds : t.rootNode.range.contains offset := by
      simp [extent, TextRange.contains, inside]
    obtain ⟨leaf, own, parent⟩ := Node.filter_leaves (n := t.rootNode) isNode holds
    refine ⟨_, leaf, nodeAt_eq_ok.mpr ⟨Nat.le_of_lt inside, rfl⟩, own, parent, ?_⟩
    rw [Node.atOffset_eq_covering]
    exact Node.filter_descendants (TextRange.byte_real offset) (n := t.rootNode) isNode holds

/-- Between an argument that is missing and the comma behind it: the comma has the byte. -/
theorem nodeAt_exact_missing_argument :
    let root := (parse "class C\x7bvoid M(int i)\x7bM(,1").root
    let tree : SyntaxTree := ⟨root, .parsed 0 root⟩
    tree.root.isNode ∧ 24 < tree.text.utf8ByteSize ∧
      (∃ n ∈ tree.rootNode.descendants, n.kind = .argument ∧ n.range = .ofSize 24 0) ∧
      ∃ n leaf, tree.nodeAt 24 = .ok n ∧ leaf.tree = .leaf ⟨.comma, ","⟩ ∧
        tree.rootNode.leaves.filter (·.range.contains 24) = [leaf] ∧ leaf.parent? = some n := by
  intro root tree
  obtain ⟨inside, missing, comma⟩ : 24 < tree.text.utf8ByteSize ∧
      (∃ n ∈ tree.rootNode.descendants, n.kind = .argument ∧ n.range = .ofSize 24 0) ∧
      ∀ leaf ∈ tree.rootNode.leaves, leaf.range.contains 24 → leaf.tree = .leaf ⟨.comma, ","⟩ := by
    decide +kernel
  obtain ⟨n, leaf, found, own, parent, -⟩ := (nodeAt_exact (t := tree) rfl 24).2.2 inside
  have member : leaf ∈ tree.rootNode.leaves.filter (·.range.contains 24) :=
    own ▸ List.mem_singleton_self leaf
  rw [List.mem_filter] at member
  exact ⟨rfl, inside, missing, n, leaf, found, comma leaf member.1 member.2, own, parent⟩

/-- The node found for a range covers it, and no node inside it does so if there is anything to
cover. The range of a single byte leads to the same node as its offset. -/
theorem covering_smallest {t : SyntaxTree} (isNode : t.root.isNode) :
    (∀ r e, t.covering r = .error e ↔ t.text.utf8ByteSize < r.stop ∧ e = .notFound r.stop) ∧
    (∀ r, r.stop ≤ t.text.utf8ByteSize → ∃ n, t.covering r = .ok n ∧ n ∈ t.rootNode.descendants ∧
      n.range.covers r ∧ (r.isEmpty = false →
        t.rootNode.descendants.filter (·.range.covers r) = n.ancestors.reverse)) ∧
    ∀ offset < t.text.utf8ByteSize, t.covering (.ofSize offset 1) = t.nodeAt offset := by
  have length : t.text.utf8ByteSize = t.root.size := t.root.size_eq.symm
  rw [length]
  refine ⟨fun r e => ?_, fun r within => ?_, fun offset inside => ?_⟩
  · unfold covering
    split
    · next beyond => simp [beyond, eq_comm]
    · next within => simp [within]
  · have covers : t.rootNode.range.covers r :=
      TextRange.covers_iff.mpr ⟨Nat.zero_le _, by simpa [rootNode, Node.root, Node.range, Place.range]⟩
    exact ⟨_, if_neg (by omega), Node.walk_mem_descendants _ isNode, Node.covering_covers _ covers,
      fun real => Node.filter_descendants real (n := t.rootNode) isNode covers⟩
  · rw [covering, nodeAt, Node.atOffset_eq_covering, if_neg (by simp; omega), if_neg (by omega)]

/-- The call in a statement that ends with it, and the byte behind a missing argument. -/
theorem covering_smallest_call :
    let root := (parse "class C\x7bvoid M(int i)\x7bM(,1").root
    let tree : SyntaxTree := ⟨root, .parsed 0 root⟩
    tree.root.isNode ∧
      (∃ n, tree.covering (.ofSize 22 4) = .ok n ∧ n.kind = .invocationExpression ∧
        tree.rootNode.descendants.filter (·.range.covers (.ofSize 22 4)) = n.ancestors.reverse) ∧
      tree.covering (.ofSize 24 1) = tree.nodeAt 24 := by
  intro root tree
  obtain ⟨length, call⟩ : tree.text.utf8ByteSize = 26 ∧
      (tree.rootNode.covering (.ofSize 22 4)).kind = .invocationExpression := by
    decide +kernel
  obtain ⟨-, smallest, byte⟩ := covering_smallest (t := tree) rfl
  obtain ⟨n, found, -, -, way⟩ := smallest (.ofSize 22 4) (Nat.le_of_eq length.symm)
  have own : tree.rootNode.covering (.ofSize 22 4) = n := by
    rw [covering] at found
    split at found
    · cases found
    · exact Except.ok.inj found
  exact ⟨rfl, ⟨n, found, own ▸ call, way rfl⟩, byte 24 (length ▸ (by decide : 24 < 26))⟩

end SyntaxTree
end SharpRefactor
