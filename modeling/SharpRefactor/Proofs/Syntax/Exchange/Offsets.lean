import SharpRefactor.Proofs.Syntax.Exchange.Kept

/-!
Offsets before and after an exchange. Corresponding nodes start at corresponding offsets, and two
offsets are in the same order before and after.
-/

namespace SharpRefactor
namespace Exchange

variable {x : Exchange} {way : Option (List Nat)} {m m' n n' : Node} {i : Nat}

/-- Offsets that correspond: before the exchanged node they stay, after it they move by as much as
it grows. -/
def Shifts (x : Exchange) (offset offset' : Nat) : Prop :=
  (offset ≤ x.node.start ∧ offset' = offset) ∨
    (x.node.stop ≤ offset ∧ offset' + x.node.tree.size = offset + x.graft.size)

/-- A node that holds the exchanged one reaches from before it to behind it, and grows with it. -/
theorem At.extent_toward {rest : List Nat} (h : x.At (some rest) n n') :
    n.start ≤ x.node.start ∧ x.node.stop ≤ n.stop ∧
      n'.tree.size + x.node.tree.size = n.tree.size + x.graft.size := by
  have led := h.follow? rest rfl
  obtain ⟨start, stop⟩ := Node.extent_of_follow? led
  refine ⟨start, stop, ?_⟩
  rw [h.tree_eq]
  exact Tree.size_splice x.graft (Node.get?_of_follow? led)

/-- What is in front of a child grows if the exchanged node is in front of it. -/
theorem At.size_take {j : Nat} {rest : List Nat} (h : x.At (some (j :: rest)) n n') (i : Nat) :
    (i ≤ j → Forest.size (n'.tree.children.take i) = Forest.size (n.tree.children.take i)) ∧
      (j < i → Forest.size (n'.tree.children.take i) + x.node.tree.size =
        Forest.size (n.tree.children.take i) + x.graft.size) := by
  obtain ⟨c, step, led⟩ := Option.bind_eq_some_iff.mp (h.follow? _ rfl)
  obtain ⟨u, place, -, rfl⟩ := Node.child?_eq_some.mp step
  have grown := Tree.size_splice x.graft (Node.get?_of_follow? led)
  change (x.graft.splice rest u).size + _ = u.size + _ at grown
  have children : n'.tree.children = n.tree.children.modify j (x.graft.splice rest) := by
    rw [h.tree_eq]
    exact Tree.children_splice ..
  obtain ⟨same, moved⟩ := Forest.size_take_modify place (x.graft.splice rest) i
  rw [children]
  omega

/-- The exchanged node lies between where the child that holds it begins and where it ends. -/
theorem At.within {j : Nat} {rest : List Nat} (h : x.At (some (j :: rest)) n n') :
    n.start + Forest.size (n.tree.children.take j) ≤ x.node.start ∧
      x.node.stop ≤ n.start + Forest.size (n.tree.children.take (j + 1)) := by
  obtain ⟨c, step, led⟩ := Option.bind_eq_some_iff.mp (h.follow? _ rfl)
  obtain ⟨u, place, -, rfl⟩ := Node.child?_eq_some.mp step
  rw [Forest.size_take_succ place, ← Nat.add_assoc]
  exact Node.extent_of_follow? led

/-- A node that holds the exchanged one stays where it begins; any other node is on one side of
it. -/
theorem At.start_eq (h : x.At way n n') :
    (way.isSome → n'.start = n.start) ∧
      (way = none → (n.stop ≤ x.node.start ∧ n'.start = n.start) ∨
        (x.node.stop ≤ n.start ∧ n'.start + x.node.tree.size = n.start + x.graft.size)) := by
  induction h with
  | root => exact ⟨fun _ => rfl, fun none => nomatch none⟩
  | @child way m m' n n' i parents outside old new ih =>
      obtain ⟨t, found, -, rfl⟩ := Node.child?_eq_some.mp old
      obtain ⟨t', -, -, rfl⟩ := Node.child?_eq_some.mp new
      have upTo := Forest.size_take_succ found
      have start (m : Node) (u : Tree) :
          (m.below ⟨u, m.start + Forest.size (m.tree.children.take i), i⟩).start =
            m.start + Forest.size (m.tree.children.take i) := rfl
      rw [Node.stop_eq, start, start]
      change _ ∧ (_ → (_ + t.size ≤ _ ∧ _) ∨ _)
      rcases way with - | - | ⟨j, way⟩
      · have inside : i + 1 ≤ m.tree.children.length := (List.getElem?_eq_some_iff.mp found).1
        have whole := Forest.size_take_le m.tree.children inside
        rw [List.take_length] at whole
        have own := m.tree.size_children_le
        have sides := ih.2 rfl
        rw [m.stop_eq] at sides
        refine ⟨fun some => (by cases some), fun _ => ?_⟩
        rw [show m'.tree = m.tree from parents.tree_eq]
        omega
      · exact absurd rfl outside
      · have kept := ih.1 rfl
        have within := parents.within
        obtain ⟨same, moved⟩ := parents.size_take i
        by_cases here : i = j
        · subst here
          have same := same (Nat.le_refl i)
          simp [onward]
          omega
        · rw [onward, if_neg here]
          refine ⟨fun some => (by cases some), fun _ => ?_⟩
          rcases Nat.lt_or_gt_of_ne here with first | later
          · have before := Forest.size_take_le m.tree.children (show i + 1 ≤ j from first)
            have same := same (Nat.le_of_lt first)
            omega
          · have behind := Forest.size_take_le m.tree.children (show j + 1 ≤ i from later)
            have moved := moved later
            omega

theorem At.shifts (h : x.At way n n') :
    x.Shifts n.start n'.start ∧ x.Shifts n.stop n'.stop := by
  have start := h.start_eq
  have last := x.node.stop_eq
  rw [n.stop_eq, n'.stop_eq]
  unfold Shifts
  cases way with
  | none =>
      have size : n'.tree.size = n.tree.size := congrArg Tree.size h.tree_eq
      have sides := start.2 rfl
      rw [n.stop_eq] at sides
      omega
  | some rest =>
      have start := start.1 rfl
      obtain ⟨before, behind, grown⟩ := h.extent_toward
      rw [n.stop_eq] at behind
      omega

/-- Offsets are in the same order before and after. -/
theorem Shifts.le_iff (real : 0 < x.node.tree.size) (new : 0 < x.graft.size) {a a' b b' : Nat}
    (first : x.Shifts a a') (second : x.Shifts b b') : a ≤ b ↔ a' ≤ b' := by
  have last := x.node.stop_eq
  unfold Shifts at first second
  omega

end Exchange
end SharpRefactor
