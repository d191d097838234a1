import SharpRefactor.Proofs.Parsing.Lossless
import SharpRefactor.Syntax.Version

/-!
Nodes and the ways to them. A node of a tree is found again by its path, and a path that leads to a
node cuts the tokens of the tree in three: those before the node, its own, and those after it. To
splice another tree in at the path is to exchange the middle part.
-/

namespace SharpRefactor

inductive Tree.Every (own : Kind → Forest → Prop) : Tree → Prop where
  | leaf (token : Token) : Every own (.leaf token)
  | node {k : Kind} {ts : Forest} (here : own k ts) (inside : ∀ t ∈ ts, t.Every own) :
      Every own (.node k ts)

theorem Tree.Every.down {own : Kind → Forest → Prop} {k : Kind} {ts : Forest}
    (every : (Tree.node k ts).Every own) : ∀ t ∈ ts, t.Every own := by
  cases every with
  | node here inside => exact inside

def Node.In (m n : Node) : Prop := ∃ is, n.follow? is = some m

namespace Forest

/-- The size of trees side by side is the length of their text. -/
theorem size_eq (ts : Forest) : Forest.size ts = (tokensText ts.tokens).utf8ByteSize := by
  have parent := (Tree.node .compilationUnit ts).size_eq
  rwa [Tree.size_node, Tree.text, Tree.tokens_node] at parent

/-- Trees side by side around the one with an index. -/
theorem tokens_around {ts : Forest} {i : Nat} {t : Tree} (h : ts[i]? = some t) :
    ts.tokens = Forest.tokens (ts.take i) ++ t.tokens ++ Forest.tokens (ts.drop (i + 1)) := by
  obtain ⟨inside, rfl⟩ := List.getElem?_eq_some_iff.mp h
  have cut : ts.take i ++ ts[i] :: ts.drop (i + 1) = ts := by
    rw [← List.drop_eq_getElem_cons inside, List.take_append_drop]
  rw [List.append_assoc, ← tokens_cons, ← tokens_append, cut]

theorem tokens_modify {ts : Forest} {i : Nat} {t : Tree} (h : ts[i]? = some t) (f : Tree → Tree) :
    Forest.tokens (ts.modify i f) =
      Forest.tokens (ts.take i) ++ (f t).tokens ++ Forest.tokens (ts.drop (i + 1)) := by
  obtain ⟨inside, rfl⟩ := List.getElem?_eq_some_iff.mp h
  rw [List.modify_eq_take_cons_drop inside, tokens_append, tokens_cons, List.append_assoc]

/-- A walk by the index of a child goes to that child, unless it is a token or missing. -/
theorem walkAt_eq (choose : Node → Option Nat) (ts : Forest) (i start index : Nat)
    (above : List Place) :
    walkAt choose ts i start index above = ts[i]?.bind fun t =>
      if t.isNode then
        some (t.walkAt choose (start + Forest.size (ts.take i)) (index + i) above)
      else none := by
  induction ts generalizing i start index with
  | nil => rfl
  | cons t ts ih =>
      cases i with
      | zero => simp [walkAt]
      | succ i =>
          have counted : index + 1 + i = index + (i + 1) := by omega
          rw [walkAt, ih, List.getElem?_cons_succ, List.take_succ_cons, size_cons, Nat.add_assoc,
            counted]

end Forest

namespace Node

theorem follow?_append (n : Node) (is js : List Nat) :
    n.follow? (is ++ js) = (n.follow? is).bind (follow? · js) := by
  induction is generalizing n with
  | nil => rfl
  | cons i is ih =>
      rw [List.cons_append, follow?_cons, follow?_cons, Option.bind_assoc]
      exact Option.bind_congr fun m _ => ih m

theorem path_of_follow? {n m : Node} {is : List Nat} (h : n.follow? is = some m) :
    m.path = n.path ++ is := by
  induction is generalizing n with
  | nil =>
      cases h
      simp
  | cons i is ih =>
      obtain ⟨child, step, rest⟩ := Option.bind_eq_some_iff.mp h
      rw [ih rest, path_of_child? step, List.append_assoc, List.singleton_append]

theorem isNode_of_follow? {n m : Node} {is : List Nat} (own : n.tree.isNode)
    (h : n.follow? is = some m) : m.tree.isNode := by
  induction is generalizing n with
  | nil =>
      cases h
      exact own
  | cons i is ih =>
      obtain ⟨child, step, rest⟩ := Option.bind_eq_some_iff.mp h
      obtain ⟨t, -, isNode, rfl⟩ := child?_eq_some.mp step
      refine ih ?_ rest
      exact isNode

/-- The node at the end of a path holds the subtree there. -/
theorem get?_of_follow? {n m : Node} {is : List Nat} (h : n.follow? is = some m) :
    n.tree.get? is = some m.tree := by
  induction is generalizing n with
  | nil =>
      cases h
      rfl
  | cons i is ih =>
      obtain ⟨child, step, rest⟩ := Option.bind_eq_some_iff.mp h
      obtain ⟨t, found, -, rfl⟩ := child?_eq_some.mp step
      rw [Tree.get?_cons, found]
      exact ih rest

end Node

namespace Forest

/-- The nodes of trees side by side are those of each of them in its place. -/
theorem mem_nodesAt {ts : Forest} {start index : Nat} {above : List Place} {n : Node} :
    n ∈ Forest.nodesAt ts start index above ↔
      ∃ (i : Nat) (t : Tree), ts[i]? = some t ∧
        n ∈ t.nodesAt (start + Forest.size (ts.take i)) (index + i) above := by
  induction ts generalizing start index with
  | nil => simp
  | cons t ts ih =>
      rw [Forest.nodesAt_cons, List.mem_append, ih]
      constructor
      · rintro (first | ⟨i, u, found, later⟩)
        · exact ⟨0, t, rfl, by simpa using first⟩
        · refine ⟨i + 1, u, found, ?_⟩
          rw [List.take_succ_cons, size_cons]
          have counted : index + (i + 1) = index + 1 + i := by omega
          rwa [← Nat.add_assoc, counted]
      · rintro ⟨i, u, found, inside⟩
        cases i with
        | zero =>
            cases found
            exact .inl (by simpa using inside)
        | succ i =>
            refine .inr ⟨i, u, found, ?_⟩
            rw [List.take_succ_cons, size_cons] at inside
            have counted : index + 1 + i = index + (i + 1) := by omega
            rwa [Nat.add_assoc, counted]

end Forest

namespace Node

/-- The nodes inside a node are those at the ends of paths. -/
theorem mem_descendants {n m : Node} :
    m ∈ n.descendants ↔ n.tree.isNode ∧ m.In n := by
  obtain ⟨⟨t, start, index⟩, above⟩ := n
  change m ∈ t.nodesAt start index above ↔ _
  induction t using Tree.induct generalizing start index above with
  | leaf token => simp [tree, Tree.isNode]
  | node k ts ih =>
      rw [Tree.nodesAt_node, List.mem_cons, Forest.mem_nodesAt]
      simp only [Nat.zero_add]
      constructor
      · rintro (rfl | ⟨i, t, found, inside⟩)
        · exact ⟨rfl, [], rfl⟩
        · obtain ⟨isNode, is, rest⟩ := (ih t (List.mem_of_getElem? found) ..).mp inside
          refine ⟨rfl, i :: is, Option.bind_eq_some_iff.mpr ⟨_, ?_, rest⟩⟩
          exact child?_eq_some.mpr ⟨t, found, isNode, rfl⟩
      · rintro ⟨-, is, led⟩
        cases is with
        | nil => exact .inl (Option.some.inj led).symm
        | cons i is =>
            obtain ⟨child, step, rest⟩ := Option.bind_eq_some_iff.mp led
            obtain ⟨t, found, isNode, rfl⟩ := child?_eq_some.mp step
            have below := (ih t (List.mem_of_getElem? found) ..).mpr ⟨isNode, is, rest⟩
            exact .inr ⟨i, t, found, below⟩

/-- A node of a tree is found again by its path. -/
theorem mem_descendants_root {t : Tree} {n : Node} :
    n ∈ (root t).descendants ↔ t.isNode ∧ (root t).follow? n.path = some n := by
  rw [mem_descendants]
  refine and_congr_right fun _ => ⟨?_, fun led => ⟨_, led⟩⟩
  rintro ⟨is, led⟩
  rw [path_of_follow? led]
  exact led

end Node

namespace Node

theorem map_tree_elements (n : Node) : n.elements.map Place.tree = n.tree.children := by
  have side : ∀ (ts : Forest) (start index : Nat),
      (ts.places start index).map Place.tree = ts := by
    intro ts
    induction ts with
    | nil => exact fun _ _ => rfl
    | cons t ts ih => exact fun start index => congrArg (t :: ·) (ih _ _)
  exact side _ _ _

theorem map_tree_children (n : Node) : n.children.map tree = n.tree.children.filter Tree.isNode := by
  rw [← map_tree_elements, children]
  induction n.elements with
  | nil => rfl
  | cons p ps ih =>
      have same : (n.below p).tree = p.tree := rfl
      cases isNode : p.tree.isNode <;> simp [isNode, ih, same]

/-- The only child of a node. -/
theorem children_eq_singleton {n : Node} {t : Tree} (only : n.tree.children.filter Tree.isNode = [t]) :
    ∃ m, n.children = [m] ∧ m.tree = t :=
  List.map_eq_singleton_iff.mp ((map_tree_children n).trans only)

theorem children_eq_pair {n : Node} {t u : Tree} (two : n.tree.children.filter Tree.isNode = [t, u]) :
    ∃ l m, n.children = [l, m] ∧ l.tree = t ∧ m.tree = u := by
  obtain ⟨l, rest, split, first, others⟩ :=
    List.map_eq_cons_iff.mp ((map_tree_children n).trans two)
  obtain ⟨m, rfl, second⟩ := List.map_eq_singleton_iff.mp others
  exact ⟨l, m, split, first, second⟩

theorem map_tree_childrenOf (n : Node) (k : Kind) : (n.childrenOf k).map tree =
    (n.tree.children.filter Tree.isNode).filter (·.kind == k) := by
  rw [← map_tree_children, List.filter_map]
  rfl

theorem map_tree_childOf? (n : Node) (k : Kind) : (n.childOf? k).map tree =
    (n.tree.children.filter Tree.isNode).find? (·.kind == k) := by
  rw [← map_tree_children, List.find?_map]
  rfl

theorem map_token_tokens (n : Node) :
    n.tokens.map PlacedToken.token = n.tree.children.filterMap Tree.token? := by
  rw [← map_tree_elements, tokens]
  induction n.elements with
  | nil => rfl
  | cons p ps ih => cases token : p.tree.token? <;> simp [token, ih]

theorem mem_descendants_self {n : Node} (isNode : n.tree.isNode) : n ∈ n.descendants := by
  rw [mem_descendants]
  exact ⟨isNode, [], rfl⟩

/-- What a tree hands down to its children holds at the end of every path. -/
theorem of_follow? {P : Tree → Prop} (down : ∀ k ts, P (.node k ts) → ∀ u ∈ ts, P u) {m n : Node}
    {is : List Nat} (own : P m.tree) (led : m.follow? is = some n) : P n.tree := by
  induction is generalizing m with
  | nil =>
      cases led
      exact own
  | cons i is ih =>
      obtain ⟨child, step, rest⟩ := Option.bind_eq_some_iff.mp led
      obtain ⟨u, found, -, rfl⟩ := child?_eq_some.mp step
      refine ih ?_ rest
      have member := List.mem_of_getElem? found
      generalize m.tree = tree at own member
      cases tree with
      | leaf token => cases member
      | node k ts => exact down k ts own u member

/-- What a tree hands down to its children holds of every node in it. -/
theorem of_mem_descendants {P : Tree → Prop} (down : ∀ k ts, P (.node k ts) → ∀ u ∈ ts, P u) {t : Tree}
    {n : Node} (own : P t) (inside : n ∈ (root t).descendants) : P n.tree := by
  obtain ⟨-, is, led⟩ := mem_descendants.mp inside
  exact of_follow? down (m := root t) own led

theorem isNode_of_mem_descendants {n m : Node} (inside : m ∈ n.descendants) : m.tree.isNode := by
  rw [mem_descendants] at inside
  obtain ⟨isNode, is, led⟩ := inside
  exact isNode_of_follow? isNode led

section Every

variable {own : Kind → Forest → Prop} {t : Tree} {n : Node}

theorem own_of_every (isNode : n.tree.isNode) (every : n.tree.Every own) :
    own n.kind n.tree.children := by
  rw [kind]
  generalize n.tree = tree at isNode every
  cases every with
  | leaf token => cases isNode
  | node here inside => exact here

theorem own_of_mem_descendants (every : t.Every own) (inside : n ∈ (root t).descendants) :
    own n.kind n.tree.children :=
  own_of_every (isNode_of_mem_descendants inside)
    (of_mem_descendants (fun _ _ parent => parent.down) every inside)

/-- What holds of the nodes in the parts of a tree holds of every node but the root. -/
theorem own_of_mem_descendants_ne (each : ∀ u ∈ t.children, u.Every own)
    (inside : n ∈ (root t).descendants) (below : n ≠ root t) : own n.kind n.tree.children := by
  refine own_of_every (isNode_of_mem_descendants inside) ?_
  obtain ⟨-, is, led⟩ := mem_descendants.mp inside
  cases is with
  | nil => exact absurd (Option.some.inj led).symm below
  | cons i is =>
      obtain ⟨child, step, rest⟩ := Option.bind_eq_some_iff.mp led
      obtain ⟨u, found, -, rfl⟩ := child?_eq_some.mp step
      refine of_follow? (fun _ _ parent => parent.down) ?_ rest
      exact each u (List.mem_of_getElem? found)

end Every

theorem parent?_below (n : Node) (p : Place) : (n.below p).parent? = some n := rfl

/-- What is around a node of a tree is found in the tree, and the node among its children. -/
theorem follow?_of_parent? {t : Tree} {n p : Node} (h : n ∈ (root t).descendants)
    (up : n.parent? = some p) : ∃ is i, (root t).follow? is = some p ∧ p.child? i = some n := by
  rw [mem_descendants] at h
  obtain ⟨-, is, led⟩ := h
  rcases List.eq_nil_or_concat is with rfl | ⟨js, i, rfl⟩
  · cases led
    cases up
  · rw [List.concat_eq_append, follow?_append] at led
    obtain ⟨m, first, last⟩ := Option.bind_eq_some_iff.mp led
    obtain ⟨child, step, done⟩ := Option.bind_eq_some_iff.mp last
    cases done
    have own := step
    obtain ⟨u, -, -, rfl⟩ := child?_eq_some.mp own
    rw [parent?_below] at up
    cases up
    exact ⟨js, i, first, step⟩

/-- What is around a node of a tree is in the tree too. -/
theorem mem_descendants_of_parent? {t : Tree} {n p : Node} (h : n ∈ (root t).descendants)
    (up : n.parent? = some p) : p ∈ (root t).descendants := by
  obtain ⟨is, -, led, -⟩ := follow?_of_parent? h up
  rw [mem_descendants] at h ⊢
  exact ⟨h.1, is, led⟩

/-- A walk goes on from the child that is chosen, and ends where there is no such child or it is a
token. -/
theorem walk_eq (choose : Node → Option Nat) (n : Node) :
    n.walk choose = (((choose n).bind n.child?).map (walk choose)).getD n := by
  obtain ⟨⟨t, start, index⟩, above⟩ := n
  cases t with
  | leaf token =>
      cases choose ⟨⟨.leaf token, start, index⟩, above⟩ <;> rfl
  | node k ts =>
      change (Tree.node k ts).walkAt choose start index above = _
      rw [Tree.walkAt_node]
      cases choose ⟨⟨.node k ts, start, index⟩, above⟩ with
      | none => rfl
      | some i =>
          simp only [Option.bind_some]
          rw [Forest.walkAt_eq, child?, elements, Forest.places_getElem?]
          change (Option.bind ts[i]? _).getD _ = _
          change _ = (Option.map _ (Option.bind (Option.map _ ts[i]?) _)).getD _
          cases ts[i]? with
          | none => rfl
          | some t =>
              cases isNode : t.isNode with
              | false => simp [isNode]
              | true =>
                  simp [isNode]
                  rfl

theorem walk_step (choose : Node → Option Nat) (n : Node) :
    n.walk choose = n ∨
      ∃ i m, choose n = some i ∧ n.child? i = some m ∧ n.walk choose = m.walk choose := by
  rw [walk_eq]
  cases chosen : (choose n).bind n.child? with
  | none => exact .inl rfl
  | some m =>
      obtain ⟨i, picked, step⟩ := Option.bind_eq_some_iff.mp chosen
      exact .inr ⟨i, m, picked, step, rfl⟩

/-- A walk ends at a node of the tree. -/
theorem walk_mem_descendants (choose : Node → Option Nat) {n : Node} (isNode : n.tree.isNode) :
    n.walk choose ∈ n.descendants := by
  rw [mem_descendants]
  refine ⟨isNode, ?_⟩
  clear isNode
  obtain ⟨⟨t, start, index⟩, above⟩ := n
  induction t using Tree.induct generalizing start index above with
  | leaf token => exact ⟨[], rfl⟩
  | node k ts ih =>
      rcases walk_step choose ⟨⟨.node k ts, start, index⟩, above⟩ with ends | ⟨i, m, -, step, walked⟩
      · exact ⟨[], congrArg some ends.symm⟩
      · obtain ⟨t, found, -, rfl⟩ := child?_eq_some.mp step
        obtain ⟨is, led⟩ := ih t (List.mem_of_getElem? found) _ _ _
        exact ⟨i :: is, by rw [follow?_cons, step, walked]; exact led⟩

/-- A child that is chosen by an offset holds the byte there. -/
theorem contains_of_childAt? {offset i : Nat} {n m : Node} (chosen : n.childAt? offset = some i)
    (step : n.child? i = some m) : m.range.contains offset := by
  obtain ⟨p, first, rfl⟩ := Option.map_eq_some_iff.mp chosen
  have holds : p.range.contains offset := by simpa using List.find?_some first
  obtain ⟨j, placed⟩ := List.getElem?_of_mem (List.mem_of_find?_eq_some first)
  obtain ⟨t, found, -, rfl⟩ := child?_eq_some.mp step
  rw [elements, Forest.places_getElem?, Option.map_eq_some_iff] at placed
  obtain ⟨u, found', rfl⟩ := placed
  rw [Nat.zero_add] at found
  cases found.symm.trans found'
  simp only [Nat.zero_add]
  exact holds

/-- A walk by an offset leaves a node only for one that holds the byte there. -/
theorem atOffset_contains (offset : Nat) (n : Node) :
    n.atOffset offset = n ∨ (n.atOffset offset).range.contains offset := by
  obtain ⟨⟨t, start, index⟩, above⟩ := n
  induction t using Tree.induct generalizing start index above with
  | leaf token => exact .inl rfl
  | node k ts ih =>
      rcases walk_step (childAt? offset) ⟨⟨.node k ts, start, index⟩, above⟩ with
        ends | ⟨i, m, chosen, step, walked⟩
      · exact .inl ends
      · right
        rw [atOffset, walked]
        have holds := contains_of_childAt? chosen step
        obtain ⟨t, found, -, rfl⟩ := child?_eq_some.mp step
        rcases ih t (List.mem_of_getElem? found) _ _ _ with ends | inner
        · rw [atOffset] at ends
          exact ends ▸ holds
        · exact inner

end Node

namespace SyntaxTree

theorem nodeAt_eq_ok {t : SyntaxTree} {offset : Nat} {n : Node} :
    t.nodeAt offset = .ok n ↔ offset ≤ t.root.size ∧ t.rootNode.atOffset offset = n := by
  unfold nodeAt
  split
  · next beyond => simp [Nat.not_le.mpr beyond]
  · next within => simp [Nat.le_of_not_lt within]

theorem mem_descendants_of_nodeAt {t : SyntaxTree} (isNode : t.root.isNode) {offset : Nat} {n : Node}
    (found : t.nodeAt offset = .ok n) : n ∈ t.rootNode.descendants := by
  obtain ⟨-, rfl⟩ := nodeAt_eq_ok.mp found
  exact Node.walk_mem_descendants _ isNode

end SyntaxTree

/-- What stands around the node at the end of a path stays when another tree is spliced in there. -/
theorem Tree.tokens_splice {n m : Node} {is : List Nat} (h : n.follow? is = some m) :
    ∃ front rest : List Token, n.tree.tokens = front ++ m.tree.tokens ++ rest ∧
      m.start = n.start + (tokensText front).utf8ByteSize ∧
      ∀ graft : Tree, (graft.splice is n.tree).tokens = front ++ graft.tokens ++ rest := by
  induction is generalizing n with
  | nil =>
      cases h
      exact ⟨[], [], by simp, by simp [tokensText], fun graft => by simp⟩
  | cons i is ih =>
      obtain ⟨child, step, led⟩ := Option.bind_eq_some_iff.mp h
      obtain ⟨t, found, -, rfl⟩ := Node.child?_eq_some.mp step
      obtain ⟨front, rest, cut, placed, spliced⟩ := ih led
      obtain ⟨⟨token | ⟨k, ts⟩, start, index⟩, above⟩ := n
      · cases found
      · change ts[i]? = some t at found
        refine ⟨Forest.tokens (ts.take i) ++ front, rest ++ Forest.tokens (ts.drop (i + 1)), ?_, ?_,
          fun graft => ?_⟩
        · change Forest.tokens ts = _
          rw [Forest.tokens_around found]
          rw [show t.tokens = front ++ m.tree.tokens ++ rest from cut]
          simp only [List.append_assoc]
        · rw [placed, tokensText_append, String.utf8ByteSize_append, ← Forest.size_eq]
          exact Nat.add_assoc ..
        · change Forest.tokens (ts.modify i (Tree.splice graft is)) = _
          rw [Forest.tokens_modify found, show (graft.splice is t).tokens = _ from spliced graft]
          simp only [List.append_assoc]

end SharpRefactor
