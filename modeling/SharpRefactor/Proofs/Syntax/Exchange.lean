import SharpRefactor.Proofs.Syntax.Extents

/-!
A tree and what becomes of it when a node gives way to another tree. The nodes that are not inside
the exchanged one correspond to nodes of the new tree: at the same path, with corresponding parents
and children.
-/

namespace SharpRefactor

structure Exchange where
  tree : Tree
  node : Node
  graft : Tree
  inside : node ∈ (Node.root tree).descendants
  isNode : graft.isNode

namespace Exchange

def result (x : Exchange) : Tree := x.graft.splice x.node.path x.tree

/-- The way that is left to a node after a step from one child to another. -/
def onward (i : Nat) : Option (List Nat) → Option (List Nat)
  | some (j :: way) => if i = j then some way else none
  | _ => none

theorem onward_eq_some {i : Nat} {way : Option (List Nat)} {rest : List Nat} :
    onward i way = some rest ↔ way = some (i :: rest) := by
  rcases way with - | - | ⟨j, way⟩
  · simp [onward]
  · simp [onward]
  · by_cases same : i = j
    · simp [onward, same]
    · simp [onward, same, Ne.symm same]

/-- Corresponding nodes, with the way from them to the exchanged node if it is inside them. -/
inductive At (x : Exchange) : Option (List Nat) → Node → Node → Prop where
  | root : At x (some x.node.path) (.root x.tree) (.root x.result)
  | child {way : Option (List Nat)} {m m' n n' : Node} {i : Nat} (parents : At x way m m')
      (outside : way ≠ some []) (old : m.child? i = some n) (new : m'.child? i = some n') :
      At x (onward i way) n n'

/-- Corresponding nodes, among them the exchanged one and the new one. -/
def Pairs (x : Exchange) (n n' : Node) : Prop := ∃ way, x.At way n n'

/-- Corresponding nodes that are not exchanged themselves. -/
def Keeps (x : Exchange) (n n' : Node) : Prop := ∃ way, way ≠ some [] ∧ x.At way n n'

def after (x : Exchange) : Option (List Nat) → Tree → Tree
  | none, t => t
  | some way, t => x.graft.splice way t

variable {x : Exchange} {way : Option (List Nat)} {m m' n n' : Node} {i : Nat}

section After

variable (outside : way ≠ some []) (t : Tree)

include outside

theorem after_kind : (x.after way t).kind = t.kind := by
  rcases way with - | - | ⟨j, way⟩
  · rfl
  · exact absurd rfl outside
  · cases t <;> rfl

theorem after_isNode : (x.after way t).isNode = t.isNode := by
  rcases way with - | - | ⟨j, way⟩
  · rfl
  · exact absurd rfl outside
  · cases t <;> rfl

theorem after_token? : (x.after way t).token? = t.token? := by
  rcases way with - | - | ⟨j, way⟩
  · rfl
  · exact absurd rfl outside
  · cases t <;> rfl

/-- The exchange is carried out in the child that the way leads to. -/
theorem children_after (i : Nat) :
    (x.after way t).children[i]? = t.children[i]?.map (x.after (onward i way)) := by
  rcases way with - | - | ⟨j, way⟩
  · change t.children[i]? = t.children[i]?.map id
    rw [Option.map_id]
    rfl
  · exact absurd rfl outside
  · cases t with
    | leaf token => rfl
    | node k ts =>
        change (ts.modify j (x.graft.splice way))[i]? = ts[i]?.map _
        rw [List.getElem?_modify]
        by_cases same : j = i
        · subst same
          simp only [onward, if_true]
          rfl
        · simp only [onward, if_neg same, if_neg (Ne.symm same)]
          rfl

theorem length_children_after :
    (x.after way t).children.length = t.children.length := by
  rcases way with - | - | ⟨j, way⟩
  · rfl
  · exact absurd rfl outside
  · cases t with
    | leaf token => rfl
    | node k ts => exact List.length_modify _ ts j

end After

namespace At

theorem isNode (h : x.At way n n') : n.tree.isNode := by
  cases h with
  | root => exact (Node.mem_descendants_root.mp x.inside).1
  | child _ _ old =>
      obtain ⟨t, -, isNode, rfl⟩ := Node.child?_eq_some.mp old
      exact isNode

theorem tree_eq (h : x.At way n n') : n'.tree = x.after way n.tree := by
  induction h with
  | root => rfl
  | child parents outside old new ih =>
      obtain ⟨t, found, -, rfl⟩ := Node.child?_eq_some.mp old
      obtain ⟨t', found', -, rfl⟩ := Node.child?_eq_some.mp new
      rw [ih, children_after outside, found] at found'
      exact (Option.some.inj found').symm

/-- The way left from a node leads to the exchanged one. -/
theorem follow? (h : x.At way n n') : ∀ rest, way = some rest → n.follow? rest = some x.node := by
  induction h with
  | root =>
      rintro rest ⟨⟩
      exact (Node.mem_descendants_root.mp x.inside).2
  | child parents outside old new ih =>
      intro rest left
      obtain ⟨rfl, rfl⟩ := onward_eq_some.mp left
      have led := ih _ rfl
      rwa [Node.follow?_cons, old] at led

/-- A child stays a token or a node. -/
theorem after_child (h : x.At way m m') (outside : way ≠ some []) {i : Nat} {t : Tree}
    (found : m.tree.children[i]? = some t) :
    (x.after (onward i way) t).isNode = t.isNode ∧
      (x.after (onward i way) t).token? = t.token? := by
  by_cases last : onward i way = some []
  · obtain rfl := onward_eq_some.mp last
    obtain ⟨n, old, -⟩ := Option.bind_eq_some_iff.mp (h.follow? _ rfl)
    obtain ⟨u, same, isNode, -⟩ := Node.child?_eq_some.mp old
    rw [found] at same
    cases same
    have isNode' : (x.after (some []) t).isNode := x.isNode
    rw [last]
    exact ⟨isNode'.trans isNode.symm,
      (Tree.token?_of_isNode isNode').trans (Tree.token?_of_isNode isNode).symm⟩
  · exact ⟨after_isNode last t, after_token? last t⟩

/-- The children with an index correspond. -/
theorem child? (h : x.At way m m') (outside : way ≠ some []) (i : Nat) :
    Option.Rel (x.At (onward i way)) (m.child? i) (m'.child? i) := by
  have trees := children_after (x := x) outside m.tree i
  rw [← h.tree_eq] at trees
  cases found : m.tree.children[i]? with
  | none =>
      rw [found] at trees
      rw [Node.child?_of_getElem?_none found, Node.child?_of_getElem?_none trees]
      exact .none
  | some t =>
      rw [found] at trees
      have old := Node.child?_of_getElem? found
      have new := Node.child?_of_getElem? trees
      rw [(h.after_child outside found).1] at new
      cases isNode : t.isNode with
      | false =>
          rw [isNode] at old new
          rw [old, new]
          exact .none
      | true =>
          rw [isNode] at old new
          rw [old, new]
          exact .some (.child h outside old new)

/-- What stands in corresponding nodes corresponds, side by side. -/
theorem elements (h : x.At way m m') (outside : way ≠ some []) :
    List.Forall₂ (fun p p' => p.tree.token? = p'.tree.token? ∧ ∃ i,
      Option.Rel (x.At (onward i way)) (if p.tree.isNode then some (m.below p) else none)
        (if p'.tree.isNode then some (m'.below p') else none)) m.elements m'.elements := by
  have length : m.elements.length = m'.elements.length := by
    rw [Node.elements, Node.elements, Forest.length_places, Forest.length_places, h.tree_eq,
      length_children_after outside]
  refine List.forall₂_iff_get.mpr ⟨length, fun i inside inside' => ?_⟩
  have own := h.child? outside i
  simp only [Node.child?, List.getElem?_eq_getElem inside, List.getElem?_eq_getElem inside',
    Option.bind_some] at own
  refine ⟨?_, i, own⟩
  obtain ⟨t, found, old⟩ := Option.map_eq_some_iff.mp
    ((Forest.places_getElem? m.tree.children m.start 0 i).symm.trans
      (List.getElem?_eq_getElem inside))
  obtain ⟨t', found', new⟩ := Option.map_eq_some_iff.mp
    ((Forest.places_getElem? m'.tree.children m'.start 0 i).symm.trans
      (List.getElem?_eq_getElem inside'))
  rw [h.tree_eq, children_after outside, found] at found'
  cases found'
  have old : t = m.elements[i].tree := congrArg Place.tree old
  have new : x.after (onward i way) t = m'.elements[i].tree := congrArg Place.tree new
  change m.elements[i].tree.token? = m'.elements[i].tree.token?
  rw [← old, ← new]
  exact (h.after_child outside found).2.symm

theorem index_eq (h : x.At way n n') : n.index = n'.index := by
  cases h with
  | root => rfl
  | child _ _ old new =>
      obtain ⟨t, -, -, rfl⟩ := Node.child?_eq_some.mp old
      obtain ⟨t', -, -, rfl⟩ := Node.child?_eq_some.mp new
      rfl

/-- Both nodes are found by their path, each in its own tree. -/
theorem found (h : x.At way n n') : (Node.root x.tree).follow? n.path = some n ∧
    (Node.root x.result).follow? n.path = some n' := by
  induction h with
  | root => exact ⟨rfl, rfl⟩
  | child _ _ old new ih =>
      rw [Node.path_of_child? old, Node.follow?_append, Node.follow?_append, ih.1, ih.2]
      simp [Node.follow?, old, new]

/-- The way together with the path of a node makes the path of the exchanged one; without a way the
path of a node does not lead there. -/
theorem path_way (h : x.At way n n') : (∀ rest, way = some rest → n.path ++ rest = x.node.path) ∧
    (way = none → ¬ n.path <+: x.node.path) := by
  induction h with
  | root => exact ⟨fun rest left => by cases left; rfl, fun none => nomatch none⟩
  | @child way m m' n n' i _ outside old _ ih =>
      rw [Node.path_of_child? old]
      refine ⟨fun rest left => ?_, fun astray reaches => ?_⟩
      · rw [← ih.1 _ (onward_eq_some.mp left), List.append_assoc, List.singleton_append]
      · rcases way with - | - | ⟨j, way⟩
        · exact ih.2 rfl ((List.prefix_append ..).trans reaches)
        · exact outside rfl
        · rw [← ih.1 _ rfl, List.prefix_append_right_inj, List.cons_prefix_cons] at reaches
          simp [onward, reaches.1] at astray

/-- A node is the exchanged one exactly at the end of the way. -/
theorem eq_node_iff (h : x.At way n n') : n = x.node ↔ way = some [] := by
  constructor
  · rintro rfl
    cases way with
    | none => exact absurd List.prefix_rfl (h.path_way.2 rfl)
    | some rest => exact congrArg some (List.append_right_eq_self.mp (h.path_way.1 rest rfl))
  · rintro rfl
    have same := h.path_way.1 [] rfl
    rw [List.append_nil] at same
    have led := (Node.mem_descendants_root.mp x.inside).2
    rw [← same, h.found.1] at led
    exact Option.some.inj led

/-- The exchanged node corresponds to the new one. -/
theorem exists_end {rest : List Nat} (h : x.At (some rest) n n') :
    ∃ new, x.At (some []) x.node new := by
  induction rest generalizing n n' with
  | nil =>
      obtain rfl := h.eq_node_iff.mpr rfl
      exact ⟨n', h⟩
  | cons i rest ih =>
      have children := h.child? (by simp) i
      obtain ⟨m, old, -⟩ := Option.bind_eq_some_iff.mp (h.follow? _ rfl)
      rw [old] at children
      generalize n'.child? i = found at children
      cases children with
      | some child =>
        rw [onward_eq_some.mpr rfl] at child
        exact ih child

end At

end Exchange
end SharpRefactor
