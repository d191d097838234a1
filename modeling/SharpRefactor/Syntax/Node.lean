import SharpRefactor.Syntax.Tree

/-!
Nodes in their place. A `Node` is a subtree together with the way down to it from a root, so that
its parents, its range and its position among its siblings can be read off. Two nodes of one tree
are the same node when their paths agree.
-/

namespace SharpRefactor

/-- A subtree where it stands: the offset at which it begins and its index among its siblings. -/
structure Place where
  tree : Tree
  start : Nat
  index : Nat
  deriving DecidableEq

namespace Place

def stop (p : Place) : Nat := p.start + p.tree.size

def range (p : Place) : TextRange := .ofSize p.start p.tree.size

def kind (p : Place) : Kind := p.tree.kind

end Place

/-- Trees side by side, the first of which begins at `start` and is number `index`. -/
def Forest.places (start index : Nat) : Forest → List Place
  | [] => []
  | t :: ts => ⟨t, start, index⟩ :: Forest.places (start + t.size) (index + 1) ts

theorem Forest.places_getElem? (ts : Forest) (start index i : Nat) :
    (Forest.places start index ts)[i]? =
      ts[i]?.map fun t => ⟨t, start + Forest.size (ts.take i), index + i⟩ := by
  induction ts generalizing start index i with
  | nil => simp [Forest.places]
  | cons t ts ih =>
      cases i with
      | zero => simp [Forest.places]
      | succ i =>
          have counted : index + 1 + i = index + (i + 1) := by omega
          simp [Forest.places, ih, counted, Nat.add_assoc]

/-- A place with the places above it, the innermost first. -/
structure Node where
  place : Place
  above : List Place
  deriving DecidableEq

/-- A token in a tree with the offset at which it begins. -/
structure PlacedToken where
  token : Token
  start : Nat
  deriving DecidableEq

namespace PlacedToken

def kind (t : PlacedToken) : Kind := t.token.kind

def text (t : PlacedToken) : String := t.token.text

end PlacedToken

namespace Node

/-- A tree as the root of itself. -/
def root (t : Tree) : Node := ⟨⟨t, 0, 0⟩, []⟩

def tree (n : Node) : Tree := n.place.tree

def kind (n : Node) : Kind := n.tree.kind

def start (n : Node) : Nat := n.place.start

def stop (n : Node) : Nat := n.place.stop

def range (n : Node) : TextRange := n.place.range

def text (n : Node) : String := n.tree.text

/-- The index among the siblings. -/
def index (n : Node) : Nat := n.place.index

/-- The indices to follow from the root. -/
def path (n : Node) : List Nat := ((n.place :: n.above).dropLast.map Place.index).reverse

/-- Whether two nodes of one tree are the same node. -/
def same (m n : Node) : Bool := m.path == n.path

def parent? (n : Node) : Option Node :=
  match n.above with
  | [] => none
  | p :: ps => some ⟨p, ps⟩

def grandparent? (n : Node) : Option Node := n.parent?.bind parent?

/-- The nodes around a place and the place itself, from the inside out. -/
def outward (p : Place) : List Place → List Node
  | [] => [⟨p, []⟩]
  | q :: qs => ⟨p, q :: qs⟩ :: outward q qs

/-- The node and all nodes around it, from the inside out. -/
def ancestors (n : Node) : List Node := outward n.place n.above

/-- The root of the tree that the node stands in. -/
def top (n : Node) : Tree := (n.above.getLast?.getD n.place).tree

/-- The children in order, tokens included. -/
def elements (n : Node) : List Place := n.tree.children.places n.start 0

/-- A place under the node as a node of its own. -/
def below (n : Node) (p : Place) : Node := ⟨p, n.place :: n.above⟩

/-- The children that are nodes. -/
def children (n : Node) : List Node :=
  n.elements.filterMap fun p => if p.tree.isNode then some (n.below p) else none

/-- The children that are tokens. -/
def tokens (n : Node) : List PlacedToken :=
  n.elements.filterMap fun p => p.tree.token?.map (⟨·, p.start⟩)

/-- The child with an index, if it is a node. -/
def child? (n : Node) (i : Nat) : Option Node :=
  n.elements[i]?.bind fun p => if p.tree.isNode then some (n.below p) else none

/-- The first child of one of some kinds. -/
def childWhere? (n : Node) (p : Kind → Bool) : Option Node := n.children.find? (p ·.kind)

def childOf? (n : Node) (k : Kind) : Option Node := n.childWhere? (· == k)

def childrenOf (n : Node) (k : Kind) : List Node := n.children.filter (·.kind == k)

/-- The first token of a kind among the children. -/
def tokenOf? (n : Node) (k : Kind) : Option PlacedToken := n.tokens.find? (·.kind == k)

/-- The last identifier among the children: the name that a declaration gives. -/
def lastIdentifier? (n : Node) : Option PlacedToken :=
  (n.tokens.filter (·.kind == .identifier)).getLast?

/-- The node at the end of a path of indices. -/
def follow? (n : Node) : List Nat → Option Node
  | [] => some n
  | i :: is => (n.child? i).bind (follow? · is)

theorem child?_eq_some {n m : Node} {i : Nat} :
    n.child? i = some m ↔ ∃ t, n.tree.children[i]? = some t ∧ t.isNode ∧
      m = n.below ⟨t, n.start + Forest.size (n.tree.children.take i), i⟩ := by
  rw [child?, elements, Forest.places_getElem?]
  cases n.tree.children[i]? with
  | none => simp
  | some t =>
      cases isNode : t.isNode with
      | false => simp [isNode]
      | true =>
          simp only [Option.map_some, Option.bind_some, isNode, if_true, Option.some.injEq,
            exists_eq_left', true_and, Nat.zero_add]
          exact eq_comm

@[simp] theorem path_root (t : Tree) : (root t).path = [] := rfl

@[simp] theorem path_below (n : Node) (p : Place) : (n.below p).path = n.path ++ [p.index] := by
  simp [path, below]

theorem path_of_child? {n m : Node} {i : Nat} (h : n.child? i = some m) :
    m.path = n.path ++ [i] := by
  obtain ⟨t, -, -, rfl⟩ := child?_eq_some.mp h
  exact path_below n _

theorem follow?_cons {n : Node} {i : Nat} {is : List Nat} :
    n.follow? (i :: is) = (n.child? i).bind (follow? · is) := rfl

end Node

mutual

/-- The nodes of a placed tree, each before those inside it. -/
def Tree.nodesAt : Tree → Nat → Nat → List Place → List Node
  | .leaf _, _, _, _ => []
  | .node k ts, start, index, above =>
    ⟨⟨.node k ts, start, index⟩, above⟩ ::
      Forest.nodesAt ts start 0 (⟨.node k ts, start, index⟩ :: above)

def Forest.nodesAt : Forest → Nat → Nat → List Place → List Node
  | [], _, _, _ => []
  | t :: ts, start, index, above =>
    t.nodesAt start index above ++ Forest.nodesAt ts (start + t.size) (index + 1) above

end

@[simp] theorem Tree.nodesAt_leaf (token : Token) (start index : Nat) (above : List Place) :
    (Tree.leaf token).nodesAt start index above = [] := rfl

theorem Tree.nodesAt_node (k : Kind) (ts : Forest) (start index : Nat) (above : List Place) :
    (Tree.node k ts).nodesAt start index above =
      ⟨⟨.node k ts, start, index⟩, above⟩ ::
        Forest.nodesAt ts start 0 (⟨.node k ts, start, index⟩ :: above) := rfl

@[simp] theorem Forest.nodesAt_nil (start index : Nat) (above : List Place) :
    Forest.nodesAt [] start index above = [] := rfl

theorem Forest.nodesAt_cons (t : Tree) (ts : Forest) (start index : Nat) (above : List Place) :
    Forest.nodesAt (t :: ts) start index above =
      t.nodesAt start index above ++ Forest.nodesAt ts (start + t.size) (index + 1) above := rfl

/-- The node and all nodes inside it, each before those inside it. -/
def Node.descendants (n : Node) : List Node := n.tree.nodesAt n.start n.index n.above

mutual

/-- Walks down from a placed tree: `choose` names the child to go on with. The walk ends where it
names none, or a token. -/
def Tree.walkAt (choose : Node → Option Nat) : Tree → Nat → Nat → List Place → Node
  | .leaf t, start, index, above => ⟨⟨.leaf t, start, index⟩, above⟩
  | .node k ts, start, index, above =>
    let here : Node := ⟨⟨.node k ts, start, index⟩, above⟩
    match choose here with
    | none => here
    | some i => (Forest.walkAt choose ts i start 0 (here.place :: above)).getD here

def Forest.walkAt (choose : Node → Option Nat) :
    Forest → Nat → Nat → Nat → List Place → Option Node
  | [], _, _, _, _ => none
  | t :: _, 0, start, index, above =>
    if t.isNode then some (t.walkAt choose start index above) else none
  | t :: ts, i + 1, start, index, above =>
    Forest.walkAt choose ts i (start + t.size) (index + 1) above

end

theorem Tree.walkAt_node (choose : Node → Option Nat) (k : Kind) (ts : Forest) (start index : Nat)
    (above : List Place) :
    (Tree.node k ts).walkAt choose start index above =
      match choose ⟨⟨.node k ts, start, index⟩, above⟩ with
      | none => ⟨⟨.node k ts, start, index⟩, above⟩
      | some i => (Forest.walkAt choose ts i start 0 (⟨.node k ts, start, index⟩ :: above)).getD
        ⟨⟨.node k ts, start, index⟩, above⟩ := rfl

namespace Node

/-- Walks down from a node as long as `choose` names a child that is a node. -/
def walk (choose : Node → Option Nat) (n : Node) : Node :=
  n.tree.walkAt choose n.start n.index n.above

/-- The child whose range holds an offset. -/
def childAt? (offset : Nat) (n : Node) : Option Nat :=
  (n.elements.find? (·.range.contains offset)).map Place.index

/-- The innermost node at an offset: between two siblings the one that begins there. -/
def atOffset (offset : Nat) (n : Node) : Node := n.walk (childAt? offset)

/-- The child that a range reaches into; if it lies between two children, the one before it. -/
def candidate? (r : TextRange) (ps : List Place) : Option Place :=
  let before := ps.takeWhile (·.stop ≤ r.start)
  match ps.dropWhile (·.stop ≤ r.start) with
  | p :: _ => if p.start < r.stop then some p else before.getLast?.or (some p)
  | [] => before.getLast?

/-- The child to look into for the smallest node that covers a range. -/
def childCovering? (r : TextRange) (n : Node) : Option Nat :=
  (candidate? r n.elements).bind fun p => if p.range.covers r then some p.index else none

/-- The smallest node that covers a range. -/
def covering (r : TextRange) (n : Node) : Node := n.walk (childCovering? r)

end Node
end SharpRefactor
