import SharpRefactor.Syntax.Node

/-!
Versions of a document. Trees are values, but a version also has an identity: reading the same text
twice gives equal trees that are different versions. The identity of a tree follows from where it
comes from; a subtree keeps the one it had, so a part that an edit leaves alone is still the same
part in the next version. A handle remembers the version its node was taken from, and it can be used
on a tree with that identity only.
-/

namespace SharpRefactor

/-- Where a tree comes from. Each reading, construction and edit has a serial number of its own. -/
inductive Origin where
  /-- Read from a text. -/
  | parsed (serial : Nat) (root : Tree)
  /-- Put together in the code. The type names in it were read, each by itself. -/
  | built (serial : Nat) (root : Tree)
  /-- A tree in which the node at `path` was replaced. -/
  | spliced (serial : Nat) (base : Origin) (path : List Nat) (graft : Origin)
  /-- The node at `path` of another tree. -/
  | part (whole : Origin) (path : List Nat)

/-- What tells one tree from another of the same shape. -/
inductive Identity where
  /-- Made in one step, at one place of its result. -/
  | made (serial : Nat) (path : List Nat)
  /-- Small subtrees read from one text are the same tree wherever they have the same content. The
  text is that of the subtree at `place`. -/
  | alike (serial : Nat) (place : List Nat) (content : Tree)
  deriving DecidableEq

/-- The subtree at the end of a path of indices. -/
def Tree.get? : List Nat → Tree → Option Tree
  | [], t => some t
  | i :: is, t => t.children[i]?.bind (Tree.get? is)

/-- The tree with the subtree at a path replaced. -/
def Tree.splice (graft : Tree) : List Nat → Tree → Tree
  | [], _ => graft
  | i :: is, .node k ts => .node k (ts.modify i (Tree.splice graft is))
  | _ :: _, .leaf t => .leaf t

namespace Tree

@[simp] theorem get?_nil (t : Tree) : t.get? [] = some t := rfl

theorem get?_cons (i : Nat) (is : List Nat) (t : Tree) :
    t.get? (i :: is) = t.children[i]?.bind (get? is) := rfl

@[simp] theorem splice_nil (graft t : Tree) : graft.splice [] t = graft := rfl

@[simp] theorem splice_cons (graft : Tree) (i : Nat) (is : List Nat) (k : Kind) (ts : Forest) :
    graft.splice (i :: is) (.node k ts) = .node k (ts.modify i (graft.splice is)) := rfl

end Tree

mutual

/-- Whether no node in a tree has more than three children. -/
def Tree.isSmall : Tree → Bool
  | .leaf _ => true
  | .node _ ts => ts.length ≤ 3 && Forest.allSmall ts

def Forest.allSmall : Forest → Bool
  | [] => true
  | t :: ts => t.isSmall && Forest.allSmall ts

end

/-- The identity of the subtree at a path that leads through the place of a tree read by itself. -/
def Identity.ofRead (serial : Nat) (root : Tree) (place path : List Nat) : Identity :=
  match root.get? path with
  | some t => if path ≠ place ∧ t.isSmall then .alike serial place t else .made serial path
  | none => .made serial path

/-- Where the type name begins that a path leads to or into. -/
def Tree.typeNameOn? : List Nat → Tree → Option (List Nat)
  | _, .leaf _ => none
  | path, .node k ts =>
    if k.isType then some []
    else match path with
      | [] => none
      | i :: is => (ts[i]?.bind (Tree.typeNameOn? is)).map (i :: ·)

/-- The identity of the subtree at a path. Nothing but a reading makes type syntax, a name by itself
apart, which has no subtrees to share. -/
def Origin.identityAt : Origin → List Nat → Identity
  | .parsed serial root, path => .ofRead serial root [] path
  | .built serial root, path =>
    match root.typeNameOn? path with
    | some place => .ofRead serial root place path
    | none => .made serial path
  | .spliced serial base at_ graft, path =>
    if at_.isPrefixOf path then graft.identityAt (path.drop at_.length)
    else if path.isPrefixOf at_ then .made serial path
    else base.identityAt path
  | .part whole at_, path => whole.identityAt (at_ ++ path)

/-- A tree together with where it comes from. -/
structure SyntaxTree where
  root : Tree
  origin : Origin

/-- What can go wrong with a request to a tree. -/
inductive TreeError where
  | notFound (offset : Nat)
  | nodeNotFound (range : TextRange)
  deriving DecidableEq

def TreeError.message : TreeError → String
  | .notFound offset => s!"offset {offset} lies outside the syntax tree"
  | .nodeNotFound range => s!"node {range.describe} does not belong to this syntax tree"

/-- A node together with the version it was taken from. -/
structure Handle where
  home : SyntaxTree
  node : Node

namespace SyntaxTree

def identity (t : SyntaxTree) : Identity := t.origin.identityAt []

def rootNode (t : SyntaxTree) : Node := .root t.root

def text (t : SyntaxTree) : String := t.root.text

/-- The innermost node at an offset; the end of the text belongs to the root. -/
def nodeAt (t : SyntaxTree) (offset : Nat) : Except TreeError Node :=
  if t.root.size < offset then .error (.notFound offset) else .ok (t.rootNode.atOffset offset)

/-- The smallest node that covers a range. -/
def covering (t : SyntaxTree) (r : TextRange) : Except TreeError Node :=
  if t.root.size < r.stop then .error (.notFound r.stop) else .ok (t.rootNode.covering r)

/-- Whether a node was taken from this version. -/
def contains (t : SyntaxTree) (h : Handle) : Bool := h.home.identity == t.identity

/-- The version in which a node is replaced; `serial` is new. To replace the root is to go over to
the replacement. -/
def replace (t : SyntaxTree) (serial : Nat) (h : Handle) (graft : SyntaxTree) :
    Except TreeError SyntaxTree :=
  if !t.contains h then .error (.nodeNotFound h.node.range)
  else .ok ⟨Tree.splice graft.root h.node.path t.root,
    .spliced serial t.origin h.node.path graft.origin⟩

end SyntaxTree

namespace Handle

def range (h : Handle) : TextRange := h.node.range

def kind (h : Handle) : Kind := h.node.kind

/-- The subtree of a handle, which is the same part as in its version. -/
def subtree (h : Handle) : SyntaxTree := ⟨h.node.tree, .part h.home.origin h.node.path⟩

/-- The node in a tree that has the identity of the handle's version. -/
def resolve (h : Handle) (t : SyntaxTree) : Except TreeError Node :=
  if h.home.identity ≠ t.identity then .error (.nodeNotFound h.range)
  else match t.rootNode.follow? h.node.path with
    | some n => .ok n
    | none => .error (.nodeNotFound h.range)

/-- Whether two handles name the same node of equal trees. -/
def same (g h : Handle) : Bool :=
  g.home.root == h.home.root && g.node.path == h.node.path && g.range == h.range &&
    g.node.tree == h.node.tree

end Handle
end SharpRefactor
