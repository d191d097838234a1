import SharpRefactor.Refactor.Commit
import SharpRefactor.Syntax.Recipe

/-!
A host at work: it holds versions of documents, nodes and offers taken from them, and edits that
have been built, in any combination. Everything it holds has a number. A step that fails changes
nothing.
-/

namespace SharpRefactor

structure Session where
  rules : RuleSet
  trees : List SyntaxTree
  handles : List Handle
  offers : List Offer
  edits : List Edit
  cancelled : Bool
  /-- The serial number that the next new tree gets. -/
  serial : Nat

/-- Why a step of a session fails. -/
inductive SessionError where
  /-- A number under which the session holds nothing; `key` says what was asked for. -/
  | noSuch (key : String)
  /-- A way up that leads beyond the root. -/
  | noParent
  | tree (cause : TreeError)
  | typeName (cause : TypeNameError)
  | refactor (cause : RefactorError)

/-- A node in a session: the innermost one at an offset of a tree, or one that many levels above. -/
structure NodeRef where
  tree : Nat
  offset : Nat
  levels : Nat

/-- A number of a tree, and what to call it when there is no such tree. -/
structure TreeRef where
  key : String
  index : Nat

/-- A context in a session: whose resolver it has, and what the host says about the document. -/
structure ContextRef where
  resolver : TreeRef
  workspace : WorkspaceKind
  isGenerated : Bool

/-- The tree to put in the place of a node: a new one, or a node that there is. -/
inductive GraftRef where
  | made (recipe : Recipe)
  | taken (node : NodeRef)

/-- The node a number of levels above another one. -/
def Node.above? : Nat → Node → Option Node
  | 0, n => some n
  | levels + 1, n => n.parent?.bind (Node.above? levels)

namespace Session

/-- A step of a session. -/
abbrev Step := StateT Session (Except SessionError)

/-- A session that holds one document. -/
def start (rules : RuleSet) (text : String) : Session :=
  let root := (parse text).root
  { rules := rules, trees := [⟨root, .parsed 0 root⟩], handles := [], offers := [], edits := []
    cancelled := false, serial := 1 }

/-- The item with a number. -/
def item {α : Type} (key : String) (items : List α) (index : Nat) : Step α :=
  match items[index]? with
  | some a => return a
  | none => throw (.noSuch key)

def tree (r : TreeRef) : Step SyntaxTree := do item r.key (← get).trees r.index

def handle (index : Nat) : Step Handle := do item "handle" (← get).handles index

def offer (index : Nat) : Step Offer := do item "pending" (← get).offers index

def edit (key : String) (index : Nat) : Step Edit := do item key (← get).edits index

/-- Passes on the answer of a tree. -/
def ofTree {α : Type} : Except TreeError α → Step α
  | .ok a => return a
  | .error e => throw (.tree e)

def ofRefactor {α : Type} : Except RefactorError α → Step α
  | .ok a => return a
  | .error e => throw (.refactor e)

/-- The node that a reference names. -/
def node (r : NodeRef) : Step Handle := do
  let t ← tree ⟨"tree", r.tree⟩
  match (← ofTree (t.nodeAt r.offset)).above? r.levels with
  | some n => return ⟨t, n⟩
  | none => throw .noParent

/-- Takes serial numbers. -/
def takeSerials (count : Nat) : Step Nat :=
  modifyGet fun s => (s.serial, { s with serial := s.serial + count })

/-- Adds a tree and says which number it has got. -/
def addTree (t : SyntaxTree) : Step Nat :=
  modifyGet fun s => (s.trees.length, { s with trees := s.trees ++ [t] })

def addOffer (o : Offer) : Step Nat :=
  modifyGet fun s => (s.offers.length, { s with offers := s.offers ++ [o] })

/-- Reads a text. -/
def read (text : String) : Step (Nat × SyntaxTree) := do
  let root := (parse text).root
  let t : SyntaxTree := ⟨root, .parsed (← takeSerials 1) root⟩
  return (← addTree t, t)

/-- Reads the text of a tree again. -/
def reread (r : TreeRef) : Step (Nat × SyntaxTree) := do read (← tree r).text

/-- Holds a tree under one more number. -/
def duplicate (r : TreeRef) : Step (Nat × SyntaxTree) := do
  let t ← tree r
  return (← addTree t, t)

def contains (n : NodeRef) (r : TreeRef) : Step Bool := do
  let h ← node n
  return (← tree r).contains h

def equal (a b : TreeRef) : Step Bool := do
  let s ← tree a
  return s.root == (← tree b).root

/-- The tree that a reference names. -/
def graft : GraftRef → Step SyntaxTree
  | .taken n => return (← node n).subtree
  | .made recipe =>
    match recipe.make with
    | .ok made => return ⟨made, .built (← takeSerials 1) made⟩
    | .error e => throw (.typeName e)

/-- Replaces a node. -/
def replace (n : NodeRef) (g : GraftRef) (r : TreeRef) : Step (Nat × SyntaxTree) := do
  let h ← node n
  let graft ← graft g
  let t ← tree r
  let edited ← ofTree (t.replace (← takeSerials 1) h graft)
  return (← addTree edited, edited)

/-- Keeps a node for later. -/
def keep (n : NodeRef) : Step (Nat × Handle) := do
  let h ← node n
  modifyGet fun s => ((s.handles.length, h), { s with handles := s.handles ++ [h] })

/-- The node that was kept, in a tree. -/
def resolve (index : Nat) (r : TreeRef) : Step Node := do
  let h ← handle index
  ofTree (h.resolve (← tree r))

def resolver (r : TreeRef) : Step Resolver := do return .ofTree (← tree r)

def context (c : ContextRef) : Step Context := do
  return ⟨← resolver c.resolver, (← get).cancelled, c.workspace, c.isGenerated⟩

def typeOf (n : NodeRef) (r : TreeRef) : Step (Option Ty) := do
  let h ← node n
  return (← resolver r).typeOf h

def setCancelled (cancelled : Bool) : Step Unit :=
  modify fun s => { s with cancelled := cancelled }

/-- Holds some offers and says under which numbers. -/
def addOffers : List Offer → Step (List (Nat × Offer))
  | [] => return []
  | o :: os => do
    let index ← addOffer o
    return (index, o) :: (← addOffers os)

/-- The first refactoring at a selection. -/
def first (c : ContextRef) (r : TreeRef) (selection : TextRange) : Step (List (Nat × Offer)) := do
  let c ← context c
  let t ← tree r
  addOffers ((← get).rules.first? t selection c).result.toList

/-- Every refactoring at a selection. -/
def available (c : ContextRef) (r : TreeRef) (selection : TextRange) :
    Step (List (Nat × Offer)) := do
  let c ← context c
  let t ← tree r
  addOffers ((← get).rules.available t selection c).result

/-- What the rule for method groups finds at a node. -/
def probe (n : NodeRef) (c : ContextRef) (selection : TextRange) : Step (Option Match) := do
  let h ← node n
  return (MethodGroup.probe (← context c) h selection).result

/-- Builds the edit of an offer. -/
def realize (c : ContextRef) (index : Nat) : Step (Nat × Edit) := do
  let c ← context c
  let o ← offer index
  let e ← ofRefactor (o.realize c (← takeSerials 1)).result
  modifyGet fun s => ((s.edits.length, e), { s with edits := s.edits ++ [e] })

def sameEdit (a b : Nat) : Step Bool := do
  let e ← edit "a" a
  return e.same (← edit "b" b)

/-- Makes an edit in a tree. -/
def apply (index : Nat) (r : TreeRef) : Step (Nat × SyntaxTree) := do
  let e ← edit "edit" index
  let t ← tree r
  let edited ← ofRefactor (e.apply (← takeSerials 1) t)
  return (← addTree edited, edited)

def preview (index : Nat) (r : TreeRef) (file : String) : Step String := do
  let e ← edit "edit" index
  ofRefactor (e.preview (← tree r) file)

/-- Carries out an offer in a tree. -/
def commit (c : ContextRef) (index : Nat) (r : TreeRef) : Step (Nat × Committed) := do
  let c ← context c
  let o ← offer index
  let t ← tree r
  let done ← ofRefactor (o.commit t c .none (← takeSerials 2)).result
  return (← addTree done.tree, done)

end Session
end SharpRefactor
