import SharpRefactor.Syntax.Token

/-!
Syntax trees: nodes over tokens, nothing else. A tree keeps every character it was read from, so its
text is the text of its tokens in order, and every node but the root takes its offset from what
stands to its left.
-/

namespace SharpRefactor

/-- A token, or a node with its children in order. -/
inductive Tree where
  | leaf (token : Token)
  | node (kind : Kind) (children : List Tree)
  deriving Repr

/-- Trees side by side, as under one node. -/
abbrev Forest := List Tree

namespace Tree

def kind : Tree → Kind
  | .leaf t => t.kind
  | .node k _ => k

def children : Tree → Forest
  | .leaf _ => []
  | .node _ ts => ts

def isNode : Tree → Bool
  | .leaf _ => false
  | .node _ _ => true

/-- The token of a leaf. -/
def token? : Tree → Option Token
  | .leaf t => some t
  | .node _ _ => none

/-- A tree follows from its parts: leaves first, then nodes all of whose children are done. -/
theorem induct {P : Tree → Prop} (leaf : ∀ t, P (.leaf t))
    (node : ∀ k ts, (∀ t ∈ ts, P t) → P (.node k ts)) : ∀ t, P t
  | .leaf t => leaf t
  | .node k ts => node k ts fun t _ => induct leaf node t

end Tree

mutual

/-- The tokens of a tree from left to right. -/
def Tree.tokens : Tree → List Token
  | .leaf t => [t]
  | .node _ ts => Forest.tokens ts

/-- The tokens of trees side by side. -/
def Forest.tokens : Forest → List Token
  | [] => []
  | t :: ts => t.tokens ++ Forest.tokens ts

end

mutual

/-- Length in bytes. -/
def Tree.size : Tree → Nat
  | .leaf t => t.size
  | .node _ ts => Forest.size ts

def Forest.size : Forest → Nat
  | [] => 0
  | t :: ts => t.size + Forest.size ts

end

mutual

/-- Equality of trees in kinds, nesting and token texts. -/
def Tree.decEq : (s t : Tree) → Decidable (s = t)
  | .leaf a, .leaf b => if h : a = b then isTrue (by rw [h]) else isFalse (by simpa using h)
  | .node j ss, .node k ts =>
    if h : j = k then
      match Forest.decEq ss ts with
      | isTrue h' => isTrue (by rw [h, h'])
      | isFalse h' => isFalse (by simp [h'])
    else isFalse (by simp [h])
  | .leaf _, .node _ _ => isFalse (by simp)
  | .node _ _, .leaf _ => isFalse (by simp)

def Forest.decEq : (ss ts : Forest) → Decidable (ss = ts)
  | [], [] => isTrue rfl
  | s :: ss, t :: ts =>
    match Tree.decEq s t, Forest.decEq ss ts with
    | isTrue h, isTrue h' => isTrue (by rw [h, h'])
    | isFalse h, _ => isFalse (by simp [h])
    | _, isFalse h => isFalse (by simp [h])
  | [], _ :: _ => isFalse (by simp)
  | _ :: _, [] => isFalse (by simp)

end

instance : DecidableEq Tree := Tree.decEq

/-- The text of tokens written one after the other. -/
def tokensText (ts : List Token) : String := String.join (ts.map Token.text)

namespace Tree

/-- The source text of a tree. -/
def text (t : Tree) : String := tokensText t.tokens

@[simp] theorem tokens_leaf (t : Token) : (Tree.leaf t).tokens = [t] := by simp [Tree.tokens]

@[simp] theorem tokens_node (k : Kind) (ts : Forest) :
    (Tree.node k ts).tokens = Forest.tokens ts := by simp [Tree.tokens]

@[simp] theorem size_leaf (t : Token) : (Tree.leaf t).size = t.size := by simp [Tree.size]

@[simp] theorem size_node (k : Kind) (ts : Forest) : (Tree.node k ts).size = Forest.size ts := by
  simp [Tree.size]

end Tree

namespace Forest

@[simp] theorem tokens_nil : Forest.tokens [] = [] := by simp [Forest.tokens]

@[simp] theorem tokens_cons (t : Tree) (ts : Forest) :
    Forest.tokens (t :: ts) = t.tokens ++ Forest.tokens ts := by simp [Forest.tokens]

@[simp] theorem size_nil : Forest.size [] = 0 := by simp [Forest.size]

@[simp] theorem size_cons (t : Tree) (ts : Forest) :
    Forest.size (t :: ts) = t.size + Forest.size ts := by simp [Forest.size]

theorem tokens_append (ss ts : Forest) :
    Forest.tokens (ss ++ ts) = Forest.tokens ss ++ Forest.tokens ts := by
  induction ss with
  | nil => simp
  | cons s ss ih => simp [ih]

theorem size_append (ss ts : Forest) :
    Forest.size (ss ++ ts) = Forest.size ss + Forest.size ts := by
  induction ss with
  | nil => simp
  | cons s ss ih => simp [ih, Nat.add_assoc]

end Forest
end SharpRefactor
