import SharpRefactor.Refactor.Asking
import SharpRefactor.Refactor.Error

/-!
Rules: each looks for one kind of rewriting. To probe a rule is to ask whether it applies at a node;
that happens at every move of the caret, so nothing is built then. What a probe finds is kept and
built later.
-/

namespace SharpRefactor

/-- The category under which an editor offers a refactoring. -/
inductive ActionKind where
  | refactor | extract | inlining | rewriting
  deriving DecidableEq, Repr

namespace ActionKind

def all : List ActionKind := [.refactor, .extract, .inlining, .rewriting]

/-- The name by which editors know a category. -/
def label : ActionKind → String
  | refactor => "refactor"
  | extract => "refactor.extract"
  | inlining => "refactor.inline"
  | rewriting => "refactor.rewrite"

def ofLabel? (s : String) : Option ActionKind := all.find? (·.label == s)

end ActionKind

/-- Where a document stands. Documents outside every project have no meaning to rely on, so nothing
is offered there. -/
inductive WorkspaceKind where
  | project | miscellaneous
  deriving DecidableEq, Repr

namespace WorkspaceKind

def all : List WorkspaceKind := [.project, .miscellaneous]

def label : WorkspaceKind → String
  | project => "project"
  | miscellaneous => "miscellaneous"

def ofLabel? (s : String) : Option WorkspaceKind := all.find? (·.label == s)

end WorkspaceKind

/-- What a rule may consult besides the tree. -/
structure Context where
  resolver : Resolver
  /-- Whether the request has been cancelled. -/
  cancelled : Bool
  workspace : WorkspaceKind
  /-- Whether a tool has written the document. -/
  isGenerated : Bool

/-- What a probe has found: the node to replace, and how its values are called. -/
structure Match where
  target : Handle
  signature : Signature

/-- A replacement for the target of a match. -/
structure Replacement where
  tree : Tree
  /-- The way to the target within the replacement, if it lives on there. -/
  reused : Option (List Nat)

structure Rule where
  /-- The stable name of the rule. -/
  id : String
  /-- The title that is shown unless another one is set. -/
  title : String
  kind : ActionKind
  /-- Whether the rule applies at the innermost node at the start of a selection. -/
  probe : Context → Handle → TextRange → Asking (Option Match)
  /-- The replacement for the target of a match. -/
  build : Context → Match → Asking (Except RefactorError Replacement)

end SharpRefactor
