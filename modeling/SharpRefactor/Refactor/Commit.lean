import SharpRefactor.Refactor.RuleSet

/-!
Carrying out an offer: its edit is built, made in the tree, and what is new is given to a formatter.
-/

namespace SharpRefactor

/-- Tidies a part of a tree. -/
abbrev Formatter := SyntaxTree → TextRange → SyntaxTree

/-- Leaves every tree as it is. -/
def Formatter.none : Formatter := fun t _ => t

/-- What has come of an offer. -/
structure Committed where
  tree : SyntaxTree
  edit : Edit
  /-- The range of the new node, which the formatter was given. -/
  annotation : TextRange

namespace Offer

/-- Makes the edit of an offer in a tree; `serial` and the number after it are new. -/
def commit (o : Offer) (t : SyntaxTree) (c : Context) (format : Formatter) (serial : Nat) :
    Asking (Except RefactorError Committed) := do
  match ← o.realize c serial with
  | .error e => return .error e
  | .ok edit =>
    match edit.apply (serial + 1) t with
    | .error e => return .error e
    | .ok edited =>
      let annotation := TextRange.ofSize edit.replacedRange.start edit.replacement.root.size
      return .ok ⟨format edited annotation, edit, annotation⟩

end Offer
end SharpRefactor
