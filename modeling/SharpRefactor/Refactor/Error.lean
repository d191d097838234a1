import SharpRefactor.Syntax.Version
import SharpRefactor.Text.Edit

/-!
Why a refactoring cannot be carried out.
-/

namespace SharpRefactor

inductive RefactorError where
  /-- The edit was made for another version of the tree. -/
  | inconsistent (cause : TreeError)
  /-- A type has a spelling that is no type syntax. -/
  | invalidType (text : String)
  /-- The spelling of a type has comments around it. -/
  | surroundedType (text : String)
  | edit (cause : EditError)
  deriving DecidableEq

def RefactorError.message : RefactorError → String
  | .inconsistent cause => s!"structural inconsistency: {cause.message}"
  | .invalidType text | .surroundedType text => s!"`{text}` is not valid type syntax"
  | .edit cause => cause.message

end SharpRefactor
