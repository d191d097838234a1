import SharpRefactor.Refactor.Rule
import SharpRefactor.Wire.Value

/-!
Kinds and names between this library and a host.
-/

namespace SharpRefactor.Wire

/-- The category that a value names. -/
def actionKind? (v : Value) : Option ActionKind := v.label?.bind ActionKind.ofLabel?

/-- The kind of workspace that a value names. -/
def workspaceKind? (v : Value) : Option WorkspaceKind := v.label?.bind WorkspaceKind.ofLabel?

/-- The name of a rule. -/
def ruleId? (v : Value) : Option String := v.text?

end SharpRefactor.Wire
