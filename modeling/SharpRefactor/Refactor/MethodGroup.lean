import SharpRefactor.Refactor.AnonymousMethod
import SharpRefactor.Syntax.View

/-!
The rule that turns a method group, or any other value of a delegate type, into an anonymous method
that calls it. It is offered at a name that is read as a value. The cheap conditions come first, and
the resolver is asked only after all of them.
-/

namespace SharpRefactor.MethodGroup

/-- Whether a node is a name that is read as a value. The name of a type or of the target of an
assignment never is, and the two levels below an event hold its type and its name. -/
def isValueRead (n : Node) : Bool :=
  n.kind == .identifierName && !n.isInEvent && !n.isTypeSyntax && !n.isAssignmentTarget

/-- Whether the rule may apply, as far as can be told without the resolver. -/
def isCandidate (c : Context) (n : Node) (selection : TextRange) : Bool :=
  selection.isEmpty && c.workspace == .project && !c.isGenerated && isValueRead n

/-- The expression of which a name is the last part. -/
def wholeExpression (h : Handle) : Handle := { h with node := h.node.memberAccess?.getD h.node }

/-- Whether a target has a type that can be called, and how. -/
def examine (r : Resolver) (target : Handle) : Asking (Option Match) := do
  match ← r.askType target with
  | none => return none
  | some type => return (← r.askSignature type).map (⟨target, ·⟩)

def probe (c : Context) (h : Handle) (selection : TextRange) : Asking (Option Match) :=
  if isCandidate c h.node selection && !c.cancelled then examine c.resolver (wholeExpression h)
  else return none

/-- The rule with its name and title. -/
def rule : Rule where
  id := "method-group-to-anonymous-method"
  title := "To anonymous method"
  kind := .rewriting
  probe := probe
  build c m := AnonymousMethod.build m.signature m.target c.resolver

end SharpRefactor.MethodGroup
