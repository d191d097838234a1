import SharpRefactor.Refactor.RuleSet
import SharpRefactor.Settings.Basic

/-!
The rules that the settings of a host leave on.
-/

namespace SharpRefactor.RuleSet

/-- The rules that are there from the start and have not been turned off, with the titles that have
been set. -/
def ofSettings (s : RuleSettings) : RuleSet :=
  ⟨builtinRules.filter fun r => s.isEnabled r.id, s.titles⟩

end SharpRefactor.RuleSet
