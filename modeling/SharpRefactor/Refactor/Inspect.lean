import SharpRefactor.Refactor.RuleSet
import SharpRefactor.Text.Quoted

/-!
Descriptions of contexts, rule sets and offers for a log.
-/

namespace SharpRefactor

/-- Fields of a record between braces. What is left out shows as two dots. -/
def showRecord (name : String) (fields : List (String × String)) (isOpen : Bool) : String :=
  let shown := fields.map (fun (key, value) => key ++ ": " ++ value) ++
    (if isOpen then [".."] else [])
  name ++ " \x7b " ++ String.intercalate ", " shown ++ " \x7d"

def showRuleId (id : String) : String := "RuleId(" ++ Text.quote id ++ ")"

def WorkspaceKind.variant : WorkspaceKind → String
  | project => "Project"
  | miscellaneous => "Miscellaneous"

def ActionKind.variant : ActionKind → String
  | refactor => "Refactor"
  | extract => "RefactorExtract"
  | inlining => "RefactorInline"
  | rewriting => "RefactorRewrite"

def Context.inspect (c : Context) : String :=
  showRecord "RefactorContext"
    [("cancelled", toString c.cancelled), ("workspace_kind", c.workspace.variant),
      ("is_generated_code", toString c.isGenerated)] true

def Titles.inspect (t : Titles) : String :=
  let entries := t.entries.map fun (id, title) => showRuleId id ++ ": " ++ Text.quote title
  showRecord "TitleCatalog"
    [("overrides", "\x7b" ++ String.intercalate ", " entries ++ "\x7d")] false

def RuleSet.inspect (s : RuleSet) : String :=
  showRecord "RefactorDriver"
    [("rules", "[" ++ String.intercalate ", " (s.ids.map showRuleId) ++ "]"),
      ("titles", s.titles.inspect)] false

def Offer.inspect (o : Offer) : String :=
  showRecord "PendingRefactoring"
    [("rule_id", showRuleId o.rule.id), ("title", Text.quote o.title),
      ("kind", o.rule.kind.variant), ("target_range", o.range.describe)] true

end SharpRefactor
