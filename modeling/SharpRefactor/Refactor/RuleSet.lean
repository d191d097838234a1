import SharpRefactor.Refactor.Edit
import SharpRefactor.Refactor.MethodGroup
import SharpRefactor.Settings.Titles

/-!
Rules in the order in which they are tried, and what they offer at a selection. An offer is a
promise only: its edit is built when it is asked for.
-/

namespace SharpRefactor

/-- A refactoring that has been offered and not been built. -/
structure Offer where
  rule : Rule
  title : String
  found : Match

namespace Offer

def range (o : Offer) : TextRange := o.found.target.range

/-- Where a replacement comes from. What lives on in it is the part it was. -/
def originOf (serial : Nat) (target : Handle) (r : Replacement) : Origin :=
  match r.reused with
  | none => .built serial r.tree
  | some path => .spliced serial (.built serial r.tree) path target.subtree.origin

/-- Builds the edit; `serial` is new. -/
def realize (o : Offer) (c : Context) (serial : Nat) : Asking (Except RefactorError Edit) := do
  match ← o.rule.build c o.found with
  | .error e => return .error e
  | .ok r => return .ok ⟨o.found.target, r.tree, originOf serial o.found.target r⟩

end Offer

/-- Rules in order, and the titles that have been set for them. -/
structure RuleSet where
  rules : List Rule
  titles : Titles

namespace RuleSet

def empty : RuleSet := ⟨[], .empty⟩

/-- The rules that are there from the start. -/
def builtinRules : List Rule := [MethodGroup.rule]

def builtin : RuleSet := ⟨builtinRules, .empty⟩

/-- Adds a rule, which is tried after all others. -/
def register (s : RuleSet) (r : Rule) : RuleSet := { s with rules := s.rules ++ [r] }

def ids (s : RuleSet) : List String := s.rules.map Rule.id

/-- The title of a rule: its own one if no other has been set. -/
def titleFor (titles : Titles) (r : Rule) : String := (titles.get? r.id).getD r.title

/-- The node at the start of a selection. A cancelled request has none. -/
def nodeAt? (t : SyntaxTree) (selection : TextRange) (c : Context) : Option Handle :=
  if c.cancelled then none else (t.nodeAt selection.start).toOption.map (⟨t, ·⟩)

/-- What one rule offers at a node. -/
def probe (s : RuleSet) (c : Context) (h : Handle) (selection : TextRange) (r : Rule) :
    Asking (Option Offer) := do
  return (← r.probe c h selection).map (⟨r, titleFor s.titles r, ·⟩)

/-- The first of some offers that there is. -/
def firstOffer (ask : Rule → Asking (Option Offer)) : List Rule → Asking (Option Offer)
  | [] => return none
  | r :: rs => do
    match ← ask r with
    | some o => return some o
    | none => firstOffer ask rs

/-- All offers that there are. -/
def allOffers (ask : Rule → Asking (Option Offer)) : List Rule → Asking (List Offer)
  | [] => return []
  | r :: rs => do
    let offer ← ask r
    let others ← allOffers ask rs
    return offer.toList ++ others

/-- The first refactoring that applies at a selection. -/
def first? (s : RuleSet) (t : SyntaxTree) (selection : TextRange) (c : Context) :
    Asking (Option Offer) :=
  match nodeAt? t selection c with
  | none => return none
  | some h => firstOffer (s.probe c h selection) s.rules

/-- Every refactoring that applies at a selection, in the order of the rules. -/
def available (s : RuleSet) (t : SyntaxTree) (selection : TextRange) (c : Context) :
    Asking (List Offer) :=
  match nodeAt? t selection c with
  | none => return []
  | some h => allOffers (s.probe c h selection) s.rules

end RuleSet
end SharpRefactor
