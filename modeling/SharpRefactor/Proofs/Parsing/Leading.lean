import SharpRefactor.Proofs.Parsing.Levels
import SharpRefactor.Proofs.Parsing.Unbounded

/-!
Trivia stays in front of nodes. A level is opened where a significant token is next, or none at all,
and whatever is built over it later begins with that token: no run changes what its level and the
tokens that are left spell together. Only the file itself begins at the first token, trivia or not.
-/

namespace SharpRefactor

namespace ParseState

/-- Whether the open level and what is left begin with a significant token, if with any. -/
def Firm (s : ParseState) : Prop := ∀ t ∈ s.yield.head?, t.isTrivia = false

theorem firm_opened (s : ParseState) : s.trivia.opened.Firm := by
  intro t first
  have left : s.trivia.opened.yield = s.tokens.dropWhile (·.kind.isTrivia) := rfl
  rw [left] at first
  have stops := List.head?_dropWhile_not (·.kind.isTrivia) s.tokens
  rw [Option.mem_def.mp first] at stops
  exact stops

theorem Firm.level {s : ParseState} (firm : s.Firm) :
    ∀ t ∈ (Forest.tokens s.level.reverse).head?, t.isTrivia = false := by
  intro t first
  refine firm t ?_
  rw [Option.mem_def] at first ⊢
  rw [yield, List.head?_append, first, Option.some_or]

end ParseState

def Construct.continues : Construct → Bool
  | .qualifiers | .operators _ | .suffixes => true
  | _ => false

namespace Parse

/-- Whether a program wraps the open level only if something holds. A level that it opens itself is
not asked about. -/
def Leads (firm : Prop) : {α : Type} → Parse α → Prop
  | _, andThen p f => p.Leads firm ∧ ∀ a, (f a).Leads firm
  | _, wrap _ p => firm ∧ p.Leads firm
  | _, inner c => c.continues → firm
  | _, _ => True

def Leading (_ : Kind) (ts : Forest) : Prop := ∀ t ∈ ts.tokens.head?, t.isTrivia = false

section Runs

variable {α : Type} {p : Parse α} {s s' : ParseState} {a : α} {firm : Prop}

theorem Runs.yield_eq (h : Runs p s a s') : s'.yield = s.yield := by
  have kept : (p.run Construct.readAll s).2.yield = s.yield :=
    run_yield (fun c s => c.read_yield _ s) p s
  rwa [h.run_eq] at kept

theorem Runs.keeps_firm (h : Runs p s a s') (firm : s.Firm) : s'.Firm := by
  rwa [ParseState.Firm, h.yield_eq]

theorem leads_of_firm (holds : firm) (p : Parse α) : p.Leads firm := by
  induction p with
  | andThen p f ihp ihf => exact ⟨ihp, ihf⟩
  | wrap k p ih => exact ⟨holds, ih⟩
  | inner c => exact fun _ => holds
  | _ => trivial

/-- A run that wraps no level with trivia in front builds nodes without trivia in front. -/
theorem Runs.leading (rules : ∀ c : Construct, c.rule.Leads c.continues) (h : Runs p s a s')
    (leads : p.Leads firm) (own : firm → s.Firm) (leading : s.Every Leading) : s'.Every Leading := by
  induction h generalizing firm with
  | done | nth? | ahead => exact leading
  | andThen run _ ihp ihf =>
      exact ihf (leads.2 _) (fun holds => run.keeps_firm (own holds)) (ihp leads.1 own leading)
  | current | skip | fail => exact leading.takeWhile _
  | bump s => exact leading.trivia.takeOne
  | @group _ p s _ _ _ ih =>
      have inside := ih (leads_of_firm trivial p) (fun _ => s.firm_opened) s.trivia.every_opened
      exact inside.closed leading.trivia
  | wrap k run ih => exact (ih leads.2 own leading).wrapped (run.keeps_firm (own leads.1)).level
  | @inner c _ _ _ ih => exact ih (rules c) (fun continues => own (leads continues)) leading

end Runs

section Rules

variable {α β : Type} {p : Parse α} {firm : Prop}

@[simp] theorem leads_bind {f : α → Parse β} :
    (p >>= f).Leads firm ↔ p.Leads firm ∧ ∀ a, (f a).Leads firm := Iff.rfl

@[simp] theorem leads_pure (a : α) : (pure a : Parse α).Leads firm := trivial

@[simp] theorem leads_current : current.Leads firm := trivial

@[simp] theorem leads_bump : bump.Leads firm := trivial

@[simp] theorem leads_fail (e : SyntaxError) : (fail e).Leads firm := trivial

@[simp] theorem leads_ahead (question : Lookahead.Question) : (ahead question).Leads firm := trivial

@[simp] theorem leads_nth? (n : Nat) : (nth? n).Leads firm := trivial

@[simp] theorem leads_group (p : Parse α) : (group p).Leads firm := trivial

@[simp] theorem leads_node (k : Kind) (p : Parse α) : (node k p).Leads firm := trivial

@[simp] theorem leads_inner (c : Construct) : (inner c).Leads firm ↔ (c.continues → firm) := Iff.rfl

@[simp] theorem leads_ite {c : Prop} [Decidable c] {q : Parse α} :
    (if c then p else q).Leads firm ↔ if c then p.Leads firm else q.Leads firm := by
  split <;> rfl

theorem rules_lead (c : Construct) : c.rule.Leads c.continues := by
  cases c
  case qualifiers | operators | suffixes => exact leads_of_firm rfl _
  case type | expression | unary | block => exact trivial
  all_goals simp only [Construct.rule, Construct.continues]
  case namespaceBody => simp [namespaceBody, Construct.continues]
  case usings => simp [usings, usingDirective, atKind, Construct.continues]
  case namespaceMembers => simp [namespaceMembers, namespaceMember, namespaceDeclaration,
    atTypeDeclaration,
    typeDeclaration, malformedTopLevel, atKind, Construct.continues]
  case typeParameters => simp [typeParameters, atKind, Construct.continues]
  case baseTypes => simp [baseTypes, atTypeStart, missing, atKind, Construct.continues]
  case members => simp [members, member, atKind, Construct.continues]
  case accessors => simp [accessors, accessor, atIdentifier, atKind, Construct.continues]
  case parameters => simp [parameters, parameter, atKind, Construct.continues]
  case statements => simp [statements, atKind, Construct.continues]
  case declarators => simp [declarators, atKind, Construct.continues]
  case ranks => simp [ranks, atRank, secondIs, atKind, Construct.continues]
  case typeArguments => simp [typeArguments, atTypeStart, missing, atKind, Construct.continues]
  case arguments => simp [arguments, atKind, Construct.continues]
  case statement =>
    refine leads_bind.mpr ⟨leads_current, fun k => ?_⟩
    split <;> simp [returnStatement, ifStatement, localDeclaration, expressionStatement,
      malformedStatement, Construct.continues]

end Rules
end Parse

/-- Every node in a file, the file apart, begins with a significant token, if with any. -/
theorem parse_leading (text : String) : ∀ t ∈ (parse text).root.children, t.Every Parse.Leading := by
  have file : Parse.file.Leads False := by simp [Parse.file, Construct.continues]
  exact every_children_parse ((Parse.runs_file _).leading Parse.rules_lead file False.elim
    (ParseState.every_start _))

namespace Node

/-- The first significant token inside a node, with its range. -/
def lead? (n : Node) : Option (Token × TextRange) :=
  (placeTokens n.start n.tree.tokens).find? (!·.1.isTrivia)

theorem start_of_lead? {n : Node} {p : Token × TextRange}
    (leads : ∀ t ∈ n.tree.tokens.head?, t.isTrivia = false) (lead : n.lead? = some p) :
    p.2.start = n.start := by
  rw [lead?] at lead
  cases tokens : n.tree.tokens with
  | nil => rw [tokens] at lead; cases lead
  | cons t ts =>
      rw [tokens] at lead leads
      rw [placeTokens, List.find?_cons_of_pos (by simpa using leads t rfl)] at lead
      cases lead
      rfl

theorem start_le_of_contains {n : Node} {offset : Nat} (holds : n.range.contains offset) :
    n.start ≤ offset := by
  rw [TextRange.contains, Bool.and_eq_true] at holds
  exact of_decide_eq_true holds.1

theorem tokens_eq {n : Node} (isNode : n.tree.isNode) :
    n.tree.tokens = Forest.tokens n.tree.children := by
  generalize n.tree = tree at isNode
  cases tree with
  | leaf token => cases isNode
  | node k ts => exact Tree.tokens_node k ts

end Node

/-- White space and comments stay outside of the nodes behind them: the first token of a node other
than the root is neither. So a caret leads to such a node only from the node's first significant
token on, and never from the trivia in front of it. -/
theorem parse_leads (text : String) :
    (∀ n ∈ (Node.root (parse text).root).descendants, n ≠ Node.root (parse text).root →
      ∀ t ∈ n.tree.tokens.head?, t.isTrivia = false) ∧
    ∀ tree : SyntaxTree, tree.root = (parse text).root →
      ∀ caret n, tree.nodeAt caret = .ok n → n ≠ tree.rootNode →
        ∀ p, n.lead? = some p → p.2.start ≤ caret := by
  have leads : ∀ n ∈ (Node.root (parse text).root).descendants, n ≠ Node.root (parse text).root →
      ∀ t ∈ n.tree.tokens.head?, t.isTrivia = false := by
    intro n inside below
    rw [Node.tokens_eq (Node.isNode_of_mem_descendants inside)]
    exact Node.own_of_mem_descendants_ne (parse_leading text) inside below
  refine ⟨leads, ?_⟩
  rintro ⟨root, origin⟩ rfl caret n found below p lead
  obtain rfl : (Node.root (parse text).root).atOffset caret = n := by
    rw [SyntaxTree.nodeAt] at found
    split at found
    · cases found
    · exact Except.ok.inj found
  rw [Node.start_of_lead? (leads _ (Node.walk_mem_descendants _ rfl) below) lead]
  rcases Node.atOffset_contains caret (Node.root (parse text).root) with stays | holds
  · exact absurd stays below
  · exact Node.start_le_of_contains holds

/-- A caret in the comment in front of a name leads to what stands around both. -/
theorem parse_leads_comment :
    let text := "class C { int F = /* c */ x; }"
    let tree : SyntaxTree := ⟨(parse text).root, .parsed 0 (parse text).root⟩
    ∃ n, tree.nodeAt 20 = .ok n ∧ n.kind = .equalsValueClause ∧ n ≠ tree.rootNode ∧
      n.lead? = some (⟨.eq, "="⟩, .ofSize 16 1) ∧ (TextRange.ofSize 16 1).start ≤ 20 := by
  intro text tree
  let found := tree.rootNode.atOffset 20
  obtain ⟨at_, kind, below, lead⟩ : ¬ tree.root.size < 20 ∧ found.kind = .equalsValueClause ∧
      found ≠ tree.rootNode ∧ found.lead? = some (⟨.eq, "="⟩, .ofSize 16 1) := by decide +kernel
  have led : tree.nodeAt 20 = .ok found := if_neg at_
  exact ⟨found, led, kind, below, lead, (parse_leads text).2 tree rfl 20 found led below _ lead⟩

end SharpRefactor
