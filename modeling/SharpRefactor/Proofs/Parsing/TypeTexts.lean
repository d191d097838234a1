import SharpRefactor.Proofs.Parsing.TypeScan
import SharpRefactor.Proofs.Syntax.Paths

/-!
The texts that are types. `parseTypeName` leaves by four ways: nothing begins like a type, something
is wrong with a token or where one is missing, tokens are left over, or more than one tree was read.
The last one is open only to texts with a comment at an end, and none of them to a text whose tokens
are all passed by the scan of a type; what is accepted is the text itself as a type without faulty
parts.
-/

namespace SharpRefactor

inductive Tree.Faultless : Tree → Prop where
  | leaf {t : Token} (own : t.kind ≠ .error) : Faultless (.leaf t)
  | node {k : Kind} {ts : Forest} (own : k ≠ .error) (inside : ∀ t ∈ ts, t.Faultless) :
      Faultless (.node k ts)

namespace Tree.Faultless

theorem tokens {t : Tree} (h : t.Faultless) : ∀ u ∈ t.tokens, u.kind ≠ .error := by
  induction h with
  | leaf own => simpa using own
  | @node k ts own inside ih =>
      rw [Tree.tokens_node]
      clear own inside
      induction ts with
      | nil => simp
      | cons t ts tail =>
          rw [List.forall_mem_cons] at ih
          rw [Forest.tokens_cons]
          exact List.forall_mem_append.mpr ⟨ih.1, tail ih.2⟩

theorem descendants {t : Tree} (h : t.Faultless) :
    ∀ n ∈ (Node.root t).descendants, n.kind ≠ .error := by
  intro n inside
  have own : n.tree.Faultless :=
    Node.of_mem_descendants (fun _ _ parent => by cases parent with
      | node own each => exact each) h inside
  rw [Node.kind]
  generalize n.tree = u at own
  cases own with
  | leaf own => exact own
  | node own inside => exact own

end Tree.Faultless

mutual

/-- Trivia is not faulty. -/
theorem Tree.faultless_of_bare : ∀ t : Tree, (∀ u ∈ t.bare, u.Faultless) → t.Faultless
  | .leaf t, each => by
      rw [Tree.bare] at each
      split at each
      · next trivia =>
          refine .leaf fun error => ?_
          rw [Token.isTrivia, error] at trivia
          cases trivia
      · exact each _ List.mem_cons_self
  | .node k ts, each => by
      have bare : (Tree.node k (Forest.bare ts)).Faultless := each _ List.mem_cons_self
      cases bare with
      | node own inside => exact .node own (Forest.faultless_of_bare ts inside)

theorem Forest.faultless_of_bare :
    ∀ ts : Forest, (∀ u ∈ Forest.bare ts, u.Faultless) → ∀ t ∈ ts, t.Faultless
  | [], _ => nofun
  | t :: ts, each => by
      rw [Forest.bare, List.forall_mem_append] at each
      exact List.forall_mem_cons.mpr
        ⟨Tree.faultless_of_bare t each.1, Forest.faultless_of_bare ts each.2⟩

end

theorem IsRank.faultless {r : Tree} (h : IsRank r) : r.Faultless := by
  cases h with
  | intro left right =>
      exact .node (by simp) (by simp [Tree.Faultless.leaf, left, right])

/-- Nothing in a type is faulty. -/
theorem Spells.faultless {part : TypePart} {ts : Forest} (h : Spells part ts) :
    ∀ t ∈ ts, t.Faultless := by
  have token : ∀ {t : Token} {k : Kind}, t.kind = k → k ≠ .error → (Tree.leaf t).Faultless :=
    fun kind real => .leaf (kind ▸ real)
  induction h with
  | identifier name => simpa using .node (by simp) (by simpa using token name (by simp))
  | @generic t l r args name left inside right ih =>
      have closed : ∀ u ∈ args ++ [Tree.leaf r], u.Faultless :=
        List.forall_mem_append.mpr ⟨ih, by simpa using token right (by simp)⟩
      have list : (Tree.node .typeArgumentList (.leaf l :: (args ++ [.leaf r]))).Faultless :=
        .node (by simp) (List.forall_mem_cons.mpr ⟨token left (by simp), closed⟩)
      simpa using .node (by simp) (by simpa using ⟨token name (by simp), list⟩)
  | undotted _ ih | named _ ih | plain _ ih | last _ ih => exact ih
  | qualified left dot right ihl ihr =>
      simp only [List.mem_singleton, forall_eq] at ihl ihr ⊢
      exact .node (by simp) (by simpa using ⟨ihl, token dot (by simp), ihr⟩)
  | @predefined t keyword =>
      have real : t.kind ≠ .error := by
        intro error
        rw [error] at keyword
        cases keyword
      simpa using .node (by simp) (by simpa using Tree.Faultless.leaf real)
  | array element _ ranks ih =>
      simp only [List.mem_singleton, forall_eq] at ih ⊢
      exact .node (by simp) (List.forall_mem_cons.mpr ⟨ih, fun r member => (ranks r member).faultless⟩)
  | more type comma rest iht ihr =>
      simp only [List.mem_singleton, forall_eq] at iht
      exact List.forall_mem_cons.mpr ⟨iht, List.forall_mem_cons.mpr ⟨token comma (by simp), ihr⟩⟩

/-- A type without anything else around it is what the scan passes. -/
theorem Spells.afterType?_eq {ts : List Token} {T : Tree} (tight : Tight ts) (whole : Spells .whole [T])
    (tokens : T.tokens = bareTokens ts) : Lookahead.afterType? ts = some [] := by
  -- The scan passes the bare tokens; of the text it could leave trivia at most, and none stands at
  -- the end.
  have passed : Lookahead.afterType? (bareTokens ts) = some [] := by
    rw [Lookahead.afterType?]
    have scanned := whole.scanned (Lookahead.steps (bareTokens ts)) [] (by
      have solid : Lookahead.significant (bareTokens ts) = (bareTokens ts).length :=
        Lookahead.significant_of_solid fun _ => isTrivia_of_mem_bareTokens
      simp [tokens, Lookahead.steps, solid]
      omega) ⟨by decide, by decide, by decide⟩
    simpa [tokens] using scanned
  rw [Lookahead.afterType?_bare] at passed
  obtain ⟨rest, scan, trivia⟩ := Option.map_eq_some_iff.mp passed
  obtain ⟨front, rfl⟩ := Lookahead.afterType?_suffix scan
  rw [tight.suffix_nil trivia] at scan ⊢
  exact scan

/-- A text with no comment at its ends is accepted as a type exactly if its tokens have no faults
and the scan of a type passes them all; for every text, what is accepted is a node of a type with
the text of the input, in which nothing is faulty. -/
theorem parseTypeName_accepts (text : String) :
    let ls := lex (trimmed text)
    let ts := ls.map Lexeme.token
    ((∀ t ∈ ts.head?, t.kind.isComment = false) → (∀ t ∈ ts.getLast?, t.kind.isComment = false) →
      parseTypeName text ≠ .error .surrounded ∧
      ((∃ tree, parseTypeName text = .ok tree) ↔
        lexicalErrors ls = [] ∧ Lookahead.afterType? ts = some [])) ∧
    ∀ tree, parseTypeName text = .ok tree →
      (tree.isNode && tree.kind.isType) = true ∧ tree.text = trimmed text ∧
      (∀ n ∈ (Node.root tree).descendants, n.kind ≠ .error) ∧ ∀ t ∈ tree.tokens, t.kind ≠ .error := by
  intro ls ts
  constructor
  · intro front back
    have tight : Tight ts := tight_lex_trimmed front back
    refine ⟨parseTypeName_ne_surrounded tight, ?_, ?_⟩
    · rintro ⟨tree, accepted⟩
      obtain ⟨T, -, whole, tokens⟩ := parseTypeName_sound accepted
      exact ⟨(parseTypeName_eq_ok_iff.mp accepted).1, whole.afterType?_eq tight tokens⟩
    · rintro ⟨fine, scan⟩
      obtain ⟨T, whole, tokens, -⟩ := Construct.type_bare_of_scan (s := ParseState.start ts) scan
      obtain ⟨tree, accepted, -⟩ := parseTypeName_complete tight fine whole
        (tokens.trans (List.append_nil _)).symm
      exact ⟨tree, accepted⟩
  · intro tree accepted
    obtain ⟨T, bare, whole, -⟩ := parseTypeName_sound accepted
    obtain ⟨-, -, -, -, -, isNode⟩ := parseTypeName_eq_ok_iff.mp accepted
    have faultless : tree.Faultless := Tree.faultless_of_bare tree (bare ▸ whole.faultless)
    refine ⟨?_, parseTypeName_text accepted, faultless.descendants, faultless.tokens⟩
    have type := whole.isType (by simp) T List.mem_cons_self
    cases tree with
    | leaf t => cases isNode
    | node k us =>
        cases bare
        exact type

/-- White space and comments inside a type are kept, and a list that is not closed is no type. -/
theorem parseTypeName_accepts_inside :
    (∃ tree, parseTypeName " L< int/**/>[] " = .ok tree ∧ tree.text = "L< int/**/>[]") ∧
      ¬ ∃ tree, parseTypeName "L<int" = .ok tree := by
  constructor
  · obtain ⟨accepts, form⟩ := parseTypeName_accepts " L< int/**/>[] "
    obtain ⟨-, accepted⟩ := accepts (by decide +kernel) (by decide +kernel)
    obtain ⟨tree, ok⟩ := accepted.mpr (by decide +kernel)
    obtain ⟨-, text, -, -⟩ := form tree ok
    exact ⟨tree, ok, text.trans (by decide +kernel)⟩
  · obtain ⟨accepts, -⟩ := parseTypeName_accepts "L<int"
    obtain ⟨-, accepted⟩ := accepts (by decide +kernel) (by decide +kernel)
    exact fun ok => absurd (accepted.mp ok) (by decide +kernel)

end SharpRefactor
