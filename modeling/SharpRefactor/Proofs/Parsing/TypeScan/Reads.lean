import SharpRefactor.Proofs.Parsing.Contract
import SharpRefactor.Proofs.Parsing.Reentry
import SharpRefactor.Proofs.Parsing.TypeScan.Follows

/-!
With trivia, a type that the scan passes is read up to the next significant token behind it, and one
node of a type is added to the level.
-/

namespace SharpRefactor

open Lookahead BareState

theorem dropTrivia_eq_of_bare {ts us vs : List Token} (first : us <:+ ts) (second : vs <:+ ts)
    (same : bareTokens us = bareTokens vs) : dropTrivia us = dropTrivia vs := by
  have drop : ∀ {us vs : List Token}, us <:+ vs → bareTokens us = bareTokens vs →
      dropTrivia us = dropTrivia vs := by
    rintro us _ ⟨ws, rfl⟩ same
    rw [bareTokens, bareTokens, List.filter_append, eq_comm, List.append_left_eq_self] at same
    refine (List.dropWhile_append_of_pos fun t member => ?_).symm
    show t.isTrivia = true
    simpa using List.filter_eq_nil_iff.mp same t member
  rcases List.suffix_or_suffix_of_suffix first second with inner | inner
  · exact drop inner same
  · exact (drop inner same.symm).symm

namespace Forest

theorem exists_of_bare_nil {l : Forest} (h : Forest.bare l = []) :
    ∃ ts : List Token, (∀ t ∈ ts, t.isTrivia = true) ∧ l = ts.map Tree.leaf := by
  induction l with
  | nil => exact ⟨[], by simp, rfl⟩
  | cons u l ih =>
      rw [Forest.bare, List.append_eq_nil_iff] at h
      obtain ⟨ts, trivia, rfl⟩ := ih h.2
      cases u with
      | leaf t =>
          have own : t.isTrivia = true := by simpa [Tree.bare] using h.1
          exact ⟨t :: ts, List.forall_mem_cons.mpr ⟨own, trivia⟩, rfl⟩
      | node k us => cases h.1

/-- A node that is alone apart from trivia. -/
theorem exists_of_bare_node {l : Forest} {k : Kind} {us : Forest} (h : Forest.bare l = [.node k us]) :
    ∃ (before after : List Token) (n : Tree), (∀ t ∈ before ++ after, t.isTrivia = true) ∧
      n.bare = [.node k us] ∧ l = before.map Tree.leaf ++ n :: after.map Tree.leaf := by
  induction l with
  | nil => cases h
  | cons u l ih =>
      rw [Forest.bare] at h
      cases u with
      | leaf t =>
          rw [Tree.bare] at h
          split at h
          case isFalse => cases h
          case isTrue trivia =>
            obtain ⟨before, after, n, each, bare, rfl⟩ := ih h
            exact ⟨t :: before, after, n, List.forall_mem_cons.mpr ⟨trivia, each⟩, bare, rfl⟩
      | node k' us' =>
          have single : (Tree.node k' us').bare = [.node k' (Forest.bare us')] := rfl
          rw [single, List.singleton_append, List.cons.injEq] at h
          obtain ⟨after, each, rfl⟩ := exists_of_bare_nil h.2
          exact ⟨[], after, .node k' us', by simpa using each, by rw [single, h.1], rfl⟩

end Forest

namespace Construct

open Parse

/-- Ranks are read with the trivia that follows them. -/
theorem ranks_settled (s : ParseState) :
    dropTrivia (ranks.readAll s).tokens = (ranks.readAll s).tokens := by
  induction left : s.left using Nat.strongRecOn generalizing s with
  | ind left ih =>
  subst left
  rw [readAll_eq, rule, Parse.ranks, atRank]
  simp only [run_bind, run_atKind, run_secondIs, run_pure]
  split
  · next rank =>
    have some : 0 < s.left := ParseState.left_pos (by
      intro ended
      simp [ended] at rank)
    rw [run_bind, run_inner]
    exact ih _ (by simp [node]; omega) _ rfl
  · exact dropTrivia_drop _

theorem type_settled (s : ParseState) :
    dropTrivia (Construct.type.readAll s).tokens = (Construct.type.readAll s).tokens := by
  have array : ∀ s : ParseState,
      dropTrivia (arrayOf.run readAll s).2.tokens = (arrayOf.run readAll s).2.tokens := by
    intro s
    simp only [arrayOf, atRank, run_bind, run_atKind, run_secondIs, run_pure]
    split
    · exact ranks_settled _
    · exact dropTrivia_drop _
  rw [readAll_eq]
  simp only [rule, Parse.type, run_group, run_bind, run_current, ParseState.closed_tokens,
    ParseState.upcoming_opened, ParseState.upcoming_trivia]
  by_cases keyword : s.upcoming.isPredefinedType
  · rw [if_pos keyword, run_bind]
    exact array _
  rw [if_neg keyword, run_bind, run_atIdentifier]
  by_cases name : s.upcoming = .identifier
  · rw [if_pos (by simp [name]), run_bind, run_bind]
    exact array _
  · rw [if_neg (by simp [name])]
    exact dropTrivia_drop _

variable {s : ParseState} {rest : List Token}

theorem type_bare_of_scan (scan : afterType? s.tokens = some rest) :
    ∃ T, Spells .whole [T] ∧ bareTokens s.tokens = T.tokens ++ bareTokens rest ∧
      (Construct.type.readAll s).bare =
        ⟨bareTokens rest, T :: Forest.bare s.level, s.errors.map Diagnostic.error⟩ := by
  have ready : Ready (32 * (s.left + 1)) s.bare := by
    refine ⟨solid_bare s, Nat.le_of_eq ?_⟩
    rw [ParseState.left, significant, List.countP_eq_length_filter]
    rfl
  have light := Construct.type.weight_lt s
  rw [← read_eq_readAll light, bare_read]
  exact (follows _ _).type (Nat.lt_succ_self _) ready (by rw [afterType?_bare, scan]; rfl)

end Construct

/-- From one state to another, a type was read that ends where some tokens are left: what follows it
is on, nothing was objected to, and one node of a type was added, with trivia around it. -/
structure ReadsType (s : ParseState) (rest : List Token) (s' : ParseState) : Prop where
  tokens : s'.tokens = dropTrivia rest
  errors : s'.errors = s.errors
  level : ∃ (n : Tree) (before after : List Token), (n.isNode && n.kind.isType) = true ∧
    (∀ t ∈ before ++ after, t.isTrivia = true) ∧
    s'.level = after.map Tree.leaf ++ n :: (before.map Tree.leaf ++ s.level)

/-- A type is read up to where its scan ends. -/
theorem Construct.readsType_of_scan {s : ParseState} {rest : List Token}
    (scan : afterType? s.tokens = some rest) : ReadsType s rest (Construct.type.readAll s) := by
  obtain ⟨T, whole, -, state⟩ := Construct.type_bare_of_scan scan
  obtain ⟨tokens, level, errors⟩ := BareState.mk.inj state
  have runs := Parse.runs_inner .type s
  refine ⟨?_, ?_, ?_⟩
  · rw [← Construct.type_settled s]
    exact dropTrivia_eq_of_bare runs.tokens_suffix (afterType?_suffix scan) tokens
  · -- The objections are known without their places, but a run does no more than add to them.
    have same := congrArg List.length errors
    rw [List.length_map, List.length_map] at same
    exact (runs.errors_suffix.eq_of_length same.symm).symm
  · obtain ⟨k, us, node⟩ := whole.isNode (by simp)
    obtain ⟨inner, grown⟩ : ∃ inner, (Construct.type.readAll s).level = inner ++ s.trivia.level := by
      rw [Construct.readAll_eq]
      exact ⟨_, rfl⟩
    have outside : Forest.bare s.trivia.level = Forest.bare s.level :=
      congrArg BareState.level s.bare_trivia
    rw [grown, Forest.bare_append, outside] at level
    have alone : Forest.bare inner = [T] := List.append_cancel_right level
    rw [node] at alone
    obtain ⟨after, between, n, trivia, bare, rfl⟩ := Forest.exists_of_bare_node alone
    let lead := (s.tokens.takeWhile (·.kind.isTrivia)).reverse
    have moved : s.trivia.level = lead.map Tree.leaf ++ s.level := by
      rw [List.map_reverse]
      rfl
    have white : ∀ t ∈ lead, t.isTrivia = true := fun t member =>
      List.all_eq_true.mp List.all_takeWhile t (List.mem_reverse.mp member)
    refine ⟨n, between ++ lead, after, ?_, ?_, by simp [grown, moved]⟩
    · have type := whole.isType (by simp) T List.mem_cons_self
      rw [List.singleton_inj.mp node] at type
      cases n with
      | leaf t =>
          rw [Tree.bare] at bare
          split at bare <;> cases bare
      | node k' us' =>
          cases bare
          exact type
    · intro t member
      simp only [List.mem_append] at member trivia
      rcases member with (inside | front) | back
      · exact trivia t (.inr inside)
      · exact white t front
      · exact trivia t (.inl back)

end SharpRefactor
