import SharpRefactor.Proofs.Refactor.Faithful
import SharpRefactor.Proofs.Syntax.Extents

/-!
What it costs to look for offers. Only the built-in rule asks the resolver, and only at a name that
is read as a value, in handwritten code of a project, for a bare caret: there it asks for one type,
and for the signature of that type if there is one. Nothing is spelled before an offer is taken up.
The first offer is the first of all offers, and it takes a part of their questions at most.
-/

namespace SharpRefactor

def Rule.Silent (r : Rule) : Prop :=
  ∀ c h selection, (r.probe c h selection).questions = []

namespace MethodGroup

/-- Where the built-in rule looks further: at a caret in handwritten code of a project, on a name
that is read as a value. -/
structure Admits (c : Context) (selection : TextRange) (n : Node) : Prop where
  caret : selection.start = selection.stop
  project : c.workspace = .project
  handwritten : c.isGenerated = false
  name : n.kind = .identifierName
  outside : ∀ g, n.grandparent? = some g →
    g.kind ≠ .eventDeclaration ∧ g.kind ≠ .eventFieldDeclaration
  expression : n.isTypeSyntax = false
  source : n.isAssignmentTarget = false

variable {c : Context} {h : Handle} {selection : TextRange}

theorem isCandidate_iff {n : Node} : isCandidate c n selection ↔ Admits c selection n := by
  have outside : n.isInEvent = false ↔ ∀ g, n.grandparent? = some g →
      g.kind ≠ .eventDeclaration ∧ g.kind ≠ .eventFieldDeclaration := by
    rw [Node.isInEvent]
    cases n.grandparent? <;> simp
  simp only [isCandidate, isValueRead, TextRange.isEmpty, Bool.and_eq_true, beq_iff_eq,
    decide_eq_true_eq, Bool.not_eq_true']
  constructor
  · rintro ⟨⟨⟨caret, project⟩, handwritten⟩, ⟨⟨name, event⟩, expression⟩, source⟩
    exact ⟨caret, project, handwritten, name, outside.mp event, expression, source⟩
  · intro admits
    exact ⟨⟨⟨admits.caret, admits.project⟩, admits.handwritten⟩,
      ⟨⟨admits.name, outside.mpr admits.outside⟩, admits.expression⟩, admits.source⟩

/-- To examine a target takes a question for its type, and one for the signature of that type. -/
theorem questions_examine (r : Resolver) (target : Handle) :
    (examine r target).questions =
      .typeOf target :: (r.typeOf target).toList.map .signatureOf := by
  rw [examine, Asking.questions_bind]
  simp only [Resolver.askType]
  cases r.typeOf target <;> rfl

theorem questions_probe (running : c.cancelled = false) :
    (probe c h selection).questions =
      if isCandidate c h.node selection then
        .typeOf (wholeExpression h) :: (c.resolver.typeOf (wholeExpression h)).toList.map .signatureOf
      else [] := by
  rw [probe]
  cases isCandidate c h.node selection with
  | false => rfl
  | true =>
      simp only [running, Bool.not_false, Bool.and_self, if_true]
      exact questions_examine c.resolver (wholeExpression h)

/-- Nothing is spelled while the rule is probed. -/
theorem isDisplay_probe (running : c.cancelled = false) :
    ∀ q ∈ (probe c h selection).questions, q.isDisplay = false := by
  rw [questions_probe running]
  split
  · simp [Question.isDisplay]
  · simp

/-- The expression that a name ends reaches as far as the name. -/
theorem wholeExpression_covers {t : SyntaxTree} (inside : h.node ∈ t.rootNode.descendants) :
    (wholeExpression h).node.start ≤ h.node.start ∧ h.node.stop ≤ (wholeExpression h).node.stop := by
  change (h.node.memberAccess?.getD h.node).start ≤ _ ∧ _ ≤ (h.node.memberAccess?.getD h.node).stop
  cases access : h.node.memberAccess? with
  | none => exact ⟨Nat.le_refl _, Nat.le_refl _⟩
  | some outer => exact Node.extent_of_parent? inside (Option.filter_eq_some_iff.mp access).1

end MethodGroup

namespace RuleSet

variable {s : RuleSet} {t : SyntaxTree} {selection : TextRange} {c : Context} {h : Handle}

/-! ### The questions of several rules -/

theorem questions_probe (r : Rule) :
    (s.probe c h selection r).questions = (r.probe c h selection).questions := by
  rw [probe, Asking.questions_bind, Asking.questions_pure, List.append_nil]

theorem questions_allOffers (ask : Rule → Asking (Option Offer)) (rs : List Rule) :
    (allOffers ask rs).questions = rs.flatMap fun r => (ask r).questions := by
  induction rs with
  | nil => rfl
  | cons r rs ih =>
      simp only [allOffers, Asking.questions_bind, Asking.questions_pure, List.append_nil, ih,
        List.flatMap_cons]

theorem questions_available (found : nodeAt? t selection c = some h) :
    (s.available t selection c).questions =
      s.rules.flatMap fun r => (r.probe c h selection).questions := by
  simp only [available, found, questions_allOffers, questions_probe]

/-- The search for the first offer stops somewhere on the way through all of them. -/
theorem questions_firstOffer (ask : Rule → Asking (Option Offer)) (rs : List Rule) :
    (firstOffer ask rs).questions <+: (allOffers ask rs).questions := by
  induction rs with
  | nil => exact List.prefix_rfl
  | cons r rs ih =>
      simp only [firstOffer, allOffers, Asking.questions_bind]
      refine (List.prefix_append_right_inj _).mpr ?_
      cases (ask r).result with
      | some o => exact List.nil_prefix
      | none => exact ih.trans (List.prefix_append _ _)

theorem questions_first? (s : RuleSet) (t : SyntaxTree) (selection : TextRange) (c : Context) :
    (s.first? t selection c).questions <+: (s.available t selection c).questions := by
  unfold first? available
  split
  · exact List.prefix_rfl
  · exact questions_firstOffer _ _

/-! ### The node at the caret -/

theorem cancelled_of_nodeAt? (found : nodeAt? t selection c = some h) : c.cancelled = false := by
  cases cancelled : c.cancelled with
  | false => rfl
  | true => simp [nodeAt?, cancelled] at found

theorem nodeAt?_eq_none (stopped : c.cancelled = true ∨ t.root.size < selection.start) :
    nodeAt? t selection c = none := by
  refine Option.eq_none_iff_forall_ne_some.mpr fun h found => ?_
  rcases stopped with cancelled | beyond
  · rw [cancelled_of_nodeAt? found] at cancelled
    cases cancelled
  · have within := (SyntaxTree.nodeAt_eq_ok.mp (nodeAt_of_nodeAt? found).2).1
    omega

/-- The node at a caret reaches around it; at the end of the text that is the root. -/
theorem nodeAt?_around (found : nodeAt? t selection c = some h) :
    h.node.start ≤ selection.start ∧ selection.start ≤ h.node.stop := by
  rcases nodeAt?_contains found with root | holds
  · have within := (SyntaxTree.nodeAt_eq_ok.mp (nodeAt_of_nodeAt? found).2).1
    rw [root, Node.stop_eq]
    exact ⟨Nat.zero_le _, Nat.le_trans within (Nat.le_add_left _ _)⟩
  · simp only [TextRange.contains, Bool.and_eq_true, decide_eq_true_eq] at holds
    exact ⟨holds.1, Nat.le_of_lt holds.2⟩

/-- The target of the built-in rule reaches around the caret too. -/
theorem wholeExpression_around (found : nodeAt? t selection c = some h) :
    (MethodGroup.wholeExpression h).range.start ≤ selection.start ∧
      selection.start ≤ (MethodGroup.wholeExpression h).range.stop := by
  obtain ⟨start, stop⟩ := nodeAt?_around found
  have covers : (MethodGroup.wholeExpression h).node.start ≤ h.node.start ∧
      h.node.stop ≤ (MethodGroup.wholeExpression h).node.stop := by
    cases isNode : t.root.isNode with
    | true => exact MethodGroup.wholeExpression_covers (nodeAt?_eq_some isNode found).2
    | false =>
        -- a tree that is a token has no node but itself
        have alone : h.node = t.rootNode := by
          obtain ⟨-, walked⟩ := SyntaxTree.nodeAt_eq_ok.mp (nodeAt_of_nodeAt? found).2
          obtain ⟨root, origin⟩ := t
          cases root with
          | leaf token => exact walked.symm
          | node k ts => cases isNode
        have whole : (MethodGroup.wholeExpression h).node = h.node := by
          rw [MethodGroup.wholeExpression, alone]
          rfl
        rw [whole]
        exact ⟨Nat.le_refl _, Nat.le_refl _⟩
  exact ⟨Nat.le_trans covers.1 start, Nat.le_trans stop covers.2⟩

/-- The built-in rule among rules that ask nothing. The first offer is the first of all; a cancelled
request and a caret beyond the text have none and cost nothing. What is asked is asked by the
built-in rule: at an admitted name for the type of the expression that the name ends, once, and for
the signature of a type that is found. No spelling is asked for, and the targets of the rule reach
around the caret. -/
theorem probing_bounded (quiet : ∀ r ∈ s.rules, r = MethodGroup.rule ∨ r.Silent) :
    let first := s.first? t selection c
    let all := s.available t selection c
    first.result = all.result.head? ∧
    (c.cancelled = true ∨ t.root.size < selection.start →
      (first.result = none ∧ first.questions = []) ∧ all.result = [] ∧ all.questions = []) ∧
    (∀ h, nodeAt? t selection c = some h →
      (first.questions <+: all.questions ∧
        all.questions = s.rules.flatMap fun r => (r.probe c h selection).questions) ∧
      ((MethodGroup.rule.probe c h selection).questions ≠ [] →
        MethodGroup.Admits c selection h.node) ∧
      (MethodGroup.Admits c selection h.node →
        let target : Handle := ⟨t, h.node.memberAccess?.getD h.node⟩
        (MethodGroup.rule.probe c h selection).questions =
          .typeOf target :: (c.resolver.typeOf target).toList.map .signatureOf)) ∧
    (∀ q ∈ first.questions ++ all.questions, q.isDisplay = false) ∧
    ∀ o ∈ all.result, o.rule = MethodGroup.rule →
      o.range.start ≤ selection.start ∧ selection.start ≤ o.range.stop := by
  intro first all
  refine ⟨first?_eq_head? s t selection c, fun stopped => ?_, fun h found => ?_, ?_, ?_⟩
  · simp [first, all, first?, available, nodeAt?_eq_none stopped]
  · have asked := @MethodGroup.questions_probe c h selection (cancelled_of_nodeAt? found)
    refine ⟨⟨questions_first? s t selection c, questions_available found⟩, fun some => ?_,
      fun admits => ?_⟩
    · by_contra not
      rw [← MethodGroup.isCandidate_iff] at not
      rw [if_neg not] at asked
      exact some asked
    · rw [if_pos (MethodGroup.isCandidate_iff.mpr admits)] at asked
      rw [← (nodeAt_of_nodeAt? found).1]
      exact asked
  · have spelled : ∀ q ∈ all.questions, q.isDisplay = false := by
      cases found : nodeAt? t selection c with
      | none => simp [all, available, found]
      | some h =>
          intro q asked
          rw [questions_available found] at asked
          obtain ⟨r, member, asked⟩ := List.mem_flatMap.mp asked
          rcases quiet r member with rfl | silent
          · exact MethodGroup.isDisplay_probe (cancelled_of_nodeAt? found) q asked
          · rw [silent] at asked
            cases asked
    intro q asked
    rcases List.mem_append.mp asked with asked | asked
    · exact spelled q ((questions_first? s t selection c).subset asked)
    · exact spelled q asked
  · intro o offered own
    obtain ⟨h, found, -, matched⟩ := mem_available offered
    rw [own] at matched
    rw [Offer.range, MethodGroup.probe_eq_some matched]
    exact wholeExpression_around found

/-- A rule that never applies takes nothing from the one behind it. -/
theorem probing_bounded_idle :
    let text := "class C\x7bdelegate void D();void F()\x7b\x7dD d=F;\x7d"
    let root := (parse text).root
    let tree : SyntaxTree := ⟨root, .parsed 0 root⟩
    let c : Context := ⟨.ofTree tree, false, .project, false⟩
    let idle : Rule :=
      ⟨"idle", "Idle", .refactor, fun _ _ _ => pure none, fun _ _ => pure (.error (.invalidType ""))⟩
    let s : RuleSet := ⟨[idle, MethodGroup.rule], .empty⟩
    (∀ r ∈ s.rules, r = MethodGroup.rule ∨ r.Silent) ∧
      (s.first? tree (.empty 40) c).result = (s.available tree (.empty 40) c).result.head? ∧
      (s.available tree (.empty 40) c).questions.map Question.isTypeOf = [true, false] ∧
      (s.available tree (.empty 40) c).result.length = 1 ∧
      ∀ o ∈ (s.available tree (.empty 40) c).result, o.rule = MethodGroup.rule →
        o.range.start ≤ 40 ∧ 40 ≤ o.range.stop := by
  intro text root tree c idle s
  have quiet : ∀ r ∈ s.rules, r = MethodGroup.rule ∨ r.Silent := by
    intro r member
    obtain rfl | member := List.mem_cons.mp member
    · exact .inr fun _ _ _ => rfl
    · exact .inl (List.mem_singleton.mp member)
  obtain ⟨first, -, -, -, around⟩ := @probing_bounded s tree (.empty 40) c quiet
  exact ⟨quiet, first, by decide +kernel, by decide +kernel, around⟩

end RuleSet
end SharpRefactor
