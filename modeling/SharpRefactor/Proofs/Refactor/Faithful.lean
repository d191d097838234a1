import Mathlib.Data.List.Forall2
import SharpRefactor.Proofs.Refactor.Edits
import SharpRefactor.Proofs.Refactor.TypeNames
import SharpRefactor.Proofs.Syntax.Identity

/-!
What a set of rules relies on. A faithful rule matches nodes of the version it looks at, and what
its replacements share with that version is the target. The built-in rule is faithful, and so is
every offer made by faithful rules.
-/

namespace SharpRefactor

structure Rule.Faithful (r : Rule) : Prop where
  target : ∀ {c : Context} {h : Handle} {selection : TextRange} {m : Match},
    h.node ∈ h.home.rootNode.descendants → (r.probe c h selection).result = some m →
    m.target.home = h.home ∧ m.target.node ∈ h.home.rootNode.descendants
  isNode : ∀ {c : Context} {m : Match} {new : Replacement},
    (r.build c m).result = .ok new → new.tree.isNode
  reused : ∀ {c : Context} {m : Match} {new : Replacement} {path : List Nat},
    (r.build c m).result = .ok new → new.reused = some path →
    new.tree.get? path = some m.target.node.tree

namespace AnonymousMethod

variable {r : Resolver} {offset : Nat} {p : Parameter} {ps : List Parameter} {trees : Forest}

theorem parameter_eq_ok_iff {spelled : Except Surrounded String} {tree : Tree} :
    parameter p spelled = .ok tree ↔ ∃ text type, spelled = .ok text ∧
      parseTypeName text = .ok type ∧ tree = Factory.parameter type p.name := by
  cases spelled with
  | error e => simp [parameter]
  | ok text =>
      cases read : parseTypeName text with
      | ok type => simp [parameter, read, eq_comm]
      | error e => cases e <;> simp [parameter, read]

theorem parameters_cons : (parameters r offset (p :: ps)).result =
    (do
      let tree ← parameter p (r.display p.type offset)
      let others ← (parameters r offset ps).result
      return tree :: others) := by
  simp only [parameters, Asking.result_bind, Resolver.askDisplay]
  cases parameter p (r.display p.type offset) with
  | error e => rfl
  | ok tree =>
      simp only [Asking.result_bind]
      cases (parameters r offset ps).result <;> rfl

theorem parameters_eq_ok_iff : (parameters r offset ps).result = .ok trees ↔
    List.Forall₂ (fun p tree => parameter p (r.display p.type offset) = .ok tree) ps trees := by
  induction ps generalizing trees with
  | nil => simp [parameters, eq_comm]
  | cons p ps ih =>
      rw [parameters_cons, List.forall₂_cons_left_iff]
      simp only [← ih]
      cases parameter p (r.display p.type offset) with
      | error e => simp [bind, Except.bind]
      | ok tree =>
          cases (parameters r offset ps).result with
          | error e => simp [bind, Except.bind]
          | ok others => simp [bind, Except.bind, pure, Except.pure, eq_comm]

theorem parameters_length (written : (parameters r offset ps).result = .ok trees) :
    trees.length = ps.length :=
  (parameters_eq_ok_iff.mp written).length_eq.symm

theorem build_eq_ok {s : Signature} {target : Handle} {r : Resolver} {new : Replacement} :
    (build s target r).result = .ok new ↔
      ∃ trees, (parameters r target.range.start s.parameters).result = .ok trees ∧
        new = ⟨assemble s target.node.tree trees, some (targetPath s)⟩ := by
  simp only [build, Asking.result_bind]
  cases (parameters r target.range.start s.parameters).result with
  | error e => simp
  | ok trees => simp [eq_comm]

theorem build_eq_error {s : Signature} {target : Handle} {r : Resolver} {e : RefactorError} :
    (build s target r).result = .error e ↔
      (parameters r target.range.start s.parameters).result = .error e := by
  simp only [build, Asking.result_bind]
  cases (parameters r target.range.start s.parameters).result <;> simp

theorem assemble_isNode (s : Signature) (target : Tree) (trees : Forest) :
    (assemble s target trees).isNode := rfl

theorem isEmpty_of_length {s : Signature} {trees : Forest}
    (written : trees.length = s.parameters.length) : trees.isEmpty = s.parameters.isEmpty := by
  rw [Bool.eq_iff_iff, List.isEmpty_iff_length_eq_zero, List.isEmpty_iff_length_eq_zero, written]

/-- The target lives on in the anonymous method that calls it. -/
theorem get?_targetPath {s : Signature} {target : Tree} {trees : Forest}
    (written : trees.length = s.parameters.length) :
    (assemble s target trees).get? (targetPath s) = some target := by
  unfold assemble targetPath parameterList? statement
  rw [isEmpty_of_length written]
  cases s.parameters.isEmpty <;> cases s.returnsVoid <;> rfl

end AnonymousMethod

namespace MethodGroup

theorem probe_eq_some {c : Context} {h : Handle} {selection : TextRange} {m : Match}
    (found : (probe c h selection).result = some m) : m.target = wholeExpression h := by
  unfold probe at found
  split at found
  · simp only [examine, Asking.result_bind] at found
    cases typed : (c.resolver.askType (wholeExpression h)).result with
    | none => simp [typed] at found
    | some type =>
        simp only [typed, Asking.result_bind, Asking.result_pure, Option.map_eq_some_iff] at found
        obtain ⟨signature, -, rfl⟩ := found
        rfl
  · cases found

theorem wholeExpression_mem {h : Handle} (inside : h.node ∈ h.home.rootNode.descendants) :
    (wholeExpression h).node ∈ h.home.rootNode.descendants := by
  change h.node.memberAccess?.getD h.node ∈ _
  cases access : h.node.memberAccess? with
  | none => exact inside
  | some outer => exact Node.mem_descendants_of_parent? inside (Option.filter_eq_some_iff.mp access).1

theorem rule_faithful : rule.Faithful where
  target {c h selection m} inside found := by
    rw [probe_eq_some found]
    exact ⟨rfl, wholeExpression_mem inside⟩
  isNode built := by
    obtain ⟨trees, -, rfl⟩ := AnonymousMethod.build_eq_ok.mp built
    exact AnonymousMethod.assemble_isNode ..
  reused built reused := by
    obtain ⟨trees, written, rfl⟩ := AnonymousMethod.build_eq_ok.mp built
    cases reused
    exact AnonymousMethod.get?_targetPath (AnonymousMethod.parameters_length written)

end MethodGroup

namespace RuleSet

theorem builtin_faithful : ∀ r ∈ builtin.rules, r.Faithful := by
  intro r member
  obtain rfl := List.mem_singleton.mp member
  exact MethodGroup.rule_faithful

theorem nodeAt_of_nodeAt? {t : SyntaxTree} {selection : TextRange} {c : Context} {h : Handle}
    (found : nodeAt? t selection c = some h) :
    h.home = t ∧ t.nodeAt selection.start = .ok h.node := by
  unfold nodeAt? at found
  split at found
  · cases found
  · obtain ⟨n, at_, rfl⟩ := Option.map_eq_some_iff.mp found
    cases led : t.nodeAt selection.start with
    | error e =>
        rw [led] at at_
        cases at_
    | ok m =>
        rw [led] at at_
        exact ⟨rfl, congrArg Except.ok (Option.some.inj at_)⟩

/-- The node at a selection is the root, or it holds the byte at the start of the selection. -/
theorem nodeAt?_contains {t : SyntaxTree} {selection : TextRange} {c : Context} {h : Handle}
    (found : nodeAt? t selection c = some h) :
    h.node = t.rootNode ∨ h.node.range.contains selection.start := by
  obtain ⟨-, walked⟩ := SyntaxTree.nodeAt_eq_ok.mp (nodeAt_of_nodeAt? found).2
  exact walked ▸ t.rootNode.atOffset_contains selection.start

/-- The node at a selection is one of the version. -/
theorem nodeAt?_eq_some {t : SyntaxTree} {selection : TextRange} {c : Context} {h : Handle}
    (isNode : t.root.isNode) (found : nodeAt? t selection c = some h) :
    h.home = t ∧ h.node ∈ t.rootNode.descendants :=
  (nodeAt_of_nodeAt? found).imp id (SyntaxTree.mem_descendants_of_nodeAt isNode)

/-- An offer is what one of the rules has found at the selection. -/
theorem mem_available {s : RuleSet} {t : SyntaxTree} {selection : TextRange} {c : Context}
    {o : Offer} (offered : o ∈ (s.available t selection c).result) :
    ∃ h, nodeAt? t selection c = some h ∧ o.rule ∈ s.rules ∧
      (o.rule.probe c h selection).result = some o.found := by
  unfold available at offered
  split at offered
  · cases offered
  · next h found =>
      refine ⟨h, found, ?_⟩
      revert offered
      generalize s.rules = rules
      induction rules with
      | nil =>
          intro offered
          cases offered
      | cons r rs ih =>
          intro offered
          simp only [allOffers, probe, Asking.result_bind, Asking.result_pure, List.mem_append,
            Option.mem_toList, Option.map_eq_some_iff] at offered
          rcases offered with ⟨m, matched, rfl⟩ | later
          · exact ⟨List.mem_cons_self, matched⟩
          · exact (ih later).imp_left (List.mem_cons_of_mem r)

/-- The first refactoring is the first of all. -/
theorem first?_eq_head? (s : RuleSet) (t : SyntaxTree) (selection : TextRange) (c : Context) :
    (s.first? t selection c).result = (s.available t selection c).result.head? := by
  unfold first? available
  split
  · rfl
  · next h _ =>
      generalize s.rules = rules
      induction rules with
      | nil => rfl
      | cons r rs ih =>
          simp only [firstOffer, allOffers, Asking.result_bind, Asking.result_pure]
          cases (s.probe c h selection r).result with
          | none => exact ih
          | some o => rfl

end RuleSet

namespace Offer

/-- The target of an offer by faithful rules is a node of the version that was looked at. -/
theorem target_of_available {s : RuleSet} (faithful : ∀ r ∈ s.rules, r.Faithful) {t : SyntaxTree}
    (isNode : t.root.isNode) {selection : TextRange} {c : Context} {o : Offer}
    (offered : o ∈ (s.available t selection c).result) :
    o.rule.Faithful ∧ o.found.target.home = t ∧
      o.found.target.node ∈ t.rootNode.descendants := by
  obtain ⟨h, found, member, matched⟩ := RuleSet.mem_available offered
  obtain ⟨rfl, inside⟩ := RuleSet.nodeAt?_eq_some isNode found
  exact ⟨faithful _ member, (faithful _ member).target inside matched⟩

theorem realize_eq_ok {o : Offer} {c : Context} {n : Nat} {e : Edit} :
    (o.realize c n).result = .ok e ↔ ∃ new, (o.rule.build c o.found).result = .ok new ∧
      e = ⟨o.found.target, new.tree, originOf n o.found.target new⟩ := by
  simp only [realize, Asking.result_bind]
  cases (o.rule.build c o.found).result with
  | error e => simp
  | ok new => simp [eq_comm]

/-- An offer is carried out by making the edit that it is realized as. -/
theorem commit_eq_ok {o : Offer} {t : SyntaxTree} {c : Context} {format : Formatter} {n : Nat}
    {done : Committed} (h : (o.commit t c format n).result = .ok done) :
    (o.realize c n).result = .ok done.edit ∧
      ∃ edited, done.edit.apply (n + 1) t = .ok edited ∧ done.tree = format edited done.annotation := by
  simp only [commit, Asking.result_bind] at h
  cases realized : (o.realize c n).result with
  | error e => simp [realized] at h
  | ok edit =>
      simp only [realized] at h
      cases applied : edit.apply (n + 1) t with
      | error e => simp [applied] at h
      | ok edited =>
          simp only [applied, Asking.result_pure, Except.ok.injEq] at h
          subst h
          exact ⟨rfl, edited, applied, rfl⟩

open Identity in
/-- A realized replacement is sound where its target is. -/
theorem realize_sound {o : Offer} (faithful : o.rule.Faithful) {trees : List SyntaxTree}
    (taken : o.found.target.TakenFrom trees) {w : Reading} {n : Nat}
    (sound : o.found.target.home.Sound w n) {c : Context} {e : Edit}
    (realized : (o.realize c n).result = .ok e) :
    e.target = o.found.target ∧
      e.replacement.Sound (w.continued n e.replacement.root) (n + 1) := by
  obtain ⟨new, built, rfl⟩ := realize_eq_ok.mp realized
  refine ⟨rfl, ?_⟩
  have isNode := faithful.isNode built
  cases reused : new.reused with
  | none =>
      have origin : originOf n o.found.target new = .built n new.tree := by simp [originOf, reused]
      rw [origin]
      exact SyntaxTree.sound_built w n isNode
  | some path =>
      have origin : originOf n o.found.target new =
          .spliced n (.built n new.tree) path o.found.target.subtree.origin := by
        simp [originOf, reused]
      exact SyntaxTree.sound_spliced isNode origin (taken.subtree_sound sound)
        (faithful.reused built reused) fun _ _ found _ _ => .inl (givenTo_built found)

end Offer
end SharpRefactor
