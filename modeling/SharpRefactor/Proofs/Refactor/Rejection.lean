import SharpRefactor.Proofs.Refactor.Faithful

/-!
Versions and the nodes of others. A node is found again in each version of its identity, and every
other version turns it down, by itself and as the target of an edit or of an offer.
-/

namespace SharpRefactor

open Identity

/-- A version turns down a node, in whatever form the node is brought forward. -/
structure Handle.RejectedBy (h : Handle) (t : SyntaxTree) : Prop where
  resolve : h.resolve t = .error (.nodeNotFound h.range)
  replace : ∀ serial graft, t.replace serial h graft = .error (.nodeNotFound h.range)
  apply : ∀ serial graft,
    (Edit.mk h graft).apply serial t = .error (.inconsistent (.nodeNotFound h.range))
  commit : ∀ (o : Offer) (c : Context) (format : Formatter) (serial : Nat) (new : Replacement),
    o.found.target = h → (o.rule.build c o.found).result = .ok new →
    (o.commit t c format serial).result = .error (.inconsistent (.nodeNotFound h.range))
  typeOf : (Resolver.ofTree t).typeOf h = none

namespace Handle

variable {h : Handle} {t : SyntaxTree}

theorem rejectedBy_of_ne (other : h.home.identity ≠ t.identity) : h.RejectedBy t := by
  have resolve : h.resolve t = .error (.nodeNotFound h.range) := if_pos other
  have contains : t.contains h = false := by simpa [SyntaxTree.contains] using other
  have apply (serial : Nat) (graft : SyntaxTree) :
      (Edit.mk h graft).apply serial t = .error (.inconsistent (.nodeNotFound h.range)) := by
    simp [Edit.apply, resolve]
  refine ⟨resolve, fun serial graft => ?_, apply, fun o c format serial new target built => ?_, ?_⟩
  · simp [SyntaxTree.replace, contains, range]
  · rw [Offer.commit_of_build built, target, apply]
    rfl
  · simp [Resolver.ofTree, contains]

/-- A node is found again in each sound version of its identity. -/
theorem resolve_of_eq {w : Reading} {n : Nat} {trees : List SyntaxTree}
    (taken : h.TakenFrom trees) (home : h.home.Sound w n) (sound : t.Sound w n)
    (same : h.home.identity = t.identity) : h.resolve t = .ok h.node := by
  have led : t.rootNode.follow? h.node.path = some h.node := by
    have own := (Node.mem_descendants_root.mp taken.inside).2
    rwa [home.root_eq sound same] at own
  rw [resolve, if_neg (fun other => other same), led]

end Handle

namespace Edit

/-- What comes of an edit of a sound version. -/
theorem apply_eq_ok {w : Reading} {n serial : Nat} {trees : List SyntaxTree} {e : Edit}
    {t edited : SyntaxTree} (taken : e.target.TakenFrom trees) (home : e.target.home.Sound w n)
    (sound : t.Sound w n) (applied : e.apply serial t = .ok edited) :
    e.target.home.identity = t.identity ∧
      edited = ⟨e.replacement.root.splice e.target.node.path t.root,
        .spliced serial t.origin e.target.node.path e.replacement.origin⟩ := by
  by_cases same : e.target.home.identity = t.identity
  · have resolved := Handle.resolve_of_eq taken home sound same
    simp only [apply, resolved, SyntaxTree.replace_own, Except.ok.injEq] at applied
    exact ⟨same, applied.symm⟩
  · have rejected := (Handle.rejectedBy_of_ne same).apply serial e.replacement
    rw [rejected] at applied
    cases applied

/-- Whether an edit replaces the root of a version by a root with the identity of that version. -/
def KeepsRoot (e : Edit) (t : SyntaxTree) : Prop :=
  e.target.node.path = [] ∧ e.replacement.identity = t.identity

end Edit

end SharpRefactor
