import SharpRefactor.Proofs.Refactor.Consistency

/-!
Histories of a session. Versions are read, held twice, edited and committed in any order, and nodes,
offers and edits of any of them may be used on any other. Every reachable session is consistent: there
is one reading of identities under which all its versions are sound. So a node is found again in a
version of its identity and nowhere else; every other version rejects it.
-/

namespace SharpRefactor

open Identity

namespace Session

variable {w : Reading} {s s' : Session}

theorem perform_continues (h : Consistent w s) (a : Action) : Continues s (s.perform a) := by
  unfold perform
  cases ran : a.step.run s with
  | error e => exact .refl h
  | ok r => exact step_continues h ran

theorem after_continues (h : Consistent w s) (actions : List Action) :
    Continues s (s.after actions) := by
  induction actions generalizing s w with
  | nil => exact .refl h
  | cons a actions ih =>
      obtain ⟨kept, w', h'⟩ := perform_continues h a
      obtain ⟨keeps, later⟩ := ih h'
      exact ⟨kept.trans keeps, later⟩

theorem start_consistent {rules : RuleSet} (faithful : ∀ r ∈ rules.rules, r.Faithful)
    (text : String) : ∃ w, Consistent w (start rules text) := by
  refine ⟨Reading.continued (fun _ => none) 0 (parse text).root, faithful, fun t member => ?_,
    ?_, ?_, ?_⟩
  · obtain rfl := List.mem_singleton.mp member
    exact SyntaxTree.sound_parsed (fun _ => none) 0 rfl
  all_goals exact fun _ none => nomatch none

/-- An edit in a consistent session makes a version of which no node was known before, unless it
puts a whole version in the place of another one. -/
theorem rejectedBy_of_apply (h : Consistent w s) {d : Edit} (taken : d.target.TakenFrom s.trees)
    {t edited : SyntaxTree} (member : t ∈ s.trees) {serial : Nat} (new : s.serial ≤ serial)
    (applied : d.apply serial t = .ok edited) :
    d.KeepsRoot t ∨ ∀ g : Handle, g.home.identity = t.identity → g.RejectedBy edited := by
  have old := h.trees t member
  obtain ⟨-, rfl⟩ := Edit.apply_eq_ok taken (h.trees _ taken.home) old applied
  by_cases kept : d.KeepsRoot t
  · exact .inl kept
  refine .inr fun g home => Handle.rejectedBy_of_ne fun same => ?_
  rw [home] at same
  cases root : d.target.node.path with
  | nil =>
      rw [root] at same
      exact kept ⟨root, same.symm⟩
  | cons i path =>
      have made : t.identity = .made serial [] := by
        rw [same, root]
        rfl
      have known := old.serial_lt
      rw [made] at known
      exact absurd new (Nat.not_le_of_lt known)

/-- A version accepts the nodes of its own identity, as they were, and rejects those of all
others. -/
structure VersionSafe (s : Session) : Prop where
  handles : ∀ h ∈ s.handles, h.TakenFrom s.trees
  offers : ∀ o ∈ s.offers, o.found.target.TakenFrom s.trees
  edits : ∀ e ∈ s.edits, e.target.TakenFrom s.trees
  found : ∀ h : Handle, h.TakenFrom s.trees → ∀ t ∈ s.trees, h.home.identity = t.identity →
    h.resolve t = .ok h.node
  rejected : ∀ h : Handle, h.TakenFrom s.trees → ∀ t ∈ s.trees, h.home.identity ≠ t.identity →
    h.RejectedBy t
  kept : ∀ a : Action, s.trees <+: (s.perform a).trees
  applied : ∀ d : Edit, d.target.TakenFrom s.trees → ∀ t ∈ s.trees, ∀ serial edited,
    s.serial ≤ serial → d.apply serial t = .ok edited →
    d.KeepsRoot t ∨ ∀ g : Handle, g.home.identity = t.identity → g.RejectedBy edited
  committed : ∀ o ∈ s.offers, ∀ t ∈ s.trees, ∀ c serial done, s.serial ≤ serial →
    (o.commit t c .none serial).result = .ok done →
    done.edit.KeepsRoot t ∨ ∀ g : Handle, g.home.identity = t.identity → g.RejectedBy done.tree

/-- Histories of every kind are safe. -/
theorem after_versionSafe (rules : RuleSet) (faithful : ∀ r ∈ rules.rules, r.Faithful)
    (text : String) (actions : List Action) : ((start rules text).after actions).VersionSafe := by
  obtain ⟨w₀, first⟩ := start_consistent faithful text
  obtain ⟨-, w, h⟩ := after_continues first actions
  exact {
    handles := h.handles
    offers := fun o member => (h.offers o member).2
    edits := fun e member => (h.edits e member).1
    found := fun g taken t member =>
      Handle.resolve_of_eq taken (h.trees _ taken.home) (h.trees t member)
    rejected := fun g _ t _ => Handle.rejectedBy_of_ne
    kept := fun a => (perform_continues h a).1
    applied := fun d taken t member serial edited => rejectedBy_of_apply h taken member
    committed := by
      intro o held t member c serial done new committed
      obtain ⟨realized, edited, applied, tree⟩ := Offer.commit_eq_ok committed
      obtain ⟨faithful, taken⟩ := h.offers o held
      have home := (h.trees _ taken.home).mono new
      obtain ⟨target, -⟩ := Offer.realize_sound faithful taken home realized
      obtain rfl : done.tree = edited := tree
      exact rejectedBy_of_apply h (target ▸ taken) member (Nat.le_succ_of_le new) applied }

/-- Two edits computed on one version: once the first is made, neither can be used on the result. -/
theorem after_versionSafe_two_edits :
    let own : ContextRef := ⟨⟨"resolver", 0⟩, .project, false⟩
    let s := (start .builtin "class C\x7bdelegate void D();void F()\x7b\x7dD d=F,e=F;\x7d").after
      [.first own ⟨"tree", 0⟩ (.empty 40), .first own ⟨"tree", 0⟩ (.empty 44), .realize own 0,
        .realize own 1, .apply 0 ⟨"tree", 0⟩]
    (∀ r ∈ RuleSet.builtin.rules, r.Faithful) ∧ s.edits.length = 2 ∧ s.trees.length = 2 ∧
      ∀ e ∈ s.edits, ∀ t ∈ s.trees.drop 1, e.target.RejectedBy t := by
  intro own s
  have made : s.edits.length = 2 ∧ s.trees.length = 2 ∧
      ∀ e ∈ s.edits, ∀ t ∈ s.trees.drop 1, e.target.home.identity ≠ t.identity := by
    decide +kernel
  obtain ⟨edits, trees, distinct⟩ := made
  have safe : s.VersionSafe := after_versionSafe .builtin RuleSet.builtin_faithful _ _
  refine ⟨RuleSet.builtin_faithful, edits, trees, fun e built t later => ?_⟩
  exact safe.rejected _ (safe.edits e built) t (List.mem_of_mem_drop later) (distinct e built t later)

/-- The halves of a type name that was put in are one version: a node of either is found in the
other. -/
example :
    let s := (start .builtin "").after
      [.replace ⟨0, 0, 0⟩ (.made (.typeName "A.A")) ⟨"tree", 0⟩,
        .replace ⟨1, 0, 1⟩ (.taken ⟨1, 0, 0⟩) ⟨"tree", 1⟩,
        .replace ⟨1, 0, 1⟩ (.taken ⟨1, 2, 0⟩) ⟨"tree", 1⟩]
    s.trees.map SyntaxTree.text = ["", "A.A", "A", "A"] ∧
      ∀ t ∈ s.trees.drop 2, ∀ u ∈ s.trees.drop 2,
        (Handle.resolve ⟨t, t.rootNode⟩ u).toOption = some t.rootNode := by
  decide +kernel

end Session
end SharpRefactor
