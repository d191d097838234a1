import SharpRefactor.Proofs.Refactor.Rejection
import SharpRefactor.Proofs.Refactor.Steps

/-!
Consistent sessions: there is one reading of identities under which all versions that a session holds
are sound, and its nodes, offers and edits are about nodes of these. Every action leaves a consistent
session consistent, and keeps the versions that it held.
-/

namespace SharpRefactor

open Identity

theorem isNode_of_parseTypeName {text : String} {t : Tree} (read : parseTypeName text = .ok t) :
    t.isNode := by
  unfold parseTypeName at read
  simp only at read
  split at read
  · cases read
  · split at read <;> cases read
    rfl

theorem Recipe.make_isNode {r : Recipe} {t : Tree} (made : r.make = .ok t) : t.isNode := by
  cases r with
  | identifierName name =>
      cases made
      rfl
  | typeName text => exact isNode_of_parseTypeName made
  | _ =>
      simp only [make, Except.map, bind, Except.bind, pure, Except.pure] at made
      repeat' split at made
      all_goals cases made
      all_goals rfl

namespace Session

/-- A session whose versions are sound and whose nodes are nodes of its versions. -/
structure Consistent (w : Reading) (s : Session) : Prop where
  rules : ∀ r ∈ s.rules.rules, r.Faithful
  trees : ∀ t ∈ s.trees, t.Sound w s.serial
  handles : ∀ h ∈ s.handles, h.TakenFrom s.trees
  offers : ∀ o ∈ s.offers, o.rule.Faithful ∧ o.found.target.TakenFrom s.trees
  edits : ∀ e ∈ s.edits, e.target.TakenFrom s.trees ∧ e.replacement.Sound w s.serial

def Continues (s s' : Session) : Prop := s.trees <+: s'.trees ∧ ∃ w, Consistent w s'

variable {w : Reading} {s s' : Session}

namespace Consistent

theorem continued (h : Consistent w s) (root : Tree) :
    Consistent (w.continued s.serial root) { s with serial := s.serial + 1 } where
  rules := h.rules
  trees t member := (h.trees t member).continued root
  handles := h.handles
  offers := h.offers
  edits e member := (h.edits e member).imp_right (·.continued root)

theorem addTree (h : Consistent w s) {t : SyntaxTree} (sound : t.Sound w s.serial) :
    Consistent w { s with trees := s.trees ++ [t] } where
  rules := h.rules
  trees u member := by
    rcases List.mem_append.mp member with old | new
    · exact h.trees u old
    · rwa [List.mem_singleton.mp new]
  handles g member := (h.handles g member).mono (List.subset_append_left ..)
  offers o member := (h.offers o member).imp_right (·.mono (List.subset_append_left ..))
  edits e member := (h.edits e member).imp_left (·.mono (List.subset_append_left ..))

theorem addHandle (h : Consistent w s) {g : Handle} (taken : g.TakenFrom s.trees) :
    Consistent w { s with handles := s.handles ++ [g] } where
  rules := h.rules
  trees := h.trees
  handles f member := by
    rcases List.mem_append.mp member with old | new
    · exact h.handles f old
    · rwa [List.mem_singleton.mp new]
  offers := h.offers
  edits := h.edits

theorem addOffers (h : Consistent w s) {os : List Offer}
    (made : ∀ o ∈ os, o.rule.Faithful ∧ o.found.target.TakenFrom s.trees) :
    Consistent w { s with offers := s.offers ++ os } where
  rules := h.rules
  trees := h.trees
  handles := h.handles
  offers o member := (List.mem_append.mp member).elim (h.offers o) (made o)
  edits := h.edits

theorem addEdit (h : Consistent w s) {e : Edit} (taken : e.target.TakenFrom s.trees)
    (sound : e.replacement.Sound w s.serial) :
    Consistent w { s with edits := s.edits ++ [e] } where
  rules := h.rules
  trees := h.trees
  handles := h.handles
  offers := h.offers
  edits f member := by
    rcases List.mem_append.mp member with old | new
    · exact h.edits f old
    · rw [List.mem_singleton.mp new]
      exact ⟨taken, sound⟩

/-- One more version, made in a step of its own. -/
theorem addNew (h : Consistent w s) {t : SyntaxTree}
    (sound : t.Sound (w.continued s.serial t.root) (s.serial + 1)) :
    Continues s { s with trees := s.trees ++ [t], serial := s.serial + 1 } :=
  ⟨List.prefix_append .., _, (h.continued t.root).addTree sound⟩

end Consistent

theorem Continues.refl (h : Consistent w s) : Continues s s := ⟨List.prefix_rfl, w, h⟩

/-- The nodes that references name are nodes of the session. -/
theorem node_eq_ok (h : Consistent w s) {r : NodeRef} {g : Handle}
    (ran : (node r).run s = .ok (g, s')) : g.TakenFrom s.trees ∧ s = s' := by
  simp only [node, Step.bind_eq_ok, Step.tree_eq_ok, Step.ofTree_eq_ok] at ran
  obtain ⟨t, _, ⟨held, rfl⟩, n, _, ⟨found, rfl⟩, ran⟩ := ran
  have climbs : ∀ (levels : Nat) (m : Node), m ∈ t.rootNode.descendants →
      ∀ top, m.above? levels = some top → top ∈ t.rootNode.descendants := by
    intro levels
    induction levels with
    | zero =>
        intro m inside top up
        cases up
        exact inside
    | succ levels ih =>
        intro m inside top up
        obtain ⟨p, parent, up⟩ := Option.bind_eq_some_iff.mp up
        exact ih p (Node.mem_descendants_of_parent? inside parent) top up
  have member := List.mem_of_getElem? held
  have inside := SyntaxTree.mem_descendants_of_nodeAt (h.trees t member).isNode found
  cases up : n.above? r.levels with
  | none =>
      simp [up, throw, throwThe, MonadExceptOf.throw, StateT.lift, StateT.run, bind, Except.bind]
        at ran
  | some top =>
      simp only [up, Step.pure_eq_ok] at ran
      obtain ⟨rfl, same⟩ := ran
      exact ⟨⟨member, climbs _ n inside top up⟩, same⟩

theorem read_continues (h : Consistent w s) {text : String} {a : Nat × SyntaxTree}
    (ran : (Session.read text).run s = .ok (a, s')) : Continues s s' := by
  simp only [Session.read, Step.bind_eq_ok, Step.takeSerials_eq_ok, Step.addTree_eq_ok,
    Step.pure_eq_ok] at ran
  obtain ⟨_, _, ⟨rfl, rfl⟩, _, _, ⟨rfl, rfl⟩, -, rfl⟩ := ran
  exact h.addNew (SyntaxTree.sound_parsed w s.serial rfl)

theorem graft_eq_ok (h : Consistent w s) {g : GraftRef} {t : SyntaxTree}
    (ran : (graft g).run s = .ok (t, s')) :
    s'.trees = s.trees ∧ ∃ w', Consistent w' s' ∧ t.Sound w' s'.serial := by
  cases g with
  | taken n =>
      simp only [graft, Step.bind_eq_ok, Step.pure_eq_ok] at ran
      obtain ⟨g, _, named, rfl, rfl⟩ := ran
      obtain ⟨taken, rfl⟩ := node_eq_ok h named
      exact ⟨rfl, w, h, taken.subtree_sound (h.trees _ taken.home)⟩
  | made recipe =>
      cases made : recipe.make with
      | error e =>
          simp [graft, made, throw, throwThe, MonadExceptOf.throw, StateT.lift, StateT.run, bind,
            Except.bind] at ran
      | ok root =>
          simp only [graft, made, Step.bind_eq_ok, Step.takeSerials_eq_ok, Step.pure_eq_ok] at ran
          obtain ⟨_, _, ⟨rfl, rfl⟩, rfl, rfl⟩ := ran
          exact ⟨rfl, _, h.continued root, SyntaxTree.sound_built w s.serial (Recipe.make_isNode made)⟩

theorem replace_continues (h : Consistent w s) {n : NodeRef} {g : GraftRef} {r : TreeRef}
    {a : Nat × SyntaxTree} (ran : (Session.replace n g r).run s = .ok (a, s')) :
    Continues s s' := by
  simp only [Session.replace, Step.bind_eq_ok, Step.tree_eq_ok, Step.ofTree_eq_ok,
    Step.takeSerials_eq_ok, Step.addTree_eq_ok, Step.pure_eq_ok] at ran
  obtain ⟨node, _, named, new, s₁, grafted, t, _, ⟨held, rfl⟩, _, _, ⟨rfl, rfl⟩, edited, _,
    ⟨replaced, rfl⟩, _, _, ⟨rfl, rfl⟩, -, rfl⟩ := ran
  obtain ⟨taken, rfl⟩ := node_eq_ok h named
  obtain ⟨kept, w', h', sound⟩ := graft_eq_ok h grafted
  have old := h'.trees t (List.mem_of_getElem? held)
  have home : node.home ∈ s₁.trees := kept ▸ taken.home
  obtain ⟨same, rfl⟩ := SyntaxTree.replace_eq_ok.mp replaced
  have led : t.root.get? node.node.path = some node.node.tree := by
    rw [← (h'.trees _ home).root_eq old same]
    exact taken.get?
  have new := h'.addNew (SyntaxTree.sound_replace old sound led)
  exact ⟨kept ▸ new.1, new.2⟩

theorem context_eq_ok {c : ContextRef} {context : Context}
    (ran : (Session.context c).run s = .ok (context, s')) : s = s' := by
  simp only [Session.context, resolver, Step.bind_eq_ok, Step.tree_eq_ok, Step.get_eq_ok,
    Step.pure_eq_ok] at ran
  obtain ⟨_, _, ⟨t, _, ⟨-, rfl⟩, -, rfl⟩, _, _, ⟨-, rfl⟩, -, rfl⟩ := ran
  rfl

/-- Offers by the rules of a consistent session are about its versions. -/
theorem offers_of_available (h : Consistent w s) {t : SyntaxTree} (member : t ∈ s.trees)
    {selection : TextRange} {c : Context} {o : Offer}
    (offered : o ∈ (s.rules.available t selection c).result) :
    o.rule.Faithful ∧ o.found.target.TakenFrom s.trees := by
  obtain ⟨faithful, home, inside⟩ :=
    Offer.target_of_available h.rules (h.trees t member).isNode offered
  exact ⟨faithful, home ▸ member, home ▸ inside⟩

theorem available_continues (h : Consistent w s) {c : ContextRef} {r : TreeRef}
    {selection : TextRange} {a : List (Nat × Offer)}
    (ran : (Session.available c r selection).run s = .ok (a, s')) : Continues s s' := by
  simp only [Session.available, Step.bind_eq_ok, Step.tree_eq_ok, Step.get_eq_ok] at ran
  obtain ⟨context, _, asked, t, _, ⟨held, rfl⟩, _, _, ⟨rfl, rfl⟩, added⟩ := ran
  obtain rfl := context_eq_ok asked
  rw [Step.addOffers_eq_ok added]
  exact ⟨List.prefix_rfl, w, h.addOffers fun o offered =>
    offers_of_available h (List.mem_of_getElem? held) offered⟩

theorem first_continues (h : Consistent w s) {c : ContextRef} {r : TreeRef} {selection : TextRange}
    {a : List (Nat × Offer)} (ran : (Session.first c r selection).run s = .ok (a, s')) :
    Continues s s' := by
  simp only [Session.first, Step.bind_eq_ok, Step.tree_eq_ok, Step.get_eq_ok] at ran
  obtain ⟨context, _, asked, t, _, ⟨held, rfl⟩, _, _, ⟨rfl, rfl⟩, added⟩ := ran
  obtain rfl := context_eq_ok asked
  rw [Step.addOffers_eq_ok added]
  refine ⟨List.prefix_rfl, w, h.addOffers fun o offered => ?_⟩
  rw [RuleSet.first?_eq_head?, Option.mem_toList] at offered
  exact offers_of_available h (List.mem_of_getElem? held) (List.mem_of_head? offered)

theorem realize_continues (h : Consistent w s) {c : ContextRef} {i : Nat} {a : Nat × Edit}
    (ran : (Session.realize c i).run s = .ok (a, s')) : Continues s s' := by
  simp only [Session.realize, offer, Step.bind_eq_ok, Step.get_eq_ok, Step.item_eq_ok,
    Step.takeSerials_eq_ok, Step.ofRefactor_eq_ok, Step.modifyGet_eq_ok] at ran
  obtain ⟨context, _, asked, o, _, ⟨_, _, ⟨rfl, rfl⟩, held, rfl⟩, _, _, ⟨rfl, rfl⟩, e, _,
    ⟨realized, rfl⟩, stored⟩ := ran
  obtain rfl := context_eq_ok asked
  cases stored
  obtain ⟨faithful, taken⟩ := h.offers o (List.mem_of_getElem? held)
  obtain ⟨target, sound⟩ := Offer.realize_sound faithful taken (h.trees _ taken.home) realized
  exact ⟨List.prefix_rfl, _,
    (h.continued e.replacement.root).addEdit (target ▸ taken) sound⟩

/-- The version that an edit makes is sound. -/
theorem apply_sound (h : Consistent w s) {e : Edit} {t edited : SyntaxTree}
    (taken : e.target.TakenFrom s.trees) (replacement : e.replacement.Sound w s.serial)
    (member : t ∈ s.trees) (applied : e.apply s.serial t = .ok edited) :
    edited.Sound (w.continued s.serial edited.root) (s.serial + 1) := by
  have home := h.trees _ taken.home
  have old := h.trees t member
  obtain ⟨same, rfl⟩ := Edit.apply_eq_ok taken home old applied
  have led : t.root.get? e.target.node.path = some e.target.node.tree := by
    rw [← home.root_eq old same]
    exact taken.get?
  exact SyntaxTree.sound_replace old replacement led

theorem apply_continues (h : Consistent w s) {i : Nat} {r : TreeRef} {a : Nat × SyntaxTree}
    (ran : (Session.apply i r).run s = .ok (a, s')) : Continues s s' := by
  simp only [Session.apply, edit, Step.bind_eq_ok, Step.get_eq_ok, Step.item_eq_ok,
    Step.tree_eq_ok, Step.takeSerials_eq_ok, Step.ofRefactor_eq_ok, Step.addTree_eq_ok,
    Step.pure_eq_ok] at ran
  obtain ⟨e, _, ⟨_, _, ⟨rfl, rfl⟩, stored, rfl⟩, t, _, ⟨held, rfl⟩, _, _, ⟨rfl, rfl⟩, edited, _,
    ⟨applied, rfl⟩, _, _, ⟨rfl, rfl⟩, -, rfl⟩ := ran
  obtain ⟨taken, sound⟩ := h.edits e (List.mem_of_getElem? stored)
  exact h.addNew (apply_sound h taken sound (List.mem_of_getElem? held) applied)

theorem commit_continues (h : Consistent w s) {c : ContextRef} {i : Nat} {r : TreeRef}
    {a : Nat × Committed} (ran : (Session.commit c i r).run s = .ok (a, s')) : Continues s s' := by
  simp only [Session.commit, offer, Step.bind_eq_ok, Step.get_eq_ok, Step.item_eq_ok,
    Step.tree_eq_ok, Step.takeSerials_eq_ok, Step.ofRefactor_eq_ok, Step.addTree_eq_ok,
    Step.pure_eq_ok] at ran
  obtain ⟨context, _, asked, o, _, ⟨_, _, ⟨rfl, rfl⟩, held, rfl⟩, t, _, ⟨version, rfl⟩, _, _,
    ⟨rfl, rfl⟩, done, _, ⟨committed, rfl⟩, _, _, ⟨rfl, rfl⟩, -, rfl⟩ := ran
  obtain rfl := context_eq_ok asked
  obtain ⟨realized, edited, applied, tree⟩ := Offer.commit_eq_ok committed
  obtain ⟨faithful, taken⟩ := h.offers o (List.mem_of_getElem? held)
  obtain ⟨target, sound⟩ := Offer.realize_sound faithful taken (h.trees _ taken.home) realized
  -- The edit is built in one step and made in the next one.
  have built := h.continued done.edit.replacement.root
  have made := apply_sound built (target ▸ taken) sound (List.mem_of_getElem? version) applied
  obtain rfl : done.tree = edited := tree
  exact built.addNew made

theorem reread_continues (h : Consistent w s) {r : TreeRef} {a : Nat × SyntaxTree}
    (ran : (Session.reread r).run s = .ok (a, s')) : Continues s s' := by
  simp only [Session.reread, Step.bind_eq_ok, Step.tree_eq_ok] at ran
  obtain ⟨_, _, ⟨-, rfl⟩, ran⟩ := ran
  exact read_continues h ran

theorem duplicate_continues (h : Consistent w s) {r : TreeRef} {a : Nat × SyntaxTree}
    (ran : (Session.duplicate r).run s = .ok (a, s')) : Continues s s' := by
  simp only [Session.duplicate, Step.bind_eq_ok, Step.tree_eq_ok, Step.addTree_eq_ok,
    Step.pure_eq_ok] at ran
  obtain ⟨t, _, ⟨held, rfl⟩, _, _, ⟨rfl, rfl⟩, -, rfl⟩ := ran
  exact ⟨List.prefix_append .., w, h.addTree (h.trees t (List.mem_of_getElem? held))⟩

theorem keep_continues (h : Consistent w s) {n : NodeRef} {a : Nat × Handle}
    (ran : (Session.keep n).run s = .ok (a, s')) : Continues s s' := by
  simp only [Session.keep, Step.bind_eq_ok, Step.modifyGet_eq_ok] at ran
  obtain ⟨g, _, named, kept⟩ := ran
  obtain ⟨taken, rfl⟩ := node_eq_ok h named
  cases kept
  exact ⟨List.prefix_rfl, w, h.addHandle taken⟩

theorem setCancelled_continues (h : Consistent w s) {cancelled : Bool} {u : Unit}
    (ran : (Session.setCancelled cancelled).run s = .ok (u, s')) : Continues s s' := by
  have changed := Step.modifyGet_eq_ok.mp ran
  cases changed
  exact ⟨List.prefix_rfl, w, h.rules, h.trees, h.handles, h.offers, h.edits⟩

theorem step_continues (h : Consistent w s) {a : Action} {u : Unit}
    (ran : a.step.run s = .ok (u, s')) : Continues s s' := by
  cases a with
  | read text =>
      obtain ⟨_, ran⟩ := Step.discard_eq_ok.mp ran
      exact read_continues h ran
  | reread r =>
      obtain ⟨_, ran⟩ := Step.discard_eq_ok.mp ran
      exact reread_continues h ran
  | duplicate r =>
      obtain ⟨_, ran⟩ := Step.discard_eq_ok.mp ran
      exact duplicate_continues h ran
  | replace n g r =>
      obtain ⟨_, ran⟩ := Step.discard_eq_ok.mp ran
      exact replace_continues h ran
  | keep n =>
      obtain ⟨_, ran⟩ := Step.discard_eq_ok.mp ran
      exact keep_continues h ran
  | first c r selection =>
      obtain ⟨_, ran⟩ := Step.discard_eq_ok.mp ran
      exact first_continues h ran
  | available c r selection =>
      obtain ⟨_, ran⟩ := Step.discard_eq_ok.mp ran
      exact available_continues h ran
  | realize c index =>
      obtain ⟨_, ran⟩ := Step.discard_eq_ok.mp ran
      exact realize_continues h ran
  | apply index r =>
      obtain ⟨_, ran⟩ := Step.discard_eq_ok.mp ran
      exact apply_continues h ran
  | commit c index r =>
      obtain ⟨_, ran⟩ := Step.discard_eq_ok.mp ran
      exact commit_continues h ran
  | setCancelled cancelled => exact setCancelled_continues h ran

end Session
end SharpRefactor
