import SharpRefactor.Refactor.Session

/-!
The actions of a session, each a program of small steps. A step that succeeds says what it has found
and what it has changed.
-/

namespace SharpRefactor
namespace Session

inductive Action where
  | read (text : String)
  | reread (r : TreeRef)
  | duplicate (r : TreeRef)
  | replace (n : NodeRef) (g : GraftRef) (r : TreeRef)
  | keep (n : NodeRef)
  | first (c : ContextRef) (r : TreeRef) (selection : TextRange)
  | available (c : ContextRef) (r : TreeRef) (selection : TextRange)
  | realize (c : ContextRef) (index : Nat)
  | apply (index : Nat) (r : TreeRef)
  | commit (c : ContextRef) (index : Nat) (r : TreeRef)
  | setCancelled (cancelled : Bool)

def Action.step : Action → Step Unit
  | read text => do let _ ← Session.read text; return
  | reread r => do let _ ← Session.reread r; return
  | duplicate r => do let _ ← Session.duplicate r; return
  | replace n g r => do let _ ← Session.replace n g r; return
  | keep n => do let _ ← Session.keep n; return
  | first c r selection => do let _ ← Session.first c r selection; return
  | available c r selection => do let _ ← Session.available c r selection; return
  | realize c index => do let _ ← Session.realize c index; return
  | apply index r => do let _ ← Session.apply index r; return
  | commit c index r => do let _ ← Session.commit c index r; return
  | setCancelled cancelled => Session.setCancelled cancelled

/-- The session after an action; one that fails changes nothing. -/
def perform (s : Session) (a : Action) : Session :=
  match a.step.run s with
  | .ok (_, s') => s'
  | .error _ => s

def after (s : Session) (actions : List Action) : Session := actions.foldl perform s

namespace Step

variable {α β : Type} {s s' : Session}

theorem bind_eq_ok {x : Step α} {f : α → Step β} {b : β} :
    (x >>= f).run s = .ok (b, s') ↔
      ∃ a s₁, x.run s = .ok (a, s₁) ∧ (f a).run s₁ = .ok (b, s') := by
  rw [StateT.run_bind]
  cases x.run s with
  | error e => simp [bind, Except.bind]
  | ok r =>
      obtain ⟨a, s₁⟩ := r
      simp only [bind, Except.bind, Except.ok.injEq, Prod.mk.injEq]
      constructor
      · exact fun h => ⟨a, s₁, ⟨rfl, rfl⟩, h⟩
      · rintro ⟨_, _, ⟨rfl, rfl⟩, h⟩
        exact h

theorem pure_eq_ok {a b : α} : (pure a : Step α).run s = .ok (b, s') ↔ a = b ∧ s = s' := by
  rw [StateT.run_pure]
  simp [pure, Except.pure]

theorem discard_eq_ok {x : Step α} {u : Unit} :
    (do let _ ← x; return : Step Unit).run s = .ok (u, s') ↔ ∃ a, x.run s = .ok (a, s') := by
  simp only [bind_eq_ok, pure_eq_ok]
  constructor
  · rintro ⟨a, _, ran, -, rfl⟩
    exact ⟨a, ran⟩
  · exact fun ⟨a, ran⟩ => ⟨a, s', ran, trivial, rfl⟩

theorem get_eq_ok {a : Session} : (get : Step Session).run s = .ok (a, s') ↔ s = a ∧ s = s' := by
  rw [StateT.run_get]
  simp [pure, Except.pure]

theorem modifyGet_eq_ok {f : Session → α × Session} {a : α} :
    (modifyGet f : Step α).run s = .ok (a, s') ↔ f s = (a, s') := by
  rw [StateT.run_modifyGet]
  simp [pure, Except.pure, Prod.ext_iff]

theorem item_eq_ok {key : String} {items : List α} {index : Nat} {a : α} :
    (item key items index).run s = .ok (a, s') ↔ items[index]? = some a ∧ s = s' := by
  unfold item
  cases items[index]? with
  | none => simp [throw, throwThe, MonadExceptOf.throw, StateT.lift, StateT.run, bind, Except.bind]
  | some b => simp only [pure_eq_ok, Option.some.injEq]

theorem tree_eq_ok {r : TreeRef} {t : SyntaxTree} :
    (tree r).run s = .ok (t, s') ↔ s.trees[r.index]? = some t ∧ s = s' := by
  simp only [tree, bind_eq_ok, get_eq_ok, item_eq_ok]
  constructor
  · rintro ⟨_, _, ⟨rfl, rfl⟩, h⟩
    exact h
  · exact fun h => ⟨s, s, ⟨rfl, rfl⟩, h⟩

theorem ofTree_eq_ok {x : Except TreeError α} {a : α} :
    (ofTree x).run s = .ok (a, s') ↔ x = .ok a ∧ s = s' := by
  cases x with
  | error e =>
      simp [ofTree, throw, throwThe, MonadExceptOf.throw, StateT.lift, StateT.run, bind, Except.bind]
  | ok b => simp only [ofTree, pure_eq_ok, Except.ok.injEq]

theorem ofRefactor_eq_ok {x : Except RefactorError α} {a : α} :
    (ofRefactor x).run s = .ok (a, s') ↔ x = .ok a ∧ s = s' := by
  cases x with
  | error e =>
      simp [ofRefactor, throw, throwThe, MonadExceptOf.throw, StateT.lift, StateT.run, bind,
        Except.bind]
  | ok b => simp only [ofRefactor, pure_eq_ok, Except.ok.injEq]

theorem takeSerials_eq_ok {count n : Nat} :
    (takeSerials count).run s = .ok (n, s') ↔
      n = s.serial ∧ s' = { s with serial := s.serial + count } := by
  rw [takeSerials, modifyGet_eq_ok, Prod.mk.injEq, eq_comm, @eq_comm _ _ s']

theorem addTree_eq_ok {t : SyntaxTree} {i : Nat} :
    (addTree t).run s = .ok (i, s') ↔
      i = s.trees.length ∧ s' = { s with trees := s.trees ++ [t] } := by
  rw [addTree, modifyGet_eq_ok, Prod.mk.injEq, eq_comm, @eq_comm _ _ s']

theorem addOffers_eq_ok {os : List Offer} {numbered : List (Nat × Offer)}
    (h : (addOffers os).run s = .ok (numbered, s')) : s' = { s with offers := s.offers ++ os } := by
  induction os generalizing s numbered with
  | nil =>
      obtain ⟨-, rfl⟩ := pure_eq_ok.mp h
      simp
  | cons o os ih =>
      simp only [addOffers, addOffer, bind_eq_ok, modifyGet_eq_ok, Prod.mk.injEq, pure_eq_ok] at h
      obtain ⟨_, _, ⟨rfl, rfl⟩, _, _, rest, -, rfl⟩ := h
      rw [ih rest]
      simp

end Step

end Session
end SharpRefactor
