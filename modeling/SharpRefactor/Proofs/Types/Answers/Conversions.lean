import SharpRefactor.Proofs.Types.Answers.Names

/-!
What an expression is asked to be by its surroundings is built from what the view of the node allows:
the types of variables and of assigned values, of parameters, and of what functions return.
-/

namespace SharpRefactor
namespace Table

variable {t : Table} {v : View} {keys : TypeKey → Prop} {stray : String → Prop}
  (closed : t.Closed keys stray) (fits : v.Fits t stray) {j : Judge} (within : j.Within v keys)
  {n : Node} {name : String} {type : Ty}

include closed fits within

omit within in
theorem initializerTarget?_built {clause : Node} (h : v.Passes clause n)
    (found : t.initializerTarget? clause = some type) : type.BuiltFrom keys (v.sees n) := by
  simp only [initializerTarget?, Option.bind_eq_bind, Option.bind_eq_some_iff] at found
  obtain ⟨owner, above, found⟩ := found
  have outer := h.parent fits above
  split at found
  · simp only [Option.bind_eq_some_iff] at found
    obtain ⟨declaration, -, found⟩ := found
    split at found
    · obtain ⟨syntax_, -, resolved⟩ := Option.bind_eq_some_iff.mp found
      exact outer.resolve fits closed resolved
    · cases found
  · obtain ⟨syntax_, -, resolved⟩ := Option.bind_eq_some_iff.mp found
    exact outer.resolve fits closed resolved
  · obtain ⟨syntax_, -, resolved⟩ := Option.bind_eq_some_iff.mp found
    exact outer.resolve fits closed resolved
  · cases found

omit closed fits in
/-- Every type that a group asks of an argument comes from one of its methods. -/
theorem argumentTargets_built {g : MethodGroup} {arguments : List Node} {i : Nat}
    (built : Denotation.BuiltFrom keys (v.sees n) (.methods g))
    (reached : ∀ a ∈ arguments, v.Reaches a n) :
    ∀ type ∈ argumentTargets j g arguments i, type.BuiltFrom keys (v.sees n) := by
  unfold argumentTargets
  refine List.foldlRecOn (motive := fun targets : List Ty =>
    ∀ type ∈ targets, type.BuiltFrom keys (v.sees n))
    _ _ (by simp) fun targets known c candidate => ?_
  have leads := built.2 c (List.mem_filter.mp candidate).1
  dsimp only
  split
  · next b p bound listed =>
    split
    · exact known
    · intro type member
      rcases List.mem_append.mp member with old | new
      · exact known type old
      · obtain rfl := List.mem_singleton.mp new
        obtain ⟨new, rfl, learnt⟩ := Candidate.bindings?_eq_some built.1 (fun pair observed => by
          obtain ⟨⟨⟨q, a⟩, k⟩, zipped, typed⟩ := List.mem_filterMap.mp observed
          obtain ⟨-, typed⟩ := Option.ite_none_left_eq_some.mp typed
          obtain ⟨actual, known, rfl⟩ := Option.map_eq_some_iff.mp typed
          have member := (List.of_mem_zip (List.fst_mem_of_mem_zipIdx zipped)).2
          exact within.valueType_at (reached a member) known) bound
        exact leads.substitute (fun p member => (learnt p member).2)
          (List.mem_cons_of_mem _ (List.mem_map_of_mem (List.mem_of_getElem? listed)))
  · exact known

omit closed fits in
theorem groupTarget?_built {g : MethodGroup} {arguments : List Node} {i : Nat} {argument : Node}
    (built : Denotation.BuiltFrom keys (v.sees n) (.methods g))
    (reached : ∀ a ∈ arguments, v.Reaches a n)
    (found : t.groupTarget? j g arguments i argument = some type) :
    type.BuiltFrom keys (v.sees n) := by
  have each := argumentTargets_built within (i := i) built reached
  unfold groupTarget? at found
  split at found
  · cases found
  · next only =>
    cases found
    exact each type (by simp [only])
  · obtain ⟨own, -, found⟩ := Option.bind_eq_some_iff.mp found
    exact each type (List.mem_of_find?_eq_some found)

omit within in
theorem constructorTarget?_built {created : Ty} {count i : Nat} (good : v.good n)
    (built : created.BuiltFrom keys (v.sees n))
    (found : t.constructorTarget? created count i = some type) : type.BuiltFrom keys (v.sees n) := by
  simp only [constructorTarget?, Option.bind_eq_bind, Option.bind_eq_some_iff] at found
  obtain ⟨k, key, d, known, found⟩ := found
  obtain ⟨member, rfl⟩ := find?_eq_some known
  split at found
  · split at found
    · cases found
      exact built
    · cases found
  · simp only [Option.bind_eq_some_iff] at found
    obtain ⟨parameters, listed, p, asked, made⟩ := found
    cases made
    have written := closed.contents d member p.type (TypeContents.mem_types.mpr (.inr (.inr (.inl
      ⟨parameters, List.mem_of_find?_eq_some listed, p, List.mem_of_getElem? asked, rfl⟩))))
    exact (closed.bind_lead (fits.stray n good) member key built).substitute written

theorem argumentTarget?_built {argument expression : Node} (good : v.good n)
    (h : v.Passes argument n) (found : t.argumentTarget? j argument expression = some type) :
    type.BuiltFrom keys (v.sees n) := by
  simp only [argumentTarget?, Option.bind_eq_bind, Option.bind_eq_some_iff] at found
  obtain ⟨list, above, i, -, owner, outer, found⟩ := found
  have inside := h.parent fits above
  have around := inside.parent fits outer
  split at found
  · simp only [Option.bind_eq_some_iff] at found
    obtain ⟨callee, first, d, denoted, found⟩ := found
    have built := within.denotes_at (around.reaches_child fits (Node.firstChild?_mem first)) denoted
    cases d with
    | methods group =>
        exact groupTarget?_built within built (fun a => argument_reaches fits inside) found
    | value called =>
        obtain ⟨signature, called, found⟩ := Option.bind_eq_some_iff.mp found
        obtain ⟨p, listed, made⟩ := Option.bind_eq_some_iff.mp found
        cases made
        exact signatureOf?_built closed fits good built called _
          (List.mem_cons_of_mem _ (List.mem_map_of_mem (List.mem_of_getElem? listed)))
    | type _ | space _ | function => cases found
  · simp only [Option.bind_eq_some_iff] at found
    obtain ⟨syntax_, -, created, resolved, found⟩ := found
    exact constructorTarget?_built closed fits good (around.resolve fits closed resolved) found
  · cases found

/-- What a function without a name returns when it is converted. -/
theorem returns_built {function : Node} (h : v.Passes function n)
    (found : ((j.target function).bind t.signatureOf?).map (·.returns) = some type) :
    type.BuiltFrom keys (v.sees n) := by
  obtain ⟨signature, called, rfl⟩ := Option.map_eq_some_iff.mp found
  obtain ⟨asked, target, called⟩ := Option.bind_eq_some_iff.mp called
  exact h.built (signatureOf?_built closed fits h.1 (within.target function h.1 _ target) called _
    List.mem_cons_self)

theorem returnIn_built {around : List Node} (h : ∀ a ∈ around, v.Passes a n)
    (found : t.returnIn j around = some type) : type.BuiltFrom keys (v.sees n) := by
  induction around with
  | nil => cases found
  | cons a outer ih =>
      have here : v.Passes a n := h a List.mem_cons_self
      replace ih := ih fun b later => h b (List.mem_cons_of_mem a later)
      unfold returnIn at found
      split at found
      case h_1 | h_2 =>
        obtain ⟨syntax_, -, resolved⟩ := Option.bind_eq_some_iff.mp found
        exact here.resolve fits closed resolved
      case h_3 | h_4 | h_5 => exact returns_built closed fits within here found
      case h_6 =>
        split at found
        · exact ih found
        · cases found
      case h_7 | h_8 | h_9 | h_10 | h_11 => cases found
      case h_12 => exact ih found

omit closed within in
theorem unparenthesize_passes {p : Place} {above : List Place} (h : v.Passes ⟨p, above⟩ n) :
    v.Passes (Node.unparenthesize p above) n := by
  induction above generalizing p with
  | nil => exact h
  | cons q qs ih =>
      rw [Node.unparenthesize]
      split
      · exact ih (h.parent fits rfl)
      · exact h

omit closed fits within in
theorem asked_of_not_void {asked : Option Ty}
    (found : (asked.bind fun type => if type.isVoid then none else some type) = some type) :
    asked = some type := by
  obtain ⟨_, found, kept⟩ := Option.bind_eq_some_iff.mp found
  obtain ⟨-, made⟩ := Option.ite_none_left_eq_some.mp kept
  exact found.trans made

theorem targetWith_built (good : v.good n) (found : t.targetWith j n = some type) :
    type.BuiltFrom keys (v.sees n) := by
  simp only [targetWith, Option.bind_eq_bind, Option.bind_eq_some_iff] at found
  obtain ⟨parent, above, found⟩ := found
  have outer : v.Passes parent n :=
    (unparenthesize_passes fits (View.Passes.refl good)).parent fits above
  split at found
  case h_1 => exact initializerTarget?_built closed fits outer (asked_of_not_void found)
  case h_2 =>
    split at found
    · obtain ⟨left, first, found⟩ := Option.bind_eq_some_iff.mp found
      exact within.valueType_at (outer.reaches_child fits (Node.firstChild?_mem first))
        (asked_of_not_void found)
    · cases found
  case h_3 => exact argumentTarget?_built closed fits within good outer (asked_of_not_void found)
  case h_4 | h_5 =>
    exact returnIn_built closed fits within (outer.ancestors fits) (asked_of_not_void found)
  case h_6 | h_7 =>
    split at found
    · exact returns_built closed fits within outer (asked_of_not_void found)
    · cases found
  case h_8 =>
    split at found
    · obtain ⟨spelt, -, resolved⟩ := Option.bind_eq_some_iff.mp (asked_of_not_void found)
      exact outer.resolve fits closed resolved
    · cases found
  case h_9 => cases found

end Table
end SharpRefactor
