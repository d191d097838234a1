import SharpRefactor.Proofs.Types.Views

/-!
What names are found to mean is built from what the view of the node allows: local declarations, the
members of the types around, and what is declared beyond these.
-/

namespace SharpRefactor
namespace Table

variable {t : Table} {v : View} {keys : TypeKey → Prop} {stray : String → Prop}
  (closed : t.Closed keys stray) (fits : v.Fits t stray)

include closed fits

theorem selfType_built {d : TypeDef} {k : TypeKey} {m n : Node} (h : v.Passes m n)
    (around : k ∈ (Scope.around m).types) (found : t.find? k = some d) :
    d.selfType.BuiltFrom keys (v.sees n) := by
  obtain ⟨known, rfl⟩ := find?_eq_some found
  refine .named ?_ fun a member => ?_
  · rw [List.length_map, closed.arity d known]
    exact closed.admits.known _ (List.any_eq_true.mpr ⟨d, known, by simp⟩)
  · obtain ⟨name, own, rfl⟩ := List.mem_map.mp member
    exact .parameter (h.2 name (fits.self m h.1 _ around d found name own))

variable {j : Judge} (within : j.Within v keys) {n : Node} {name : String} {type : Ty}

theorem signatureOf?_built {s : Signature} (good : v.good n) (built : type.BuiltFrom keys (v.sees n))
    (called : t.signatureOf? type = some s) : ∀ type ∈ s.types, type.BuiltFrom keys (v.sees n) :=
  closed.signatureOf? (fits.stray n good) built called

include within

theorem localType?_built {statement : Node} (h : v.Passes statement n)
    (found : t.localType? j name statement = some type) : type.BuiltFrom keys (v.sees n) := by
  simp only [localType?, Option.bind_eq_bind, Option.bind_eq_some_iff] at found
  obtain ⟨declaration, declared, declarator, first, syntax_, -, found⟩ := found
  split at found
  · next resolved =>
      cases found
      exact h.resolve fits closed resolved
  · split at found
    · simp only [Option.bind_eq_some_iff] at found
      obtain ⟨clause, initial, value, first', typed⟩ := found
      have inner := ((h.childOf fits declared rfl).childrenOf fits
        (List.mem_of_find?_eq_some first) rfl).childOf fits initial rfl
      exact within.valueType_at (inner.reaches_child fits (Node.firstChild?_mem first')) typed
    · cases found

theorem functionParameter?_built {function : Node} {offset : Nat} (h : v.Passes function n)
    (found : t.functionParameter? j name offset function = some type) :
    type.BuiltFrom keys (v.sees n) := by
  simp only [functionParameter?, Option.bind_eq_bind, Option.bind_eq_some_iff] at found
  obtain ⟨⟨parameters, body⟩, -, found⟩ := found
  split at found
  · simp at found
  · simp only [Option.bind_eq_some_iff, Option.pure_def] at found
    obtain ⟨i, -, parameter, -, found⟩ := found
    split at found
    · exact h.resolve fits closed found
    · simp only [Option.bind_eq_some_iff] at found
      obtain ⟨asked, target, signature, called, p, listed, made⟩ := found
      cases made
      have built :=
        closed.signatureOf? (fits.stray function h.1) (within.target function h.1 _ target) called
      refine h.built (built p.type (List.mem_cons_of_mem _ ?_))
      exact List.mem_map_of_mem (List.mem_of_getElem? listed)

omit within in
theorem accessorValue?_built {accessor : Node} (h : v.Passes accessor n)
    (found : t.accessorValue? accessor = some type) : type.BuiltFrom keys (v.sees n) := by
  simp only [accessorValue?, Option.bind_eq_bind, Option.bind_eq_some_iff] at found
  obtain ⟨word, -, found⟩ := found
  split at found
  · simp at found
  · simp only [Option.bind_eq_some_iff] at found
    obtain ⟨owner, above, syntax_, -, found⟩ := found
    obtain ⟨middle, first, second⟩ := Option.bind_eq_some_iff.mp above
    exact ((h.parent fits first).parent fits second).resolve fits closed found

omit closed within in
theorem argument_reaches {list argument : Node} (h : v.Passes list n)
    (member : argument ∈ list.argumentExpressions) : v.Reaches argument n := by
  obtain ⟨outer, listed, first⟩ := List.mem_filterMap.mp member
  exact (h.childrenOf fits listed rfl).reaches_child fits (Node.firstChild?_mem first)

/-- One step outward per node: what a name means locally is found at that node or further out. -/
theorem localIn_built {offset : Nat} {around : List Node} (h : ∀ a ∈ around, v.Passes a n)
    (found : t.localIn j name offset around = some type) : type.BuiltFrom keys (v.sees n) := by
  induction around with
  | nil => cases found
  | cons a outer ih =>
      have here : v.Passes a n := h a List.mem_cons_self
      replace ih := ih fun b later => h b (List.mem_cons_of_mem a later)
      unfold localIn at found
      split at found
      case h_1 =>
        rcases Option.or_eq_some_iff.mp (Option.orElse_eq_or.symm.trans found) with inner | ⟨-, further⟩
        · obtain ⟨statement, member, typed⟩ := List.exists_of_findSome?_eq_some inner
          obtain ⟨child, kind⟩ := List.mem_filter.mp (List.mem_reverse.mp member)
          refine localType?_built closed fits within (here.child fits child ?_) typed
          simp only [Bool.and_eq_true, beq_iff_eq] at kind
          change statement.kind.introducesTypeParameters = false
          rw [kind.1]
          rfl
        · exact ih further
      case h_2 | h_3 | h_4 =>
        rcases Option.or_eq_some_iff.mp (Option.orElse_eq_or.symm.trans found) with own | ⟨-, further⟩
        · exact functionParameter?_built closed fits within here own
        · exact ih further
      case h_5 | h_6 =>
        split at found
        · cases found
        · split at found
          · obtain ⟨syntax_, -, resolved⟩ := Option.bind_eq_some_iff.mp found
            exact here.resolve fits closed resolved
          · exact ih found
      case h_7 =>
        rcases Option.or_eq_some_iff.mp (Option.orElse_eq_or.symm.trans found) with own | ⟨-, further⟩
        · split at own
          · exact accessorValue?_built closed fits here own
          · cases own
        · exact ih further
      case h_8 | h_9 | h_10 => cases found
      case h_11 => exact ih found

omit within in
theorem globalOf?_built {typeArguments : List Ty} {d : Denotation} (good : v.good n)
    (arguments : ∀ a ∈ typeArguments, a.BuiltFrom keys (· ∈ (Scope.around n).typeParameters))
    (found : t.globalOf? (.around n) name typeArguments = some d) :
    d.BuiltFrom keys (v.sees n) := by
  have seen : ∀ a ∈ typeArguments, a.BuiltFrom keys (v.sees n) :=
    fun a member => (arguments a member).mono (fun _ key => key) (fits.own n good)
  simp only [globalOf?, Option.orElse_eq_orElse, Option.orElse_eq_or, Option.or_eq_some_iff] at found
  rcases found with member | ⟨-, declared | ⟨-, space⟩⟩
  · obtain ⟨k, around, found⟩ := List.exists_of_findSome?_eq_some member
    obtain ⟨own, known, found⟩ := Option.bind_eq_some_iff.mp found
    have self := selfType_built closed fits (View.Passes.refl good) around known
    exact closed.memberOf (fits.stray n good) self seen found
  · obtain ⟨type, found, rfl⟩ := Option.map_eq_some_iff.mp declared
    exact (closed.admits.lookup arguments found).mono (fun _ key => key) (fits.own n good)
  · obtain ⟨path, -, rfl⟩ := Option.map_eq_some_iff.mp space
    trivial

omit within fits in
theorem simpleName?_built {typeArguments : List Ty}
    (found : t.simpleName? n = some (name, typeArguments)) :
    ∀ a ∈ typeArguments, a.BuiltFrom keys (· ∈ (Scope.around n).typeParameters) := by
  unfold simpleName? at found
  split at found
  · cases found
    simp
  · obtain ⟨args, read, made⟩ := Option.map_eq_some_iff.mp found
    cases made
    exact closed.admits.resolveAll read
  · cases found

omit closed fits within in
theorem simpleName?_kind {typeArguments : List Ty}
    (found : t.simpleName? n = some (name, typeArguments)) :
    n.kind.introducesTypeParameters = false := by
  obtain ⟨⟨token | ⟨k, ts⟩, start, index⟩, above⟩ := n
  · cases found
  · cases k <;> first | rfl | cases found

theorem denotesName_built {d : Denotation} (good : v.good n) (found : t.denotesName j n = some d) :
    d.BuiltFrom keys (v.sees n) := by
  obtain ⟨⟨name, typeArguments⟩, named, found⟩ := Option.bind_eq_some_iff.mp found
  have arguments := simpleName?_built closed named
  dsimp only at found
  split at found
  · next own =>
      obtain rfl := Option.some.inj found
      split at own
      · have around := (View.Passes.refl good).ancestors fits
        refine localIn_built closed fits within (fun a outer => around a ?_) own
        exact List.mem_of_mem_tail outer
      · cases own
  · exact globalOf?_built closed fits good arguments found

end Table
end SharpRefactor
