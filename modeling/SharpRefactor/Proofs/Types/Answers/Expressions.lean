import SharpRefactor.Proofs.Types.Answers.Names

/-!
What expressions denote is built from what the view of the node allows, if that holds of all that the
judge answers about the nodes in them.
-/

namespace SharpRefactor
namespace Table

variable {t : Table} {v : View} {keys : TypeKey → Prop} {stray : String → Prop}
  (closed : t.Closed keys stray) (fits : v.Fits t stray) {j : Judge} (within : j.Within v keys)
  {n : Node} {name : String} {type : Ty}

include closed fits within

theorem denotesAccess_built {d : Denotation} (good : v.good n)
    (found : t.denotesAccess j n = some d) : d.BuiltFrom keys (v.sees n) := by
  have here : v.Passes n n := .refl good
  simp only [denotesAccess, Option.bind_eq_bind, Option.bind_eq_some_iff] at found
  obtain ⟨receiver, first, right, second, ⟨name, typeArguments⟩, named, d', denoted, found⟩ := found
  have built := within.denotes_at (here.reaches_child fits (Node.firstChild?_mem first)) denoted
  have inner := here.child fits (Node.secondChild?_mem second) (simpleName?_kind named)
  have arguments : ∀ a ∈ typeArguments, a.BuiltFrom keys (v.sees n) := fun a member =>
    inner.built ((simpleName?_built closed named a member).mono (fun _ key => key)
      (fits.own right inner.1))
  cases d' with
  | value type => exact closed.memberOf (fits.stray n good) built arguments found
  | type type =>
      rcases Option.or_eq_some_iff.mp (Option.orElse_eq_or.symm.trans found) with nested | ⟨-, member⟩
      · obtain ⟨type', inside, rfl⟩ := Option.map_eq_some_iff.mp nested
        obtain ⟨path, -, named⟩ := Option.bind_eq_some_iff.mp inside
        exact closed.admits.instance? arguments named
      · exact closed.memberOf (fits.stray n good) built arguments member
  | space space =>
      rcases Option.or_eq_some_iff.mp (Option.orElse_eq_or.symm.trans found) with declared | ⟨-, inner⟩
      · obtain ⟨type', named, rfl⟩ := Option.map_eq_some_iff.mp declared
        exact closed.admits.instance? arguments named
      · obtain ⟨-, made⟩ := Option.ite_none_right_eq_some.mp inner
        cases made
        trivial
  | methods g => cases found
  | function => cases found

theorem denotesCall_built {d : Denotation} (good : v.good n)
    (found : t.denotesCall j n = some d) : d.BuiltFrom keys (v.sees n) := by
  have here : v.Passes n n := .refl good
  simp only [denotesCall, Option.bind_eq_bind, Option.bind_eq_some_iff] at found
  obtain ⟨list, listed, callee, first, d', denoted, found⟩ := found
  have built := within.denotes_at (here.reaches_child fits (Node.firstChild?_mem first)) denoted
  cases d' with
  | methods group =>
      obtain ⟨⟨m, b⟩, picked, made⟩ := Option.bind_eq_some_iff.mp found
      cases made
      refine MethodGroup.pick?_returns built (fun type member => ?_) picked
      obtain ⟨argument, member, typed⟩ := List.mem_map.mp member
      exact within.valueType_at (argument_reaches fits (here.childOf fits listed rfl) member) typed
  | value type =>
      obtain ⟨signature, called, made⟩ := Option.bind_eq_some_iff.mp found
      cases made
      exact signatureOf?_built closed fits good built called _ List.mem_cons_self
  | type _ | space _ | function => cases found

omit fits within in
theorem predefined_built {word : String} (listed : word ∈ Ty.predefined.map (·.2.2)) :
    (Ty.system word).BuiltFrom keys (v.sees n) := by
  obtain ⟨entry, member, rfl⟩ := List.mem_map.mp listed
  exact .system (closed.admits.builtin entry member)

theorem binaryType?_built (good : v.good n) (found : binaryType? j n = some type) :
    type.BuiltFrom keys (v.sees n) := by
  simp only [binaryType?, Option.bind_eq_bind, Option.bind_eq_some_iff] at found
  obtain ⟨op, -, found⟩ := found
  have left : ∀ {type}, n.firstChild?.bind j.valueType = some type →
      type.BuiltFrom keys (v.sees n) := by
    intro type found
    obtain ⟨m, first, typed⟩ := Option.bind_eq_some_iff.mp found
    exact within.valueType_at
      ((View.Passes.refl good).reaches_child fits (Node.firstChild?_mem first)) typed
  split at found
  · cases found
    exact predefined_built closed (by decide)
  · split at found
    · split at found
      · cases found
        exact predefined_built closed (by decide)
      · exact left found
    · exact left found

omit closed fits within in
theorem literalTypeName?_predefined {literal : PlacedToken} {word : String}
    (named : Node.literalTypeName? literal = some word) : word ∈ Ty.predefined.map (·.2.2) := by
  unfold Node.literalTypeName? at named
  split at named
  all_goals cases named
  all_goals try decide
  all_goals repeat' split
  all_goals decide

omit closed fits within in
theorem denotesWith_plain {d : Denotation} (found : t.denotesWith j n = some d) :
    n.introducesTypeParameters = false := by
  change n.kind.introducesTypeParameters = false
  unfold denotesWith at found
  cases kind : n.kind <;> first | rfl | (rw [kind] at found; cases found)

theorem denotesWith_built {d : Denotation} (good : v.good n)
    (found : t.denotesWith j n = some d) : d.BuiltFrom keys (v.sees n) := by
  have here : v.Passes n n := .refl good
  have first : ∀ {type}, n.firstChild?.bind j.valueType = some type →
      type.BuiltFrom keys (v.sees n) := by
    intro type found
    obtain ⟨m, child, typed⟩ := Option.bind_eq_some_iff.mp found
    exact within.valueType_at (here.reaches_child fits (Node.firstChild?_mem child)) typed
  unfold denotesWith at found
  split at found
  case h_1 =>
    obtain ⟨type, literal, rfl⟩ := Option.map_eq_some_iff.mp found
    obtain ⟨word, named, rfl⟩ := Option.map_eq_some_iff.mp literal
    obtain ⟨token, -, named⟩ := Option.bind_eq_some_iff.mp named
    exact predefined_built closed (literalTypeName?_predefined named)
  case h_2 =>
    simp only [Option.bind_eq_bind, Option.bind_eq_some_iff] at found
    obtain ⟨k, innermost, own, known, made⟩ := found
    cases made
    exact selfType_built closed fits here (List.mem_of_head? innermost) known
  case h_3 | h_4 =>
    split at found
    · obtain ⟨type, resolved, rfl⟩ := Option.map_eq_some_iff.mp found
      exact here.resolve fits closed resolved
    · exact denotesName_built closed fits within good found
  case h_5 | h_6 | h_7 =>
    obtain ⟨type, resolved, rfl⟩ := Option.map_eq_some_iff.mp found
    exact here.resolve fits closed resolved
  case h_8 => exact denotesAccess_built closed fits within good found
  case h_9 => exact denotesCall_built closed fits within good found
  case h_10 =>
    obtain ⟨type, created, rfl⟩ := Option.map_eq_some_iff.mp found
    obtain ⟨syntax_, -, resolved⟩ := Option.bind_eq_some_iff.mp created
    exact here.resolve fits closed resolved
  case h_11 =>
    obtain ⟨type, cast, rfl⟩ := Option.map_eq_some_iff.mp found
    obtain ⟨syntax_, -, resolved⟩ := Option.bind_eq_some_iff.mp cast
    exact here.resolve fits closed resolved
  case h_12 =>
    obtain ⟨m, child, denoted⟩ := Option.bind_eq_some_iff.mp found
    exact within.denotes_at (here.reaches_child fits (Node.firstChild?_mem child)) denoted
  case h_13 | h_14 =>
    obtain ⟨type, typed, rfl⟩ := Option.map_eq_some_iff.mp found
    exact first typed
  case h_15 =>
    obtain ⟨type, typed, rfl⟩ := Option.map_eq_some_iff.mp found
    exact binaryType?_built closed fits within good typed
  case h_16 =>
    split at found
    · cases found
      exact predefined_built closed (by decide)
    · obtain ⟨type, typed, rfl⟩ := Option.map_eq_some_iff.mp found
      exact first typed
  case h_17 | h_18 | h_19 =>
    cases found
    trivial
  case h_20 => cases found

end Table
end SharpRefactor
