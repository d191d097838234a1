import SharpRefactor.Proofs.Types.Ancestry

/-!
Instances of generic types. To put something in for the type parameters of a type and then to look
it up is to look it up first: the bases of the instance, its members and the signature of a delegate
are those of the type with the same put in. This holds of definitions that write down no type
parameters but their own and derive from named types only; a base that is a type parameter itself is
followed in instances alone, and a type parameter that a definition does not bind is left in what it
writes down.
-/

namespace SharpRefactor

/-- A definition that mentions its own type parameters alone, and has named types for bases. -/
structure TypeDef.Sealed (d : TypeDef) : Prop where
  own : ∀ type ∈ d.contents.types, ∀ name ∈ type.parameters, name ∈ d.typeParameters
  bases : ∀ base ∈ d.contents.bases, (TypeKey.of? base).isSome

variable {c : Bindings} {type : Ty} {k : TypeKey} {d : TypeDef}

/-! ### One type -/

theorem TypeKey.of?_substitute (key : TypeKey.of? type = some k) (c : Bindings) :
    TypeKey.of? (type.substitute c) = some k := by
  cases type with
  | named space name args =>
      rw [Ty.substitute_named, ← key]
      simp [TypeKey.of?]
  | _ => cases key

theorem TypeDef.bind_substitute (key : TypeKey.of? type = some k) (d : TypeDef) (c : Bindings) :
    d.bind (type.substitute c) = (d.bind type).through c := by
  cases type with
  | named space name args =>
      rw [Ty.substitute_named, bind, bind, Bindings.through, Ty.args, Ty.args, List.zip_map_right,
        List.map_reverse]
      rfl
  | _ => cases key

/-- Something is put into what a sealed definition writes down by putting it into its type
arguments. -/
theorem TypeDef.Sealed.substitute_through (closed : d.Sealed) {b : Bindings}
    (bound : ∀ name ∈ d.typeParameters, (b.lookup name).isSome) {written : Ty}
    (listed : written ∈ d.contents.types) :
    written.substitute (b.through c) = (written.substitute b).substitute c :=
  Ty.substitute_through fun name occurs => .inl (bound name (closed.own written listed name occurs))

theorem Signature.substitute_congr {s : Signature} {b c : Bindings}
    (same : ∀ u ∈ s.types, u.substitute b = u.substitute c) : s.substitute b = s.substitute c := by
  rw [types, List.forall_mem_cons, List.forall_mem_map] at same
  have parameters := List.map_congr_left fun p listed =>
    congrArg (Parameter.mk p.name) (same.2 p listed)
  rw [substitute, substitute, same.1, parameters]

namespace Table

variable {t : Table} {queue : List Ty} {seen : List TypeKey} {found : List Ancestor}

/-- What is known without source is sealed, so all this holds of its definitions. -/
theorem library_sealed : ∀ d ∈ Library.all, d.Sealed := by
  have named : ∀ d ∈ Library.all, ∀ base ∈ d.contents.bases, (TypeKey.of? base).isSome := by
    decide +kernel
  intro d listed
  refine ⟨fun type written name occurs => ?_, named d listed⟩
  exact (Ty.BuiltFrom.iff_occurring.mp (library_contents d listed type written)).2 name occurs

/-! ### The bases of an instance -/

def Ancestor.through (a : Ancestor) (c : Bindings) : Ancestor := (a.1, a.2.through c)

theorem Ancestor.bases_through {a : Ancestor} (closed : a.1.Sealed)
    (bound : ∀ name ∈ a.1.typeParameters, (a.2.lookup name).isSome) (c : Bindings) :
    (a.through c).bases = a.bases.map (Ty.substitute c) := by
  rw [Ancestor.bases, Ancestor.bases, List.map_map]
  exact List.map_congr_left fun base written =>
    closed.substitute_through bound (TypeContents.mem_types.mpr (.inl written))

/-- The walk from instances goes the same way and lists the same definitions. -/
theorem Walks.through (arity : ∀ d ∈ t.defs, d.typeParameters.length = d.key.arity) (c : Bindings)
    (h : t.Walks queue seen found) (closed : ∀ a ∈ found, a.1.Sealed)
    (named : ∀ u ∈ queue, (TypeKey.of? u).isSome) :
    t.Walks (queue.map (Ty.substitute c)) seen (found.map (·.through c)) := by
  induction h with
  | done seen => exact .done seen
  | unnamed none rest ih =>
      have own := named _ List.mem_cons_self
      rw [none] at own
      cases own
  | again key old rest ih =>
      refine .again (TypeKey.of?_substitute key c) old (ih closed fun u later => ?_)
      exact named u (List.mem_cons_of_mem _ later)
  | unknown key new missing rest ih =>
      refine .unknown (TypeKey.of?_substitute key c) new missing (ih closed fun u later => ?_)
      exact named u (List.mem_cons_of_mem _ later)
  | @lists type queue seen found k d key new known rest ih =>
      obtain ⟨listed, rfl⟩ := find?_eq_some known
      rw [List.forall_mem_cons] at closed named
      have bound (name : String) (own : name ∈ d.typeParameters) :
          ((d.bind type).lookup name).isSome := d.isSome_lookup_bind (arity d listed) key own
      have instances : t.Walks _ _ _ := ih closed.2 fun u member => by
        rcases List.mem_append.mp member with later | base
        · exact named.2 u later
        · obtain ⟨written, listed, rfl⟩ := List.mem_map.mp base
          obtain ⟨k, key⟩ := Option.isSome_iff_exists.mp (closed.1.bases written listed)
          exact Option.isSome_of_eq_some (TypeKey.of?_substitute key _)
      rw [List.map_append, ← Ancestor.bases_through closed.1 bound] at instances
      rw [List.map_cons, List.map_cons, Ancestor.through, ← TypeDef.bind_substitute key]
      refine .lists (TypeKey.of?_substitute key c) new known ?_
      rwa [TypeDef.bind_substitute key]

/-- What is searched for along the bases of an instance is found where it is in the type itself. -/
theorem findSome?_through {f : Ancestor → Option Ty}
    (each : ∀ a ∈ found, f (a.through c) = (f a).map (Ty.substitute c)) :
    (found.map (·.through c)).findSome? f = (found.findSome? f).map (Ty.substitute c) := by
  induction found with
  | nil => rfl
  | cons a found ih =>
      rw [List.forall_mem_cons] at each
      rw [List.map_cons, List.findSome?_cons, List.findSome?_cons, each.1]
      cases f a with
      | none => exact ih each.2
      | some type => rfl

section Hierarchy

variable (arity : ∀ d ∈ t.defs, d.typeParameters.length = d.key.arity)

include arity

theorem isSome_lookup_hierarchy {a : Ancestor} (listed : a ∈ t.hierarchy type) {name : String}
    (own : name ∈ a.1.typeParameters) : (a.2.lookup name).isSome := by
  rw [hierarchy_eq, List.mem_append] at listed
  rcases listed with walked | last
  · obtain ⟨known, u, -, key, bound⟩ := (walks_ancestry t type).names a walked
    rw [bound]
    exact a.1.isSome_lookup_bind (arity _ (find?_eq_some known).1) key own
  · split at last
    · cases last
    · -- the common base, put at the end, has no type parameters
      obtain ⟨d, object, rfl⟩ := List.mem_map.mp last
      obtain ⟨known, key⟩ := find?_eq_some (Option.mem_toList.mp object)
      have none := arity d known
      rw [key] at none
      rw [List.eq_nil_of_length_eq_zero none] at own
      cases own

variable (key : TypeKey.of? type = some k) (closed : ∀ a ∈ t.hierarchy type, a.1.Sealed)

include key closed

/-- An instance has the bases that the type has, with the same put in. -/
theorem hierarchy_substitute (c : Bindings) :
    t.hierarchy (type.substitute c) = (t.hierarchy type).map (·.through c) := by
  have walkedSealed : ∀ a ∈ t.ancestry type, a.1.Sealed := fun a walked => by
    refine closed a ?_
    rw [hierarchy_eq]
    exact List.mem_append_left _ walked
  have walked : t.ancestry (type.substitute c) = (t.ancestry type).map (·.through c) :=
    (walks_iff_ancestry.mp ((walks_ancestry t type).through arity c walkedSealed
      (by simpa using Option.isSome_of_eq_some key))).symm
  have same : TypeKey.object ∈ t.keysIn (t.naming (type.substitute c)) ↔
      TypeKey.object ∈ t.keysIn (t.naming type) := by
    rw [← mem_keys_ancestry, ← mem_keys_ancestry, walked, List.map_map]
    rfl
  rw [hierarchy_eq, hierarchy_eq, walked, List.map_append]
  simp only [same]
  split
  · rfl
  · cases t.find? TypeKey.object <;> rfl

/-- A member of an instance has the type that it has in the type itself, with the same put in. -/
theorem memberType?_substitute (name : String) (static : Option Bool) (c : Bindings) :
    t.memberType? (type.substitute c) name static =
      (t.memberType? type name static).map (Ty.substitute c) := by
  have searched {u : Ty} {k : TypeKey} (key : TypeKey.of? u = some k) :
      t.memberType? u name static = memberType?.search t name static u := by
    cases u with
    | named => rfl
    | _ => cases key
  rw [searched (TypeKey.of?_substitute key c), searched key, memberType?.search,
    hierarchy_substitute arity key closed]
  refine findSome?_through fun a listed => ?_
  cases found : (a.1.member? name).filter (matchesStatic static ·.isStatic) with
  | none => simp [Ancestor.through, found]
  | some m =>
      have own : m ∈ a.1.contents.members :=
        List.mem_of_find?_eq_some (Option.filter_eq_some_iff.mp found).1
      have put := (closed a listed).substitute_through (c := c)
        (fun _ => isSome_lookup_hierarchy arity listed)
        (TypeContents.mem_types.mpr (.inr (.inr (.inr (.inl ⟨m, own, rfl⟩)))))
      simp [Ancestor.through, found, put]

/-- The methods of an instance are those of the type itself, found with the same put in. -/
theorem methods_substitute (name : String) (static : Option Bool) (c : Bindings) :
    t.methods (type.substitute c) name static =
      (t.methods type name static).map fun m => ⟨m.method, m.receiver.through c⟩ := by
  simp only [methods, hierarchy_substitute arity key closed, List.flatMap_map, List.map_flatMap,
    List.map_map]
  rfl

end Hierarchy

/-! ### Delegates -/

/-- An instance of a delegate is called like the delegate itself, with the same put in. -/
theorem signatureOf?_substitute (key : TypeKey.of? type = some k) (known : t.find? k = some d)
    (arity : d.typeParameters.length = d.key.arity) (closed : d.Sealed) (c : Bindings) :
    t.signatureOf? (type.substitute c) = (t.signatureOf? type).map (Signature.substitute c) := by
  obtain ⟨-, rfl⟩ := find?_eq_some known
  have put (invoke : Signature) (own : d.contents.invoke = some invoke) :
      invoke.substitute ((d.bind type).through c) = (invoke.substitute (d.bind type)).substitute c := by
    rw [Signature.substitute_substitute]
    refine Signature.substitute_congr fun u listed => ?_
    rw [← Ty.substitute_substitute, closed.substitute_through (fun _ => d.isSome_lookup_bind arity key)
      (TypeContents.mem_types.mpr (.inr (.inr (.inr (.inr ⟨invoke, own, listed⟩)))))]
  simp only [signatureOf?, TypeKey.of?_substitute key c, key, known, TypeDef.bind_substitute key,
    Option.bind_eq_bind, Option.bind_some]
  split
  · rfl
  · cases own : d.contents.invoke with
    | none => rfl
    | some invoke => exact congrArg some (put invoke own)

end Table
end SharpRefactor
