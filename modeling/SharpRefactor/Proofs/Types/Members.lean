import SharpRefactor.Proofs.Types.Substitution
import SharpRefactor.Types.Denotation

/-!
What members are built from. The contents of a definition are built from its own type parameters and
perhaps some stray ones; the bindings along a hierarchy lead from there to what the type at its
start is built from, so members and methods that are found in it never bring in anything else.
-/

namespace SharpRefactor

def Signature.types (s : Signature) : List Ty := s.returns :: s.parameters.map (·.type)

theorem Signature.types_substitute (b : Bindings) (s : Signature) :
    (s.substitute b).types = s.types.map (Ty.substitute b) := by
  simp [types, substitute]

def MethodDef.types (m : MethodDef) : List Ty := m.returns :: m.parameters.map (·.type)

def TypeContents.types (c : TypeContents) : List Ty :=
  c.bases ++ c.methods.flatMap MethodDef.types ++ c.constructors.flatten.map (·.type) ++
    c.members.map (·.type) ++ (c.invoke.map Signature.types).getD []

theorem TypeContents.mem_types {c : TypeContents} {type : Ty} :
    type ∈ c.types ↔ type ∈ c.bases ∨ (∃ m ∈ c.methods, type ∈ m.types) ∨
      (∃ ps ∈ c.constructors, ∃ p ∈ ps, p.type = type) ∨ (∃ m ∈ c.members, m.type = type) ∨
      ∃ s, c.invoke = some s ∧ type ∈ s.types := by
  have invoke : type ∈ (c.invoke.map Signature.types).getD [] ↔
      ∃ s, c.invoke = some s ∧ type ∈ s.types := by
    cases c.invoke <;> simp
  simp only [types, List.mem_append, List.mem_flatMap, List.mem_map, List.mem_flatten, invoke]
  grind

theorem TypeContents.mem_types_append {a b : TypeContents} {type : Ty}
    (h : type ∈ (a.append b).types) : type ∈ a.types ∨ type ∈ b.types := by
  simp only [mem_types, append, List.mem_append, Option.or_eq_some_iff] at h ⊢
  grind

/-- A table whose definitions write down types of some keys only, and no type parameters but their
own and stray ones. -/
structure Table.Closed (t : Table) (keys : TypeKey → Prop) (stray : String → Prop) : Prop where
  admits : t.Admits keys
  arity : ∀ d ∈ t.defs, d.typeParameters.length = d.key.arity
  contents : ∀ d ∈ t.defs, ∀ type ∈ d.contents.types,
    type.BuiltFrom keys fun name => name ∈ d.typeParameters ∨ stray name

namespace Table

theorem find?_eq_some {t : Table} {k : TypeKey} {d : TypeDef} (found : t.find? k = some d) :
    d ∈ t.defs ∧ d.key = k := by
  refine ⟨List.mem_of_find?_eq_some found, ?_⟩
  simpa using List.find?_some found

/-- A delegate type and how it is called: as its definition says, with its type arguments put in. -/
def Delegate (t : Table) (type : Ty) (s : Signature) : Prop :=
  ∃ k d invoke, TypeKey.of? type = some k ∧ t.find? k = some d ∧ d.form = .delegateForm ∧
    d.contents.invoke = some invoke ∧ s = invoke.substitute (d.bind type)

theorem signatureOf?_eq_some_iff {t : Table} {type : Ty} {s : Signature} :
    t.signatureOf? type = some s ↔ t.Delegate type s := by
  simp only [signatureOf?, Delegate, Option.bind_eq_bind, Option.bind_eq_some_iff]
  constructor
  · rintro ⟨k, key, d, found, called⟩
    split at called
    · cases called
    · next form =>
      obtain ⟨invoke, own, made⟩ := Option.bind_eq_some_iff.mp called
      exact ⟨k, d, invoke, key, found, Decidable.not_not.mp form, own, (Option.some.inj made).symm⟩
  · rintro ⟨k, d, invoke, key, found, form, own, rfl⟩
    exact ⟨k, key, d, found, by simp [form, own]⟩

/-- Bindings for the type parameters of a definition, read from one place. -/
structure Ancestor.Leads (t : Table) (keys : TypeKey → Prop) (stray names : String → Prop)
    (a : Ancestor) : Prop where
  known : a.1 ∈ t.defs
  leads : a.2.Lead keys (fun name => name ∈ a.1.typeParameters ∨ stray name) names

def Candidate.Leads (keys : TypeKey → Prop) (names : String → Prop) (c : Candidate) : Prop :=
  ∃ before, (∀ type ∈ c.method.types, type.BuiltFrom keys before) ∧
    c.receiver.Lead keys before names

namespace Candidate.Leads

variable {keys : TypeKey → Prop} {names names' : String → Prop} {c : Candidate}

theorem mono (h : c.Leads keys names) (more : ∀ name, names name → names' name) :
    c.Leads keys names' := by
  obtain ⟨before, built, leads⟩ := h
  exact ⟨before, built, fun name own => (leads name own).mono (fun _ key => key) more⟩

/-- Whatever the type parameters of the method stand for. -/
theorem substitute (h : c.Leads keys names) {b : Bindings}
    (new : ∀ p ∈ b, p.2.BuiltFrom keys names) {type : Ty} (mentioned : type ∈ c.method.types) :
    (type.substitute (b ++ c.receiver)).BuiltFrom keys names := by
  obtain ⟨before, built, leads⟩ := h
  exact (leads.append new).substitute (built type mentioned)

end Candidate.Leads
end Table

/-- A type has an argument for each type parameter of its definition. -/
theorem TypeDef.isSome_lookup_bind {type : Ty} (d : TypeDef)
    (arity : d.typeParameters.length = d.key.arity) (key : TypeKey.of? type = some d.key)
    {name : String} (own : name ∈ d.typeParameters) :
    ((d.bind type).lookup name).isSome := by
  have enough : d.typeParameters.length ≤ type.args.length := by
    cases type with
    | named space name args =>
        rw [arity, ← Option.some.inj key]
        exact Nat.le_refl _
    | _ => cases key
  rw [Bindings.isSome_lookup_iff, bind, List.map_reverse, List.map_fst_zip enough]
  exact List.mem_reverse.mpr own

theorem TypeDef.bind_lead {d : TypeDef} {type : Ty} {keys : TypeKey → Prop}
    {stray names : String → Prop} (arity : d.typeParameters.length = d.key.arity)
    (own : TypeKey.of? type = some d.key) (built : type.BuiltFrom keys names)
    (strays : ∀ name, stray name → names name) :
    (d.bind type).Lead keys (fun name => name ∈ d.typeParameters ∨ stray name) names := by
  intro name named
  rw [Ty.substitute_parameter]
  cases found : (d.bind type).lookup name with
  | some bound =>
      obtain ⟨front, back, split, -⟩ := List.lookup_eq_some_iff.mp found
      have pair : (name, bound) ∈ d.bind type := by simp [split]
      exact built.args bound (List.of_mem_zip (List.mem_reverse.mp pair)).2
  | none =>
      refine .parameter ?_
      rcases named with declared | stray
      · have bound := d.isSome_lookup_bind arity own declared
        rw [found] at bound
        cases bound
      · exact strays name stray

namespace Table.Closed

variable {t : Table} {keys : TypeKey → Prop} {stray names : String → Prop}
  (h : t.Closed keys stray) (strays : ∀ name, stray name → names name)

include h strays

theorem bind_lead {d : TypeDef} {type : Ty} (known : d ∈ t.defs)
    (own : TypeKey.of? type = some d.key) (built : type.BuiltFrom keys names) :
    (d.bind type).Lead keys (fun name => name ∈ d.typeParameters ∨ stray name) names :=
  TypeDef.bind_lead (h.arity d known) own built strays

theorem visit (n : Nat) {queue : List Ty} {seen : List TypeKey}
    (built : ∀ type ∈ queue, type.BuiltFrom keys names) :
    ∀ a ∈ t.visit n queue seen, a.Leads t keys stray names := by
  induction n generalizing queue seen with
  | zero => simp [Table.visit]
  | succ n ih =>
      cases queue with
      | nil => simp [Table.visit]
      | cons type queue =>
          have own : type.BuiltFrom keys names := built type List.mem_cons_self
          have rest : ∀ type ∈ queue, type.BuiltFrom keys names :=
            fun type' later => built type' (List.mem_cons_of_mem type later)
          rw [Table.visit]
          split
          · exact ih rest
          · next k key =>
            split
            · exact ih rest
            · split
              · exact ih rest
              · next d found =>
                obtain ⟨known, rfl⟩ := find?_eq_some found
                have leads := h.bind_lead strays known key own
                intro a member
                rcases List.mem_cons.mp member with rfl | later
                · exact ⟨known, leads⟩
                · refine ih (fun type' queued => ?_) a later
                  rcases List.mem_append.mp queued with old | base
                  · exact rest type' old
                  · obtain ⟨own, listed, rfl⟩ := List.mem_map.mp base
                    exact leads.substitute
                      (h.contents d known own (TypeContents.mem_types.mpr (.inl listed)))

theorem hierarchy {type : Ty} (built : type.BuiltFrom keys names) :
    ∀ a ∈ t.hierarchy type, a.Leads t keys stray names := by
  have found : ∀ a ∈ t.visit (t.baseCount + 1) [type] [], a.Leads t keys stray names :=
    h.visit strays _ (by simpa using built)
  unfold Table.hierarchy
  dsimp only
  split
  · exact found
  · intro a member
    rcases List.mem_append.mp member with visited | last
    · exact found a visited
    · obtain ⟨d, object, rfl⟩ := List.mem_map.mp last
      obtain ⟨known, key⟩ := find?_eq_some (Option.mem_toList.mp object)
      refine ⟨known, fun name named => .parameter (strays name (named.resolve_left ?_))⟩
      have none := h.arity d known
      rw [key] at none
      rw [List.eq_nil_of_length_eq_zero none]
      exact List.not_mem_nil

theorem memberType? {type found : Ty} {name : String} {static : Option Bool}
    (built : type.BuiltFrom keys names) (member : t.memberType? type name static = some found) :
    found.BuiltFrom keys names := by
  have searched : ∀ {found}, memberType?.search t name static type = some found →
      found.BuiltFrom keys names := by
    intro found member
    obtain ⟨⟨d, b⟩, listed, here⟩ := List.exists_of_findSome?_eq_some member
    obtain ⟨m, matching, rfl⟩ := Option.map_eq_some_iff.mp here
    obtain ⟨known, leads⟩ := h.hierarchy strays built _ listed
    have own := List.mem_of_find?_eq_some (Option.filter_eq_some_iff.mp matching).1
    exact leads.substitute
      (h.contents d known _ (TypeContents.mem_types.mpr (.inr (.inr (.inr (.inl ⟨_, own, rfl⟩))))))
  unfold Table.memberType? at member
  split at member
  · split at member
    · cases member
      exact .system (h.admits.builtin (.intKw, "int", "Int32") (by decide))
    · exact searched member
  · exact searched member

theorem methods {type : Ty} (built : type.BuiltFrom keys names) (name : String)
    (static : Option Bool) : ∀ c ∈ t.methods type name static, c.Leads keys names := by
  intro c member
  obtain ⟨⟨d, b⟩, listed, here⟩ := List.mem_flatMap.mp member
  obtain ⟨m, matching, rfl⟩ := List.mem_map.mp here
  obtain ⟨known, leads⟩ := h.hierarchy strays built _ listed
  have own : m ∈ d.contents.methods :=
    (List.mem_filter.mp (List.mem_filter.mp matching).1).1
  refine ⟨_, fun type' mentioned => ?_, leads⟩
  exact h.contents d known type' (TypeContents.mem_types.mpr (.inr (.inl ⟨m, own, mentioned⟩)))

theorem signatureOf? {type : Ty} {s : Signature} (built : type.BuiltFrom keys names)
    (called : t.signatureOf? type = some s) : ∀ type ∈ s.types, type.BuiltFrom keys names := by
  obtain ⟨k, d, invoke, key, found, -, own, rfl⟩ := signatureOf?_eq_some_iff.mp called
  obtain ⟨known, rfl⟩ := find?_eq_some found
  have leads := h.bind_lead strays known key built
  intro type' member
  rw [Signature.types_substitute] at member
  obtain ⟨written, listed, rfl⟩ := List.mem_map.mp member
  exact leads.substitute (h.contents d known written
    (TypeContents.mem_types.mpr (.inr (.inr (.inr (.inr ⟨invoke, own, listed⟩))))))

end Table.Closed

def Denotation.BuiltFrom (keys : TypeKey → Prop) (names : String → Prop) : Denotation → Prop
  | .value own | .type own => own.BuiltFrom keys names
  | .methods g =>
      (∀ a ∈ g.typeArguments, a.BuiltFrom keys names) ∧ ∀ c ∈ g.candidates, c.Leads keys names
  | .space _ | .function => True

theorem Denotation.BuiltFrom.mono {keys : TypeKey → Prop} {names names' : String → Prop}
    {d : Denotation} (h : d.BuiltFrom keys names) (more : ∀ name, names name → names' name) :
    d.BuiltFrom keys names' := by
  cases d with
  | value own => exact Ty.BuiltFrom.mono h (fun _ key => key) more
  | type own => exact Ty.BuiltFrom.mono h (fun _ key => key) more
  | methods g =>
      exact ⟨fun a member => (h.1 a member).mono (fun _ key => key) more,
        fun c member => (h.2 c member).mono more⟩
  | space _ => trivial
  | function => trivial

namespace Table

variable {t : Table} {keys : TypeKey → Prop} {stray names : String → Prop}

theorem Closed.memberOf (h : t.Closed keys stray) (strays : ∀ name, stray name → names name)
    {type : Ty} {name : String} {typeArguments : List Ty} {static : Option Bool} {d : Denotation}
    (built : type.BuiltFrom keys names) (arguments : ∀ a ∈ typeArguments, a.BuiltFrom keys names)
    (found : t.memberOf type name typeArguments static = some d) : d.BuiltFrom keys names := by
  unfold Table.memberOf at found
  split at found
  · next member here =>
    cases found
    split at here
    · exact h.memberType? strays built here
    · cases here
  · split at found
    · cases found
    · cases found
      exact ⟨arguments, h.methods strays built name static⟩

/-- What a method's bindings add to those of its receiver is about its own type parameters, and
taken from type arguments and from the types that arguments have. -/
theorem Candidate.bindings?_eq_some {c : Candidate} {explicit : List Ty}
    {observed : List (Ty × Ty)} {b : Bindings} (arguments : ∀ a ∈ explicit, a.BuiltFrom keys names)
    (actual : ∀ p ∈ observed, p.2.BuiltFrom keys names)
    (found : c.bindings? explicit observed = some b) :
    ∃ new : Bindings, b = new ++ c.receiver ∧
      ∀ p ∈ new, p.1 ∈ c.method.typeParameters ∧ p.2.BuiltFrom keys names := by
  unfold Candidate.bindings? at found
  split at found
  · cases found
    refine ⟨_, rfl, ?_⟩
    exact List.foldlRecOn (motive := fun b : Bindings =>
      ∀ p ∈ b, p.1 ∈ c.method.typeParameters ∧ p.2.BuiltFrom keys names) _ _
      (by simp) fun b known pair member => Ty.unify_builtFrom _ _ (actual pair member) known
  · split at found
    · cases found
      refine ⟨_, rfl, fun p member => ?_⟩
      obtain ⟨own, given⟩ := List.of_mem_zip (List.mem_reverse.mp member)
      exact ⟨own, arguments p.2 given⟩
    · cases found

end Table

namespace MethodGroup

variable {g : MethodGroup} {keys : TypeKey → Prop} {names : String → Prop}
  (h : Denotation.BuiltFrom keys names (.methods g))

include h

/-- The return type of a call, with the bindings that the choice of the method comes with. -/
theorem pick?_returns {arguments : List (Option Ty)} {m : MethodDef} {b : Bindings}
    (actual : ∀ type, some type ∈ arguments → type.BuiltFrom keys names)
    (picked : g.pick? arguments = some (m, b)) : (m.returns.substitute b).BuiltFrom keys names := by
  have applicable : (m, b) ∈ g.applicable arguments := by
    unfold pick? at picked
    rcases Option.or_eq_some_iff.mp picked with accepted | ⟨-, first⟩
    · exact List.mem_of_find?_eq_some accepted
    · exact List.mem_of_head? first
  obtain ⟨c, listed, bound⟩ := List.mem_filterMap.mp applicable
  obtain ⟨b', found, made⟩ := Option.map_eq_some_iff.mp bound
  cases made
  obtain ⟨new, rfl, learnt⟩ := Table.Candidate.bindings?_eq_some h.1 (fun pair member => by
    obtain ⟨⟨p, argument⟩, zipped, typed⟩ := List.mem_filterMap.mp member
    obtain ⟨type, rfl, rfl⟩ := Option.map_eq_some_iff.mp typed
    exact actual type (List.of_mem_zip zipped).2) found
  exact (h.2 c (List.mem_filter.mp listed).1).substitute (fun p member => (learnt p member).2)
    List.mem_cons_self

end MethodGroup
end SharpRefactor
