import SharpRefactor.Types.Lookup

/-!
What types are built from. A predicate on keys and one on the names of type parameters say what may
occur in a type; substitution, matching and the reading of type syntax stay within such predicates,
so whatever holds of all keys of a table holds of everything that is looked up in it.
-/

namespace SharpRefactor

mutual

def Ty.keys : Ty → List TypeKey
  | .void | .parameter _ => []
  | .named space name args => ⟨space, name, args.length⟩ :: Ty.allKeys args
  | .array element => element.keys

def Ty.allKeys : List Ty → List TypeKey
  | [] => []
  | t :: ts => t.keys ++ Ty.allKeys ts

end

theorem Ty.mem_allKeys {k : TypeKey} {ts : List Ty} : k ∈ allKeys ts ↔ ∃ t ∈ ts, k ∈ t.keys := by
  induction ts with
  | nil => simp [allKeys]
  | cons t ts ih => simp [allKeys, ih]

mutual

def Ty.parameters : Ty → List String
  | .void => []
  | .named _ _ args => Ty.allParameters args
  | .parameter name => [name]
  | .array element => element.parameters

def Ty.allParameters : List Ty → List String
  | [] => []
  | t :: ts => t.parameters ++ Ty.allParameters ts

end

theorem Ty.mem_allParameters {name : String} {ts : List Ty} :
    name ∈ allParameters ts ↔ ∃ t ∈ ts, name ∈ t.parameters := by
  induction ts with
  | nil => simp [allParameters]
  | cons t ts ih => simp [allParameters, ih]

inductive Ty.BuiltFrom (keys : TypeKey → Prop) (names : String → Prop) : Ty → Prop where
  | void : BuiltFrom keys names .void
  | named {space name : String} {args : List Ty} (key : keys ⟨space, name, args.length⟩)
      (inside : ∀ a ∈ args, a.BuiltFrom keys names) : BuiltFrom keys names (.named space name args)
  | parameter {name : String} (own : names name) : BuiltFrom keys names (.parameter name)
  | array {element : Ty} (inside : element.BuiltFrom keys names) :
      BuiltFrom keys names (.array element)

namespace Ty.BuiltFrom

variable {keys keys' : TypeKey → Prop} {names names' : String → Prop} {t : Ty}

theorem mono (h : t.BuiltFrom keys names) (wider : ∀ k, keys k → keys' k)
    (more : ∀ name, names name → names' name) : t.BuiltFrom keys' names' := by
  induction h with
  | void => exact .void
  | named key _ ih => exact .named (wider _ key) ih
  | parameter own => exact .parameter (more _ own)
  | array _ ih => exact .array ih

theorem args (h : t.BuiltFrom keys names) : ∀ a ∈ t.args, a.BuiltFrom keys names := by
  cases h with
  | named _ inside => exact inside
  | _ => simp [Ty.args]

theorem system {name : String} (key : keys ⟨"System", name, 0⟩) :
    (Ty.system name).BuiltFrom keys names :=
  .named key (by simp)

theorem repeat_array (h : t.BuiltFrom keys names) (n : Nat) :
    (Nat.repeat Ty.array n t).BuiltFrom keys names := by
  induction n with
  | zero => exact h
  | succ n ih => exact .array ih

/-- What a type is built from is what occurs in it. -/
theorem iff_occurring :
    t.BuiltFrom keys names ↔ (∀ k ∈ t.keys, keys k) ∧ ∀ name ∈ t.parameters, names name := by
  constructor
  · intro h
    induction h with
    | void => simp [Ty.keys, parameters]
    | named key _ ih =>
        rw [Ty.keys, List.forall_mem_cons]
        refine ⟨⟨key, fun k member => ?_⟩, fun name occurs => ?_⟩
        · obtain ⟨a, inside, member⟩ := mem_allKeys.mp member
          exact (ih a inside).1 k member
        · obtain ⟨a, inside, occurs⟩ := mem_allParameters.mp occurs
          exact (ih a inside).2 name occurs
    | parameter own => exact ⟨by simp [Ty.keys], by simpa [parameters] using own⟩
    | array _ ih => simpa only [Ty.keys, parameters] using ih
  · intro h
    induction t using Ty.induct with
    | void => exact .void
    | named space name args ih =>
        rw [Ty.keys, List.forall_mem_cons] at h
        refine .named h.1.1 fun a inside => ih a inside ⟨fun k member => ?_, fun name occurs => ?_⟩
        · exact h.1.2 k (mem_allKeys.mpr ⟨a, inside, member⟩)
        · exact h.2 name (mem_allParameters.mpr ⟨a, inside, occurs⟩)
    | parameter name => exact .parameter (h.2 name (by simp [parameters]))
    | array t ih => exact .array (ih (by simpa only [Ty.keys, parameters] using h))

end Ty.BuiltFrom

/-- Bindings that lead from types over some names to types over others. -/
def Bindings.Lead (keys : TypeKey → Prop) (before after : String → Prop) (b : Bindings) : Prop :=
  ∀ name, before name → ((Ty.parameter name).substitute b).BuiltFrom keys after

namespace Bindings.Lead

variable {keys : TypeKey → Prop} {before after : String → Prop} {b c : Bindings}

theorem substitute {t : Ty} (h : b.Lead keys before after) (built : t.BuiltFrom keys before) :
    (t.substitute b).BuiltFrom keys after := by
  induction built with
  | void => exact .void
  | named key _ ih =>
      rw [Ty.substitute_named]
      refine .named (by rwa [List.length_map]) fun a member => ?_
      obtain ⟨own, inside, rfl⟩ := List.mem_map.mp member
      exact ih own inside
  | parameter own => exact h _ own
  | array _ ih => exact .array ih

/-- New bindings may be put in front. -/
theorem append (h : c.Lead keys before after) (new : ∀ p ∈ b, p.2.BuiltFrom keys after) :
    (b ++ c).Lead keys before after := by
  intro name own
  rw [Ty.substitute_parameter, List.lookup_append]
  cases found : b.lookup name with
  | none => exact h name own
  | some type =>
      obtain ⟨_, _, rfl, -⟩ := List.lookup_eq_some_iff.mp found
      exact new (name, type) (by simp)

end Bindings.Lead

namespace Ty

variable {keys : TypeKey → Prop} {names : String → Prop}

/-- What is learnt is about the parameters that were asked for, and taken from the actual type. -/
theorem unify_builtFrom (parameters : List String) (declared : Ty) {actual : Ty} {b : Bindings}
    (built : actual.BuiltFrom keys names)
    (known : ∀ p ∈ b, p.1 ∈ parameters ∧ p.2.BuiltFrom keys names) :
    ∀ p ∈ declared.unify parameters actual b, p.1 ∈ parameters ∧ p.2.BuiltFrom keys names := by
  induction declared using Ty.induct generalizing actual b with
  | void => rwa [unify.eq_def]
  | parameter name =>
      rw [unify]
      split
      · next own =>
        split
        · exact known
        · exact List.forall_mem_cons.mpr ⟨⟨List.contains_iff_mem.mp own, built⟩, known⟩
      · exact known
  | array t ih =>
      cases built with
      | array inside =>
          rw [unify]
          exact ih inside known
      | _ => exact known
  | named space name args ih =>
      cases built with
      | @named space' name' args' key inside =>
          rw [unify]
          split
          · next same =>
            clear same key
            induction args generalizing args' b with
            | nil => rwa [unifyAll.eq_def]
            | cons d ds rest =>
                cases args' with
                | nil => exact known
                | cons a as =>
                    rw [unifyAll]
                    refine rest (fun d' member => ih d' (List.mem_cons_of_mem d member))
                      (ih d List.mem_cons_self (inside a List.mem_cons_self) known) ?_
                    exact fun a' member => inside a' (List.mem_cons_of_mem a member)
          · exact known
      | _ => exact known

end Ty

structure Table.Admits (t : Table) (keys : TypeKey → Prop) : Prop where
  known : ∀ k, t.has k → keys k
  builtin : ∀ entry ∈ Ty.predefined, keys ⟨"System", entry.2.2, 0⟩

/-- A way to read aliases that finds types of some keys over the type parameters of the scope. -/
def Expand.Keeps (keys : TypeKey → Prop) (expand : Expand Ty) : Prop :=
  ∀ s syntax_ type, expand s syntax_ = some type → type.BuiltFrom keys (· ∈ s.typeParameters)

namespace Table.Admits

variable {t : Table} {keys : TypeKey → Prop} {names : String → Prop} (h : t.Admits keys)

include h

theorem instance? {space name : String} {args : List Ty} {type : Ty}
    (built : ∀ a ∈ args, a.BuiltFrom keys names)
    (found : t.instance? space name args = some type) : type.BuiltFrom keys names := by
  obtain ⟨has, made⟩ := Option.ite_none_right_eq_some.mp found
  cases made
  exact .named (h.known _ has) built

theorem ofKeyword? {k : Kind} {type : Ty} (found : Ty.ofKeyword? k = some type) :
    type.BuiltFrom keys names := by
  unfold Ty.ofKeyword? at found
  split at found
  · cases found
    exact .void
  · obtain ⟨entry, listed, rfl⟩ := Option.map_eq_some_iff.mp found
    exact .system (h.builtin entry (List.mem_of_find?_eq_some listed))

section Lookup

variable {expand : Expand Ty} (keeps : expand.Keeps keys) {s : Scope} {name : String}
  {args : List Ty} (built : ∀ a ∈ args, a.BuiltFrom keys (· ∈ s.typeParameters))

include keeps built

theorem lookupIn {i : Nat} {space : NamespaceScope} {type : Ty}
    (found : t.lookupIn expand s i space name args = some (some type)) :
    type.BuiltFrom keys (· ∈ s.typeParameters) := by
  unfold Table.lookupIn at found
  split at found
  · next declared =>
      cases found
      exact h.instance? built declared
  · split at found
    · next target _ =>
        -- The target of an alias is read where no type parameter can be seen.
        have read := keeps (s.forAlias i) target type (Option.some.inj found)
        exact read.mono (fun _ key => key) fun name none => nomatch none
    · obtain ⟨type', imported, same⟩ := Option.map_eq_some_iff.mp found
      obtain ⟨space', -, declared⟩ := List.exists_of_findSome?_eq_some imported
      cases same
      exact h.instance? built declared

theorem lookupOutward {i : Nat} {spaces : List NamespaceScope} {type : Ty}
    (found : t.lookupOutward expand s name args i spaces = some type) :
    type.BuiltFrom keys (· ∈ s.typeParameters) := by
  induction spaces generalizing i with
  | nil => cases found
  | cons space spaces ih =>
      rw [Table.lookupOutward] at found
      split at found
      · next here => exact h.lookupIn keeps built (here.trans (congrArg some found))
      · exact ih found

theorem lookupWith {type : Ty} (found : t.lookupWith expand s name args = some type) :
    type.BuiltFrom keys (· ∈ s.typeParameters) := by
  unfold Table.lookupWith at found
  split at found
  · next own =>
      cases found
      simp only [Bool.and_eq_true, List.contains_iff_mem] at own
      exact .parameter own.2
  · split at found
    · next nested =>
        cases found
        obtain ⟨outer, -, declared⟩ := List.exists_of_findSome?_eq_some nested
        exact h.instance? built declared
    · exact h.lookupOutward keeps built found

end Lookup

theorem lookupAfter {container : Option Ty} {space : Option String} {name : String}
    {args : List Ty} {type : Ty} (built : ∀ a ∈ args, a.BuiltFrom keys names)
    (found : t.lookupAfter container space name args = some type) : type.BuiltFrom keys names := by
  unfold Table.lookupAfter at found
  split at found
  all_goals
    obtain ⟨path, -, declared⟩ := Option.bind_eq_some_iff.mp found
    exact h.instance? built declared

end Table.Admits

namespace Table.Admits

variable {t : Table} {keys : TypeKey → Prop} {names : String → Prop}

mutual

/-- Every type that a spelling means is built from keys of the table and type parameters in
scope. -/
theorem resolveWith (h : t.Admits keys) {expand : Expand Ty} (keeps : expand.Keeps keys)
    (expandSpace : Expand String) (s : Scope) :
    ∀ (a : TypeSyntax) {type : Ty}, a.resolveWith t expand expandSpace s = some type →
      type.BuiltFrom keys (· ∈ s.typeParameters)
  | .missing, _, found => nomatch found
  | .predefined keyword, _, found => by
      obtain ⟨k, -, found⟩ := Option.bind_eq_some_iff.mp found
      exact h.ofKeyword? found
  | .simple name, _, found => h.lookupWith keeps (by simp) found
  | .generic name args, _, found => by
      obtain ⟨types, read, found⟩ := Option.bind_eq_some_iff.mp found
      exact h.lookupWith keeps (resolveAllWith h keeps expandSpace s args read) found
  | .qualified left (.simple name), _, found => h.lookupAfter (by simp) found
  | .qualified left (.generic name args), _, found => by
      obtain ⟨types, read, found⟩ := Option.bind_eq_some_iff.mp found
      exact h.lookupAfter (resolveAllWith h keeps expandSpace s args read) found
  | .qualified _ .missing, _, found | .qualified _ (.predefined _), _, found
  | .qualified _ (.qualified _ _), _, found | .qualified _ (.array _ _), _, found => nomatch found
  | .array element rank, _, found => by
      obtain ⟨inner, read, rfl⟩ := Option.map_eq_some_iff.mp found
      exact (resolveWith h keeps expandSpace s element read).repeat_array _

theorem resolveAllWith (h : t.Admits keys) {expand : Expand Ty} (keeps : expand.Keeps keys)
    (expandSpace : Expand String) (s : Scope) : ∀ (args : List TypeSyntax) {types : List Ty},
      TypeSyntax.resolveAllWith t expand expandSpace s args = some types →
        ∀ a ∈ types, a.BuiltFrom keys (· ∈ s.typeParameters)
  | [], _, read => by
      cases read
      simp
  | a :: as, types, read => by
      rw [TypeSyntax.resolveAllWith] at read
      cases first : a.resolveWith t expand expandSpace s with
      | none => simp [first] at read
      | some type =>
          rw [first] at read
          obtain ⟨rest, others, rfl⟩ := Option.map_eq_some_iff.mp read
          intro b member
          rcases List.mem_cons.mp member with rfl | later
          · exact resolveWith h keeps expandSpace s a first
          · exact resolveAllWith h keeps expandSpace s as others b later

end

variable (h : t.Admits keys)

include h

theorem expandType (n : Nat) : (t.expandType n).Keeps keys := by
  induction n with
  | zero => exact fun _ _ _ found => nomatch found
  | succ n ih => exact fun s a _ found => h.resolveWith ih _ s a found

theorem resolve {s : Scope} {a : TypeSyntax} {type : Ty} (found : t.resolve s a = some type) :
    type.BuiltFrom keys (· ∈ s.typeParameters) :=
  h.expandType _ s a type found

theorem lookup {s : Scope} {name : String} {args : List Ty} {type : Ty}
    (built : ∀ a ∈ args, a.BuiltFrom keys (· ∈ s.typeParameters))
    (found : t.lookup s name args = some type) : type.BuiltFrom keys (· ∈ s.typeParameters) :=
  h.lookupWith (h.expandType _) built found

theorem resolveAll {s : Scope} {args : List TypeSyntax} {types : List Ty}
    (found : t.resolveAll s args = some types) :
    ∀ a ∈ types, a.BuiltFrom keys (· ∈ s.typeParameters) := by
  induction args generalizing types with
  | nil =>
      cases found
      simp
  | cons a as ih =>
      simp only [Table.resolveAll, List.mapM_cons, Option.bind_eq_bind, Option.pure_def,
        Option.bind_eq_some_iff, Option.some.injEq] at found
      obtain ⟨type, first, rest, others, rfl⟩ := found
      intro b member
      rcases List.mem_cons.mp member with rfl | later
      · exact h.resolve first
      · exact ih others b later

end Table.Admits
end SharpRefactor
