import Mathlib.Data.List.Basic
import SharpRefactor.Proofs.Types.Built

/-!
The laws of substitution. What a type becomes depends on what its own type parameters stand for and
on nothing else, so bindings of other names leave it alone, and bindings that agree on them are as
good as each other. Type parameters are replaced all at once: what is put in is not looked at again,
and two substitutions are one by bindings in which the second has been put into the first.
-/

namespace SharpRefactor
namespace Ty

variable {b c : Bindings} {type : Ty} {name : String}

/-! ### What occurs in a type -/

theorem mentions_iff {names : List String} :
    type.mentions names ↔ ∃ name ∈ names, name ∈ type.parameters := by
  induction type using Ty.induct with
  | void => simp [mentions, parameters]
  | named space name args ih =>
      simp only [mentions, parameters, anyMentions_eq_any, List.any_eq_true, mem_allParameters]
      constructor
      · rintro ⟨a, inside, mentioned⟩
        obtain ⟨name, asked, occurs⟩ := (ih a inside).mp mentioned
        exact ⟨name, asked, a, inside, occurs⟩
      · rintro ⟨name, asked, a, inside, occurs⟩
        exact ⟨a, inside, (ih a inside).mpr ⟨name, asked, occurs⟩⟩
  | parameter name => simp [mentions, parameters]
  | array t ih => simpa only [mentions, parameters] using ih

theorem mentions_eq_false_iff {names : List String} :
    type.mentions names = false ↔ ∀ name ∈ names, name ∉ type.parameters := by
  rw [← Bool.not_eq_true, mentions_iff]
  exact not_exists.trans (forall_congr' fun _ => not_and)

theorem mentions_singleton : type.mentions [name] ↔ name ∈ type.parameters := by
  simp [mentions_iff]

theorem allParameters_eq_flatMap (ts : List Ty) : allParameters ts = ts.flatMap parameters := by
  induction ts with
  | nil => rfl
  | cons t ts ih => rw [allParameters, ih, List.flatMap_cons]

/-- Each type parameter is replaced where it stands, and nothing else is touched. -/
theorem parameters_substitute (b : Bindings) (type : Ty) :
    (type.substitute b).parameters =
      type.parameters.flatMap fun name => ((parameter name).substitute b).parameters := by
  induction type using Ty.induct with
  | void => rfl
  | named space name args ih =>
      rw [substitute_named, parameters, parameters, allParameters_eq_flatMap,
        allParameters_eq_flatMap, List.flatMap_map, List.flatMap_assoc]
      exact List.flatMap_congr ih
  | parameter name => rw [parameters, List.flatMap_singleton]
  | array t ih => rw [substitute_array, parameters, parameters, ih]

/-- A type parameter is left where nothing is put in for it, or comes in with what is. -/
theorem mem_parameters_substitute {p : String} : p ∈ (type.substitute b).parameters ↔
    (p ∈ type.parameters ∧ b.lookup p = none) ∨
      ∃ name image, b.lookup name = some image ∧ name ∈ type.parameters ∧ p ∈ image.parameters := by
  rw [parameters_substitute, List.mem_flatMap]
  constructor
  · rintro ⟨name, occurs, inside⟩
    rw [substitute_parameter] at inside
    cases found : b.lookup name with
    | none =>
        rw [found] at inside
        obtain rfl := List.mem_singleton.mp inside
        exact .inl ⟨occurs, found⟩
    | some image =>
        rw [found] at inside
        exact .inr ⟨name, image, found, occurs, inside⟩
  · rintro (⟨occurs, free⟩ | ⟨name, image, found, occurs, inside⟩)
    · refine ⟨p, occurs, ?_⟩
      rw [substitute_parameter, free]
      exact List.mem_singleton_self p
    · refine ⟨name, occurs, ?_⟩
      rwa [substitute_parameter, found]

/-! ### What a type becomes -/

/-- Bindings make the same of a type exactly if they agree on what occurs in it. -/
theorem substitute_eq_substitute_iff : type.substitute b = type.substitute c ↔
    ∀ name ∈ type.parameters, (parameter name).substitute b = (parameter name).substitute c := by
  induction type using Ty.induct with
  | void => simp [substitute, parameters]
  | named space name args ih =>
      simp only [substitute_named, named.injEq, true_and, List.map_inj_left, parameters,
        mem_allParameters]
      constructor
      · rintro same name ⟨a, inside, occurs⟩
        exact (ih a inside).mp (same a inside) name occurs
      · intro same a inside
        exact (ih a inside).mpr fun name occurs => same name ⟨a, inside, occurs⟩
  | parameter name => simp [parameters]
  | array t ih => simpa only [substitute_array, array.injEq, parameters] using ih

theorem substitute_eq_self_iff : type.substitute b = type ↔
    ∀ name ∈ type.parameters, (parameter name).substitute b = parameter name := by
  simpa only [substitute_nil] using substitute_eq_substitute_iff (c := [])

theorem substitute_of_foreign (foreign : ∀ name ∈ type.parameters, b.lookup name = none) :
    type.substitute b = type :=
  substitute_eq_self_iff.mpr fun name occurs => by
    rw [substitute_parameter, foreign name occurs, Option.getD_none]

end Ty

namespace Bindings

variable {b c : Bindings} {name : String}

/-! ### One substitution after another -/

/-- Bindings with others put into what they stand for. -/
def through (b c : Bindings) : Bindings := b.map fun p => (p.1, p.2.substitute c)

/-- Bindings for two substitutions in one: a name stands for what the first say with the second put
in, and a name that only the second know for what these say. -/
def andThen (b c : Bindings) : Bindings := b.through c ++ c

theorem lookup_through : (b.through c).lookup name = (b.lookup name).map (Ty.substitute c) := by
  induction b with
  | nil => rfl
  | cons p b ih =>
      rw [through, List.map_cons, List.lookup_cons, List.lookup_cons]
      cases name == p.1 with
      | true => rfl
      | false => exact ih

theorem lookup_andThen : (b.andThen c).lookup name =
    ((b.lookup name).map (Ty.substitute c)).or (c.lookup name) := by
  rw [andThen, List.lookup_append, lookup_through]

theorem lookup_graph (f : String → Ty) (names : List String) (name : String) :
    (names.map fun name => (name, f name)).lookup name =
      if name ∈ names then some (f name) else none := by
  split
  · next listed => exact List.lookup_graph f listed
  · next other =>
    refine List.lookup_eq_none_iff.mpr fun p member => ?_
    obtain ⟨n, listed, rfl⟩ := List.mem_map.mp member
    exact bne_iff_ne.mpr fun same => other (same ▸ listed)

theorem isSome_lookup_iff : (b.lookup name).isSome ↔ name ∈ b.map Prod.fst := by
  rw [List.lookup_isSome_iff, List.mem_map]
  simp only [beq_iff_eq, @eq_comm _ name]

end Bindings

namespace Ty

variable {b c : Bindings} {type : Ty}

theorem substitute_substitute (b c : Bindings) (type : Ty) :
    (type.substitute b).substitute c = type.substitute (b.andThen c) := by
  induction type using Ty.induct with
  | void => rfl
  | named space name args ih =>
      rw [substitute_named, substitute_named, substitute_named, List.map_map]
      exact congrArg (named space name) (List.map_congr_left ih)
  | parameter name =>
      rw [substitute_parameter, substitute_parameter, Bindings.lookup_andThen]
      cases b.lookup name with
      | none => rfl
      | some image => rfl
  | array t ih => rw [substitute_array, substitute_array, substitute_array, ih]

/-- Where the first bindings leave nothing to the second, it is enough to put the second into
them. -/
theorem substitute_through
    (left : ∀ name ∈ type.parameters, (b.lookup name).isSome ∨ c.lookup name = none) :
    type.substitute (b.through c) = (type.substitute b).substitute c := by
  rw [substitute_substitute, substitute_eq_substitute_iff]
  intro name occurs
  rw [substitute_parameter, substitute_parameter, Bindings.lookup_andThen, Bindings.lookup_through]
  rcases left name occurs with bound | free
  · obtain ⟨image, found⟩ := Option.isSome_iff_exists.mp bound
    rw [found, Option.map_some, Option.some_or]
  · rw [free, Option.or_none]

/-- Substituting twice is substituting once by the composed bindings. A type in which no bound name
occurs stays as it is; where one does, the type changes, if no name stands for itself. A type
parameter occurs in the result if it occurred unbound, or comes in with what a name that occurred
stands for. -/
theorem substitute_laws (type : Ty) (b c : Bindings) :
    (type.substitute b).substitute c = type.substitute (b.andThen c) ∧
    (type.mentions (b.map Prod.fst) = false → type.substitute b = type) ∧
    (type.mentions (b.map Prod.fst) → (∀ name, b.lookup name ≠ some (.parameter name)) →
      type.substitute b ≠ type) ∧
    ∀ p, (type.substitute b).mentions [p] ↔ (type.mentions [p] ∧ b.lookup p = none) ∨
      ∃ name image, b.lookup name = some image ∧ type.mentions [name] ∧ image.mentions [p] := by
  refine ⟨substitute_substitute b c type, fun foreign => ?_, fun mentioned moved same => ?_,
    fun p => ?_⟩
  · refine substitute_of_foreign fun name occurs => ?_
    rw [← Option.not_isSome_iff_eq_none, Bindings.isSome_lookup_iff]
    exact fun bound => mentions_eq_false_iff.mp foreign name bound occurs
  · obtain ⟨name, bound, occurs⟩ := mentions_iff.mp mentioned
    obtain ⟨image, found⟩ := Option.isSome_iff_exists.mp (Bindings.isSome_lookup_iff.mpr bound)
    have kept := substitute_eq_self_iff.mp same name occurs
    rw [substitute_parameter, found, Option.getD_some] at kept
    exact moved name (kept ▸ found)
  · simp only [mentions_singleton, mem_parameters_substitute]

/-- Both names of a pair are replaced at once: the second name in what the first stands for
stays. -/
theorem substitute_laws_pair :
    let pair := Ty.named "" "Pair" [.parameter "T", .parameter "U"]
    let b : Bindings := [("T", .array (.parameter "U")), ("U", .int)]
    pair.substitute b = .named "" "Pair" [.array (.parameter "U"), .int] ∧
      (pair.substitute b).substitute b = pair.substitute (b.andThen b) ∧
      pair.mentions ["V"] = false ∧ pair.substitute [("V", .int)] = pair ∧
      pair.mentions ["T", "U"] ∧ (∀ name, b.lookup name ≠ some (.parameter name)) ∧
      pair.substitute b ≠ pair := by
  intro pair b
  have moved : ∀ name, b.lookup name ≠ some (.parameter name) := by
    intro name found
    obtain ⟨_, _, split, -⟩ := List.lookup_eq_some_iff.mp found
    have listed : (name, parameter name) ∈ b := by simp [split]
    simp [b, int, system] at listed
  obtain ⟨once, -, changes, -⟩ := substitute_laws pair b b
  obtain ⟨-, stays, -, -⟩ := substitute_laws pair [("V", .int)] []
  exact ⟨by decide, once, by decide, stays (by decide), by decide, moved, changes (by decide) moved⟩

end Ty

theorem Signature.substitute_substitute (s : Signature) (b c : Bindings) :
    (s.substitute b).substitute c = s.substitute (b.andThen c) := by
  simp [substitute, Ty.substitute_substitute]

end SharpRefactor
