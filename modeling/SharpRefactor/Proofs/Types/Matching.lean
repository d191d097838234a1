import SharpRefactor.Proofs.Types.Converting
import SharpRefactor.Proofs.Types.Substitution

/-!
Matching of declared types with actual ones. Where some bindings of the type parameters that are
asked for make the declared types the actual ones, these bindings are what is learnt, as far as
their names occur: the first binding that is met for a name is the only one that can be met. So
matching finds a solution whenever there is one, and a generic method stands for a delegate whenever
some types for its type parameters make it fit.
-/

namespace SharpRefactor
namespace Bindings

variable {names : List String} {pairs : List (Ty × Ty)} {s : Bindings} {name : String}

/-- What is learnt about some type parameters from pairs of declared and actual types, one pair
after the other, added to what was known before. -/
def learn (names : List String) (b : Bindings) (pairs : List (Ty × Ty)) : Bindings :=
  pairs.foldl (fun b (declared, actual) => declared.unify names actual b) b

def part (s : Bindings) (names : List String) : Bindings :=
  names.map fun name => (name, (Ty.parameter name).substitute s)

theorem lookup_part : (s.part names).lookup name =
    if name ∈ names then some ((Ty.parameter name).substitute s) else none :=
  lookup_graph _ names name

/-- Bindings of some type parameters that make each declared type the actual one. -/
structure Solves (s : Bindings) (names : List String) (pairs : List (Ty × Ty)) : Prop where
  within : ∀ name, (s.lookup name).isSome → name ∈ names
  maps : ∀ pair ∈ pairs, pair.1.substitute s = pair.2

/-- Matching one pair adds what a solution says of the names in the declared type. -/
def Teaches (s : Bindings) (names : List String) (pair : Ty × Ty) : Prop :=
  ∀ b name, (pair.1.unify names pair.2 b).lookup name =
    (b ++ s.part (pair.1.parameters.filter (· ∈ names))).lookup name

theorem lookup_learn_of_teaches (each : ∀ pair ∈ pairs, s.Teaches names pair) (b : Bindings)
    (name : String) : (learn names b pairs).lookup name =
      (b ++ s.part ((Ty.allParameters (pairs.map Prod.fst)).filter (· ∈ names))).lookup name := by
  induction pairs generalizing b with
  | nil => simp [learn, Ty.allParameters, part]
  | cons pair pairs ih =>
      rw [List.forall_mem_cons] at each
      have rest := ih each.2 (pair.1.unify names pair.2 b)
      rw [List.lookup_append, each.1 b name, ← List.lookup_append, List.append_assoc] at rest
      simpa only [learn, List.foldl_cons, List.map_cons, Ty.allParameters, List.filter_append, part,
        List.map_append] using rest

end Bindings

namespace Ty

theorem unifyAll_eq_learn (names : List String) (declared actual : List Ty) (b : Bindings) :
    unifyAll names declared actual b = Bindings.learn names b (declared.zip actual) := by
  induction declared generalizing actual b with
  | nil => simp [unifyAll, Bindings.learn]
  | cons d ds ih =>
      cases actual with
      | nil => simp [unifyAll, Bindings.learn]
      | cons a as =>
          rw [unifyAll, ih, List.zip_cons_cons, Bindings.learn, Bindings.learn, List.foldl_cons]

/-- Where the actual type is the declared one with something put in, that is what is learnt. -/
theorem teaches_substitute (s : Bindings) (names : List String) (declared : Ty) :
    s.Teaches names (declared, declared.substitute s) := by
  induction declared using Ty.induct with
  | void =>
      intro b name
      simp [unify.eq_def, parameters, Bindings.part]
  | named space own args ih =>
      have each : ∀ pair ∈ args.zip (args.map (substitute s)), s.Teaches names pair := by
        rw [← List.map_prod_left_eq_zip, List.forall_mem_map]
        exact ih
      intro b name
      have learnt := Bindings.lookup_learn_of_teaches each b name
      rw [List.map_fst_zip (by simp), ← unifyAll_eq_learn] at learnt
      rw [substitute_named, unify, if_pos ⟨rfl, rfl, (List.length_map _).symm⟩, learnt, parameters]
  | parameter own =>
      intro b name
      rw [unify, parameters]
      by_cases asked : own ∈ names
      · rw [if_pos (List.contains_iff_mem.mpr asked), List.filter_cons_of_pos (by simpa using asked),
          List.filter_nil, List.lookup_append, Bindings.lookup_part]
        -- a binding that is there already stands in front of the one in the solution
        by_cases same : name = own
        · subst same
          cases known : b.lookup name <;> simp [known]
        · have other : (name == own) = false := beq_eq_false_iff_ne.mpr same
          cases known : b.lookup own <;> simp [same, other, List.lookup_cons]
      · rw [if_neg (by simpa using asked), List.filter_cons_of_neg (by simpa using asked)]
        simp [Bindings.part]
  | array t ih =>
      intro b name
      rw [substitute_array, unify, ih, parameters]

end Ty

namespace Bindings

variable {names : List String} {pairs : List (Ty × Ty)} {s : Bindings} {name : String}

/-- What is learnt is what a solution says, of the names that occur. -/
theorem lookup_learn (solves : s.Solves names pairs) : (learn names [] pairs).lookup name =
    if name ∈ names ∧ ∃ pair ∈ pairs, name ∈ pair.1.parameters then
      some ((Ty.parameter name).substitute s) else none := by
  have each : ∀ pair ∈ pairs, s.Teaches names pair := by
    rintro ⟨declared, actual⟩ member
    have made : declared.substitute s = actual := solves.maps _ member
    exact made ▸ Ty.teaches_substitute s names declared
  have occurs : name ∈ (Ty.allParameters (pairs.map Prod.fst)).filter (· ∈ names) ↔
      name ∈ names ∧ ∃ pair ∈ pairs, name ∈ pair.1.parameters := by
    simp [Ty.mem_allParameters, and_comm]
  rw [lookup_learn_of_teaches each [] name, List.nil_append, lookup_part]
  simp only [occurs]

theorem isSome_lookup_learn (solves : s.Solves names pairs) :
    ((learn names [] pairs).lookup name).isSome ↔
      name ∈ names ∧ ∃ pair ∈ pairs, name ∈ pair.1.parameters := by
  rw [lookup_learn solves]
  split
  · next learnt => simpa using learnt
  · next unknown => simpa using unknown

/-- A name that was learnt, or was not asked for, stands for what it does in a solution. -/
theorem substitute_learn (solves : s.Solves names pairs)
    (known : name ∈ names → ((learn names [] pairs).lookup name).isSome) :
    (Ty.parameter name).substitute (learn names [] pairs) = (Ty.parameter name).substitute s := by
  rw [Ty.substitute_parameter, lookup_learn solves]
  by_cases asked : name ∈ names
  · rw [if_pos ((isSome_lookup_learn solves).mp (known asked)), Option.getD_some]
  · rw [if_neg fun learnt => asked learnt.1, Option.getD_none, Ty.substitute_parameter,
      Option.not_isSome_iff_eq_none.mp (mt (solves.within name) asked), Option.getD_none]

theorem solves_learn (solves : s.Solves names pairs) : (learn names [] pairs).Solves names pairs where
  within name bound := ((isSome_lookup_learn solves).mp bound).1
  maps pair member := by
    rw [← solves.maps pair member]
    refine Ty.substitute_eq_substitute_iff.mpr fun name occurs => ?_
    exact substitute_learn solves fun asked =>
      (isSome_lookup_learn solves).mpr ⟨asked, pair, member, occurs⟩

/-- If there is a solution, matching one pair after the other finds one, and binds the names that
were asked for and occur in declared types, and no others. -/
theorem learn_complete (solvable : ∃ s : Bindings, s.Solves names pairs) :
    (learn names [] pairs).Solves names pairs ∧
      ∀ name, ((learn names [] pairs).lookup name).isSome ↔
        name ∈ names ∧ ∃ pair ∈ pairs, pair.1.mentions [name] := by
  obtain ⟨s, solves⟩ := solvable
  refine ⟨solves_learn solves, fun name => ?_⟩
  simp only [isSome_lookup_learn solves, Ty.mentions_singleton]

/-- A name that occurs twice is learnt once; one that was not asked for stands for itself. -/
theorem learn_complete_twice :
    let pairs : List (Ty × Ty) :=
      [(.named "" "Map" [.parameter "T", .parameter "U"], .named "" "Map" [.int, .parameter "U"]),
        (.array (.parameter "T"), .array .int)]
    let s : Bindings := [("T", .int), ("V", .bool)]
    s.Solves ["T", "V"] pairs ∧ (learn ["T", "V"] [] pairs).Solves ["T", "V"] pairs ∧
      ((learn ["T", "V"] [] pairs).lookup "T").isSome ∧
      ¬ ((learn ["T", "V"] [] pairs).lookup "V").isSome := by
  intro pairs s
  have solves : s.Solves ["T", "V"] pairs :=
    ⟨fun name bound => isSome_lookup_iff.mp bound, by decide⟩
  obtain ⟨solved, learnt⟩ := learn_complete ⟨s, solves⟩
  exact ⟨solves, solved, (learnt "T").mpr (by decide), mt (learnt "V").mp (by decide)⟩

end Bindings

namespace Table

variable {t : Table} {c : Candidate} {s : Signature}

/-! ### Bindings of two kinds -/

/-- What the type parameters of a method's type stand for does not speak of those of the method. -/
structure Candidate.Fresh (c : Candidate) : Prop where
  unbound : ∀ name ∈ c.method.typeParameters, c.receiver.lookup name = none
  absent : ∀ name image, c.receiver.lookup name = some image →
    image.mentions c.method.typeParameters = false

theorem Candidate.bindings?_eq_learn (observed : List (Ty × Ty)) : c.bindings? [] observed =
    some (Bindings.learn c.method.typeParameters []
      (observed.map fun p => (p.1.substitute c.receiver, p.2)) ++ c.receiver) := by
  simp [bindings?, Bindings.learn, List.foldl_map]

/-- Bindings of the method's own type parameters can be put in after those of its type. -/
theorem Candidate.Fresh.substitute_append (fresh : c.Fresh) {b : Bindings}
    (within : ∀ name, (b.lookup name).isSome → name ∈ c.method.typeParameters) (type : Ty) :
    type.substitute (b ++ c.receiver) = (type.substitute c.receiver).substitute b := by
  rw [Ty.substitute_substitute]
  refine Ty.substitute_eq_substitute_iff.mpr fun name _ => ?_
  rw [Ty.substitute_parameter, Ty.substitute_parameter, List.lookup_append, Bindings.lookup_andThen]
  by_cases own : name ∈ c.method.typeParameters
  · rw [fresh.unbound name own, Option.or_none, Option.map_none, Option.none_or]
  · rw [Option.not_isSome_iff_eq_none.mp (mt (within name) own), Option.none_or, Option.or_none]
    cases found : c.receiver.lookup name with
    | none => rfl
    | some image =>
        have foreign : ∀ n ∈ image.parameters, b.lookup n = none := fun n occurs => by
          refine Option.not_isSome_iff_eq_none.mp fun bound => ?_
          exact Ty.mentions_eq_false_iff.mp (fresh.absent name image found) n (within n bound) occurs
        rw [Option.map_some, Ty.substitute_of_foreign foreign]

/-- Bindings of a method's type parameters put on top of those of its type are all that it takes. -/
theorem Candidate.substitute_part {b : Bindings}
    (above : b.Extends c.receiver c.method.typeParameters) (type : Ty) :
    type.substitute (b.part c.method.typeParameters ++ c.receiver) = type.substitute b := by
  refine Ty.substitute_eq_substitute_iff.mpr fun name _ => ?_
  rw [Ty.substitute_parameter, List.lookup_append, Bindings.lookup_part]
  by_cases own : name ∈ c.method.typeParameters
  · rw [if_pos own, Option.some_or, Option.getD_some]
  · rw [if_neg own, Option.none_or, ← above.base name own, Ty.substitute_parameter]

/-! ### Where any reference is returned -/

/-- The common base of all types has no arguments, so a declared type is learnt from it as a whole
or not at all. -/
theorem unify_object (names : List String) (declared : Ty) (b : Bindings) :
    (∃ name ∈ names, declared = .parameter name ∧ b.lookup name = none ∧
      declared.unify names .object b = (name, .object) :: b) ∨
    declared.unify names .object b = b ∧
      ∀ name ∈ names, declared = .parameter name → (b.lookup name).isSome := by
  cases declared with
  | void => exact .inr ⟨rfl, by simp⟩
  | array _ => exact .inr ⟨rfl, by simp⟩
  | named space name args =>
      refine .inr ⟨?_, by simp⟩
      rw [Ty.object, Ty.system, Ty.unify]
      split
      · next same =>
        rw [List.eq_nil_of_length_eq_zero same.2.2]
        rfl
      · rfl
  | parameter name =>
      rw [Ty.unify]
      by_cases asked : name ∈ names
      · rw [if_pos (List.contains_iff_mem.mpr asked)]
        cases known : b.lookup name with
        | none => exact .inl ⟨name, asked, rfl, known, rfl⟩
        | some type =>
            refine .inr ⟨rfl, fun n _ same => ?_⟩
            cases same
            exact Option.isSome_of_eq_some known
      · rw [if_neg (by simpa using asked)]
        refine .inr ⟨rfl, fun n member same => ?_⟩
        cases same
        exact absurd member asked

/-- Unless a type is a type parameter, it shows itself whether its values are references. -/
theorem reference_substitute {type : Ty} (b b' : Bindings) (shown : ∀ name, type ≠ .parameter name) :
    t.Reference (type.substitute b) ↔ t.Reference (type.substitute b') := by
  cases type with
  | void => rfl
  | named space name args => simp [Reference, Ty.substitute_named, TypeKey.of?]
  | parameter name => exact absurd rfl (shown name)
  | array element => simp [Reference, Ty.substitute_array]

/-- Where any reference may be returned, a declared return type may be learnt from that as well. It
takes nothing away from what the parameters taught, and what is returned then still fits. -/
theorem learn_object {names : List String} {pairs : List (Ty × Ty)} {b : Bindings} {declared : Ty}
    (solves : b.Solves names pairs) (reference : t.Reference (declared.substitute b)) :
    let new := Bindings.learn names [] (pairs ++ [(declared, .object)])
    new.Solves names pairs ∧
      (declared.substitute new = .object ∨ t.Reference (declared.substitute new)) := by
  intro new
  have known := Bindings.solves_learn solves
  have last : new = declared.unify names .object (Bindings.learn names [] pairs) := by
    simp [new, Bindings.learn]
  rw [last]
  rcases unify_object names declared (Bindings.learn names [] pairs) with
    ⟨name, asked, rfl, free, learnt⟩ | ⟨kept, bound⟩
  · rw [learnt]
    refine ⟨⟨fun n bound => ?_, fun pair member => ?_⟩, .inl ?_⟩
    · rcases List.mem_cons.mp (Bindings.isSome_lookup_iff.mp bound) with rfl | old
      · exact asked
      · exact known.within n (Bindings.isSome_lookup_iff.mpr old)
    · rw [← known.maps pair member]
      refine Ty.substitute_eq_substitute_iff.mpr fun n occurs => ?_
      have other : n ≠ name := by
        rintro rfl
        have taught := (Bindings.isSome_lookup_learn solves).mpr ⟨asked, pair, member, occurs⟩
        rw [free] at taught
        cases taught
      rw [Ty.substitute_parameter, Ty.substitute_parameter, List.lookup_cons,
        beq_eq_false_iff_ne.mpr other]
    · simp [Ty.substitute_parameter]
  · rw [kept]
    refine ⟨known, .inr ?_⟩
    cases declared with
    | parameter n => rwa [Bindings.substitute_learn solves fun asked => bound n asked rfl]
    | _ => exact (reference_substitute b _ (by simp)).mp reference

/-! ### Methods with type parameters of their own -/

def Candidate.matched (c : Candidate) (s : Signature) : List (Ty × Ty) :=
  (c.method.parameters.zip s.parameters).map fun (p, q) => (p.type.substitute c.receiver, q.type)

theorem Candidate.fits_append_iff (fresh : c.Fresh) {b : Bindings}
    (within : ∀ name, (b.lookup name).isSome → name ∈ c.method.typeParameters) :
    c.Fits t s (b ++ c.receiver) ↔ c.method.parameters.length = s.parameters.length ∧
      b.Solves c.method.typeParameters (c.matched s) ∧
      ((c.method.returns.substitute c.receiver).substitute b = s.returns ∨
        s.returns = .object ∧
          t.Reference ((c.method.returns.substitute c.receiver).substitute b)) := by
  have put := fresh.substitute_append within
  constructor
  · rintro ⟨parameters, returns⟩
    obtain ⟨counted, each⟩ := List.forall₂_iff_zip.mp parameters
    rw [put] at returns
    refine ⟨counted, ⟨within, ?_⟩, returns⟩
    rw [matched, List.forall_mem_map]
    exact fun pair member => (put pair.1.type).symm.trans (each member)
  · rintro ⟨counted, solves, returns⟩
    rw [← put] at returns
    refine ⟨List.forall₂_iff_zip.mpr ⟨counted, fun member => ?_⟩, returns⟩
    exact (put _).trans (solves.maps _ (List.mem_map_of_mem member))

/-- Where type arguments are not given, a method stands for a delegate exactly if some types for its
type parameters make it fit. -/
theorem candidateConverts_iff_fits {g : MethodGroup} (inferred : g.typeArguments = [])
    (fresh : c.Fresh) : t.candidateConverts g s c ↔
      ∃ b : Bindings, b.Extends c.receiver c.method.typeParameters ∧ c.Fits t s b := by
  refine ⟨candidateConverts_fits, fun ⟨b, above, fits⟩ => ?_⟩
  have within (name : String) (bound : ((b.part c.method.typeParameters).lookup name).isSome) :
      name ∈ c.method.typeParameters := by
    rw [Bindings.lookup_part] at bound
    exact Option.isSome_ite.mp bound
  obtain ⟨counted, solves, returns⟩ :=
    (Candidate.fits_append_iff fresh within).mp (fits.congr (Candidate.substitute_part above))
  have pairs : (c.observed s).map (fun p => (p.1.substitute c.receiver, p.2)) =
      c.matched s ++ [(c.method.returns.substitute c.receiver, s.returns)] := by
    simp [Candidate.observed, Candidate.matched]
  rw [candidateConverts_iff, inferred]
  refine ⟨_, Candidate.bindings?_eq_learn _, ?_⟩
  rw [pairs]
  rcases returns with same | ⟨root, reference⟩
  · have all : (b.part c.method.typeParameters).Solves c.method.typeParameters
        (c.matched s ++ [(c.method.returns.substitute c.receiver, s.returns)]) :=
      ⟨within, List.forall_mem_append.mpr ⟨solves.maps, by simpa using same⟩⟩
    have learnt := Bindings.solves_learn all
    refine (Candidate.fits_append_iff fresh learnt.within).mpr ⟨counted, ⟨learnt.within, ?_⟩, .inl ?_⟩
    · exact fun pair member => learnt.maps pair (List.mem_append_left _ member)
    · exact learnt.maps _ (List.mem_append_right _ (List.mem_singleton_self _))
  · obtain ⟨learnt, fits⟩ := learn_object solves reference
    rw [← root] at learnt fits
    exact (Candidate.fits_append_iff fresh learnt.within).mpr
      ⟨counted, learnt, fits.imp_right fun shown => ⟨root, shown⟩⟩

/-- The type parameter of the method is hidden by one of the same name in its type, which stands for
another type than the delegate takes. -/
example :
    let c : Candidate := ⟨⟨"F", ["T"], [⟨"x", .parameter "T"⟩], .void, false⟩, [("T", .int)]⟩
    let s : Signature := ⟨[⟨"x", .bool⟩], .void⟩
    (⟨[], []⟩ : Table).candidateConverts ⟨[c], []⟩ s c = false := by
  decide

/-- Where type arguments are not given, a method group has the delegate type that is asked for
exactly if one of the methods fits it with some types for its type parameters. -/
theorem typeOf?_methods_iff {n : Node} {g : MethodGroup} {type : Ty}
    (group : t.denotes (n.memberAccessOfName?.getD n) = some (.methods g))
    (inferred : g.typeArguments = []) (fresh : ∀ c ∈ g.candidates, c.Fresh) :
    t.typeOf? n = some type ↔ t.target (n.memberAccessOfName?.getD n) = some type ∧
      ∃ s, t.Delegate type s ∧ ∃ c ∈ g.candidates, ∃ b : Bindings,
        b.Extends c.receiver c.method.typeParameters ∧ c.Fits t s b := by
  rw [typeOf?_methods group, converts_methods_iff]
  refine and_congr_right fun _ => exists_congr fun s => and_congr_right fun _ => ?_
  exact exists_congr fun c => and_congr_right fun listed =>
    candidateConverts_iff_fits inferred (fresh c listed)

end Table
end SharpRefactor
