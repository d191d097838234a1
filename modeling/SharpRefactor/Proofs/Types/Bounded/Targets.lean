import SharpRefactor.Proofs.Types.Bounded.Queries

/-!
What a node is asked for, from one judge to another that repeats what the answer is made of and does
not differ in what is tried.
-/

namespace SharpRefactor
namespace Table

variable {t : Table} {j j' : Judge} {n : Node}

theorem argumentTargets_same (g : MethodGroup) {arguments : List Node} {i : Nat}
    (known : ∀ m k, (m, k) ∈ arguments.zipIdx → k ≠ i → j'.valueType m = j.valueType m) :
    argumentTargets j' g arguments i = argumentTargets j g arguments i := by
  -- the types of the other arguments are all that is asked for
  have observed (c : Candidate) : ((c.method.parameters.zip arguments).zipIdx.filterMap fun pair =>
      if pair.2 = i then none else (j'.valueType pair.1.2).map (pair.1.1.type, ·)) =
      (c.method.parameters.zip arguments).zipIdx.filterMap fun pair =>
        if pair.2 = i then none else (j.valueType pair.1.2).map (pair.1.1.type, ·) := by
    refine List.filterMap_congr fun pair member => ?_
    by_cases own : pair.2 = i
    · simp [own]
    · have listed : (pair.1.2, pair.2) ∈ arguments.zipIdx := by
        rw [List.mem_zipIdx_iff_getElem?] at member ⊢
        exact (List.getElem?_zip_eq_some.mp member).2
      simp only [own, if_false, known _ _ listed own]
  simp only [argumentTargets, observed]

theorem argumentTarget?_extended {argument : Node} {type : Ty}
    (up : n.outermost.parent? = some argument) (kind : argument.kind = .argument)
    (needed : ∀ q ∈ (Query.target n).needs, j.Extended j' q)
    (tried : ∀ q ∈ (Query.target n).tries t, j.Same j' q)
    (found : t.argumentTarget? j argument n.outermost = some type) :
    t.argumentTarget? j' argument n.outermost = some type := by
  simp only [argumentTarget?, Option.bind_eq_bind, Option.bind_eq_some_iff] at found ⊢
  obtain ⟨list, inside, i, number, owner, called, found⟩ := found
  refine ⟨list, inside, i, number, owner, called, ?_⟩
  split at found
  · simp only [Option.bind_eq_some_iff] at found ⊢
    obtain ⟨callee, first, d, denoted, found⟩ := found
    have asked : .meaning callee ∈ (Query.target n).needs := by
      simp [Query.needs, up, kind, Node.grandparent?, inside, called, first]
    refine ⟨callee, first, d, needed _ asked d denoted, ?_⟩
    cases d with
    | methods group =>
        have asked : argumentTargets j' group list.argumentExpressions i =
            argumentTargets j group list.argumentExpressions i :=
          argumentTargets_same group fun m k member other =>
            (tried _ (Query.other_mem_tries up kind inside number member other)).valueType
        unfold groupTarget? at found ⊢
        dsimp only at found ⊢
        rw [asked]
        split at found
        · exact found
        · exact found
        · obtain ⟨own, denoted, found⟩ := Option.bind_eq_some_iff.mp found
          have asked : .meaning n.outermost ∈ (Query.target n).needs := by
            simp [Query.needs, up, kind]
          exact Option.bind_eq_some_iff.mpr ⟨own, needed _ asked own denoted, found⟩
    | value _ | type _ | space _ | function => exact found
  · exact found
  · exact found

theorem returns_extended {function : Node} {type : Ty} (extended : j.Extended j' (.target function))
    (found : ((j.target function).bind t.signatureOf?).map (·.returns) = some type) :
    ((j'.target function).bind t.signatureOf?).map (·.returns) = some type := by
  obtain ⟨signature, called, rfl⟩ := Option.map_eq_some_iff.mp found
  obtain ⟨asked, target, called⟩ := Option.bind_eq_some_iff.mp called
  simp [extended asked target, called]

theorem returnIn_extended {around : List Node} {type : Ty}
    (needed : ∀ a ∈ around, a.kind.isFunction → j.Extended j' (.target a))
    (found : t.returnIn j around = some type) : t.returnIn j' around = some type := by
  induction around with
  | nil => exact found
  | cons a outer ih =>
      replace ih := ih fun b later => needed b (List.mem_cons_of_mem a later)
      have own : a.kind.isFunction → j.Extended j' (.target a) := needed a List.mem_cons_self
      unfold returnIn at found ⊢
      cases kind : a.kind <;> simp only [kind] at found ⊢ <;> try first | exact found | exact ih found
      case simpleLambdaExpression | parenthesizedLambdaExpression | anonymousMethodExpression =>
        exact returns_extended (own (by rw [kind]; rfl)) found
      case accessorDeclaration =>
        split at found
        · next getter =>
          rw [if_pos getter]
          exact ih found
        · cases found

theorem targetWith_extended {type : Ty} (needed : ∀ q ∈ (Query.target n).needs, j.Extended j' q)
    (tried : ∀ q ∈ (Query.target n).tries t, j.Same j' q) (found : t.targetWith j n = some type) :
    t.targetWith j' n = some type := by
  simp only [targetWith, Option.bind_eq_bind, Option.bind_eq_some_iff] at found ⊢
  obtain ⟨parent, up, found⟩ := found
  refine ⟨parent, up, ?_⟩
  replace up : n.outermost.parent? = some parent := up
  have kept : ∀ {asked asked' : Option Ty}, (∀ type, asked = some type → asked' = some type) →
      (asked.bind fun type => if type.isVoid then none else some type) = some type →
        (asked'.bind fun type => if type.isVoid then none else some type) = some type := by
    intro asked asked' extended found
    obtain ⟨type', asked_, kept⟩ := Option.bind_eq_some_iff.mp found
    exact Option.bind_eq_some_iff.mpr ⟨type', extended type' asked_, kept⟩
  cases kind : parent.kind <;> simp only [kind] at found ⊢ <;> try exact found
  case assignmentExpression =>
    split at found
    · next second =>
      rw [if_pos second]
      obtain ⟨left, first, found⟩ := Option.bind_eq_some_iff.mp found
      refine Option.bind_eq_some_iff.mpr ⟨left, first, kept (fun type typed => ?_) found⟩
      exact (needed _ (by simp [Query.needs, up, kind, first])).valueType typed
    · cases found
  case argument =>
    exact kept (fun type => argumentTarget?_extended up kind needed tried) found
  case returnStatement | arrowExpressionClause =>
    exact kept (fun type => returnIn_extended fun a around function =>
      needed _ (by simp [Query.needs, up, kind, around, function])) found
  case simpleLambdaExpression | parenthesizedLambdaExpression =>
    split at found
    · next second =>
      rw [if_pos second]
      exact kept (fun type => returns_extended (needed _ (by simp [Query.needs, up, kind]))) found
    · cases found

end Table
end SharpRefactor
