import SharpRefactor.Proofs.Types.Bounded.Queries

/-!
What a node denotes, from one judge to another that repeats what the answer is made of and does not
differ in what is tried.
-/

namespace SharpRefactor
namespace Table

variable {t : Table} {j j' : Judge} {n : Node}

theorem localType?_same {name : String} {statement : Node}
    (tried : ∀ q, (LocalDeclaration.variable statement).basis? name = some q → j.Same j' q) :
    t.localType? j' name statement = t.localType? j name statement := by
  cases declared : statement.variables? with
  | none => simp [localType?, declared]
  | some declaration =>
    cases found : declaration.declarators.find? (·.declares name) with
    | none => simp [localType?, declared, found]
    | some declarator =>
      cases typed : declaration.declaredType? with
      | none => simp [localType?, declared, found, typed]
      | some type =>
        simp only [localType?, declared, found, typed, Option.bind_eq_bind, Option.bind_some]
        cases t.resolve (.around statement) type with
        | some resolved => rfl
        | none =>
          cases var : type.isVar with
          | false => rfl
          | true =>
            simp only [if_true]
            cases clause : declarator.initializer? with
            | none => rfl
            | some clause' =>
              cases value : clause'.firstChild? with
              | none => simp [value]
              | some m =>
                simp only [Option.bind_some, value]
                refine (tried (.meaning m) ?_).valueType
                simp [LocalDeclaration.basis?, Node.initialValue?, declared, found, typed, var, clause,
                  value]

theorem functionParameter?_same {name : String} {offset : Nat} {function : Node}
    (tried : ∀ q, (LocalDeclaration.functionParameter function).basis? name = some q → j.Same j' q) :
    t.functionParameter? j' name offset function = t.functionParameter? j name offset function := by
  cases parts : function.functionParts? with
  | none => simp [functionParameter?, parts]
  | some parts_ =>
      obtain ⟨parameters, body⟩ := parts_
      simp only [functionParameter?, parts, Option.bind_eq_bind, Option.bind_some]
      split
      · rfl
      · cases parameters.findIdx? (·.declares name) with
        | none => rfl
        | some i =>
            simp only [Option.bind_some]
            cases listed : parameters[i]? with
            | none => rfl
            | some p =>
                simp only [Option.bind_some]
                cases typed : p.declaredType? with
                | some type => rfl
                | none =>
                    have left : function.leavesOpen := by
                      simp only [Node.leavesOpen, parts, Option.any_some, List.any_eq_true]
                      exact ⟨p, List.mem_of_getElem? listed, by simp [typed]⟩
                    have same : j'.target function = j.target function :=
                      tried (.target function) (by simp [LocalDeclaration.basis?, left])
                    simp only [same]

theorem localOf?_same {name : String} (kind : n.kind = .identifierName ∨ n.kind = .genericName)
    (named : t.simpleName? n = some (name, []))
    (tried : ∀ q ∈ (Query.meaning n).tries t, j.Same j' q) :
    t.localOf? j' n name = t.localOf? j n name := by
  rw [localOf?, localOf?, localIn_eq_findSome?, localIn_eq_findSome?, ← List.head?_filterMap,
    ← List.head?_filterMap]
  refine congrArg List.head? (List.filterMap_congr fun d declared => ?_)
  have basis : ∀ q, d.basis? name = some q → j.Same j' q :=
    fun q basis => tried q (Query.basis_mem_tries kind named declared basis)
  cases d with
  | «variable» statement => exact localType?_same basis
  | functionParameter function => exact functionParameter?_same basis
  | parameter owner parameter => rfl
  | accessorValue accessor => rfl

theorem denotesName_same (kind : n.kind = .identifierName ∨ n.kind = .genericName)
    (tried : ∀ q ∈ (Query.meaning n).tries t, j.Same j' q) :
    t.denotesName j' n = t.denotesName j n := by
  cases named : t.simpleName? n with
  | none => simp [denotesName, named]
  | some found =>
      obtain ⟨name, typeArguments⟩ := found
      simp only [denotesName, named, Option.bind_eq_bind, Option.bind_some]
      cases typeArguments with
      | nil => rw [localOf?_same kind named tried]
      | cons a as => rfl

theorem denotesAccess_extended {d : Denotation} (kind : n.kind = .memberAccessExpression)
    (needed : ∀ q ∈ (Query.meaning n).needs, j.Extended j' q) (found : t.denotesAccess j n = some d) :
    t.denotesAccess j' n = some d := by
  simp only [denotesAccess, Option.bind_eq_bind, Option.bind_eq_some_iff] at found ⊢
  obtain ⟨receiver, first, right, second, named, name, d', denoted, found⟩ := found
  have led : n.kind.isLedByFirst := by rw [kind]; rfl
  exact ⟨receiver, first, right, second, named, name, d',
    needed _ (Query.first_mem_needs led first) d' denoted, found⟩

theorem denotesCall_extended {d : Denotation} (kind : n.kind = .invocationExpression)
    (needed : ∀ q ∈ (Query.meaning n).needs, j.Extended j' q)
    (tried : ∀ q ∈ (Query.meaning n).tries t, j.Same j' q) (found : t.denotesCall j n = some d) :
    t.denotesCall j' n = some d := by
  simp only [denotesCall, Option.bind_eq_bind, Option.bind_eq_some_iff] at found ⊢
  obtain ⟨list, arguments, callee, first, d', denoted, found⟩ := found
  have led : n.kind.isLedByFirst := by rw [kind]; rfl
  have known : list.argumentExpressions.map j'.valueType =
      list.argumentExpressions.map j.valueType := by
    refine List.map_congr_left fun m member => (tried (.meaning m) ?_).valueType
    simpa [Query.tries, kind, arguments] using member
  refine ⟨list, arguments, callee, first, d', needed _ (Query.first_mem_needs led first) d' denoted, ?_⟩
  rw [known]
  exact found

theorem binaryType?_extended {type : Ty} (kind : n.kind = .binaryExpression)
    (needed : ∀ q ∈ (Query.meaning n).needs, j.Extended j' q)
    (tried : ∀ q ∈ (Query.meaning n).tries t, j.Same j' q) (found : binaryType? j n = some type) :
    binaryType? j' n = some type := by
  have left : ∀ {type}, n.firstChild?.bind j.valueType = some type →
      n.firstChild?.bind j'.valueType = some type := by
    intro type found
    obtain ⟨m, first, typed⟩ := Option.bind_eq_some_iff.mp found
    have led : n.kind.isLedByFirst := by rw [kind]; rfl
    exact Option.bind_eq_some_iff.mpr
      ⟨m, first, (needed _ (Query.first_mem_needs led first)).valueType typed⟩
  have right : n.secondChild?.bind j'.valueType = n.secondChild?.bind j.valueType :=
    Option.bind_congr fun m second =>
      (tried (.meaning m) (by simp [Query.tries, kind, second])).valueType
  simp only [binaryType?, Option.bind_eq_bind, Option.bind_eq_some_iff, right] at found ⊢
  obtain ⟨op, sign, found⟩ := found
  refine ⟨op, sign, ?_⟩
  split at found
  · next comparison => rwa [if_pos comparison]
  · next other =>
    rw [if_neg other]
    split at found
    · next plus =>
      rw [if_pos plus]
      cases known : n.firstChild?.bind j.valueType with
      | some left' => rwa [left known, ← known]
      | none =>
          -- Without a left operand the sum is a string, whatever the left operand turns out to be.
          simp only [known] at found
          split at found
          · next string =>
            cases found
            have string : n.secondChild?.bind j.valueType = some .string := by simpa using string
            simp [string]
          · cases found
    · next other =>
      rw [if_neg other]
      exact left found

theorem denotesWith_extended {d : Denotation} (needed : ∀ q ∈ (Query.meaning n).needs, j.Extended j' q)
    (tried : ∀ q ∈ (Query.meaning n).tries t, j.Same j' q) (found : t.denotesWith j n = some d) :
    t.denotesWith j' n = some d := by
  have value : ∀ {d}, n.kind.isLedByFirst →
      (n.firstChild?.bind j.valueType).map Denotation.value = some d →
        (n.firstChild?.bind j'.valueType).map Denotation.value = some d := by
    intro d led found
    obtain ⟨type, typed, rfl⟩ := Option.map_eq_some_iff.mp found
    obtain ⟨m, first, typed⟩ := Option.bind_eq_some_iff.mp typed
    simp [first, (needed _ (Query.first_mem_needs led first)).valueType typed]
  unfold denotesWith at found ⊢
  cases kind : n.kind <;> simp only [kind] at found ⊢
  case identifierName => rwa [denotesName_same (.inl kind) tried]
  case genericName => rwa [denotesName_same (.inr kind) tried]
  case memberAccessExpression => exact denotesAccess_extended kind needed found
  case invocationExpression => exact denotesCall_extended kind needed tried found
  case parenthesizedExpression =>
    obtain ⟨m, first, denoted⟩ := Option.bind_eq_some_iff.mp found
    have led : n.kind.isLedByFirst := by rw [kind]; rfl
    exact Option.bind_eq_some_iff.mpr ⟨m, first, needed _ (Query.first_mem_needs led first) d denoted⟩
  case assignmentExpression | postfixUnaryExpression => exact value (by rw [kind]; rfl) found
  case prefixUnaryExpression =>
    split at found
    · next negation => rwa [if_pos negation]
    · next other =>
      rw [if_neg other]
      exact value (by rw [kind]; rfl) found
  case binaryExpression =>
    obtain ⟨type, typed, rfl⟩ := Option.map_eq_some_iff.mp found
    rw [binaryType?_extended kind needed tried typed]
    rfl
  all_goals exact found

end Table
end SharpRefactor
