import SharpRefactor.Syntax.Parse
import SharpRefactor.Types.Evaluate

/-!
Local names and their declarations. The declarations that can give a name its meaning stand in an
order, the innermost first, which does not depend on whether their types are known. The look-up
takes the first one with a known type: a declaration whose type cannot be resolved does not hide
what is outside of it.
-/

namespace SharpRefactor

inductive LocalDeclaration where
  | variable (statement : Node)
  | functionParameter (function : Node)
  | parameter (owner parameter : Node)
  | accessorValue (accessor : Node)
  deriving DecidableEq

namespace Node

def declaresVariable (name : String) (statement : Node) : Bool :=
  statement.variables?.any fun declaration => declaration.declarators.any (·.declares name)

def bindsParameter (name : String) (offset : Nat) (function : Node) : Bool :=
  function.functionParts?.any fun (parameters, body) =>
    body.range.contains offset && parameters.any (·.declares name)

def takesValue (accessor : Node) : Bool :=
  accessor.accessorWord?.any (["set", "add", "remove"].contains ·)

/-- The declarations of a name that is read at an offset, among the nodes around it; the innermost
comes first. Beyond the parameters of a method and beyond a type nothing is local. -/
def localDeclarations (name : String) (offset : Nat) : List Node → List LocalDeclaration
  | [] => []
  | a :: outer =>
    match a.kind with
    | .block =>
      ((Table.earlierLocals offset a).filter (·.declaresVariable name)).map .variable ++
        localDeclarations name offset outer
    | .simpleLambdaExpression | .parenthesizedLambdaExpression | .anonymousMethodExpression =>
      (if a.bindsParameter name offset then [.functionParameter a] else []) ++
        localDeclarations name offset outer
    | .methodDeclaration | .constructorDeclaration =>
      match a.parameterList? with
      | none => []
      | some list =>
        match list.parameters.find? (·.declares name) with
        | some p => [.parameter a p]
        | none => localDeclarations name offset outer
    | .accessorDeclaration =>
      (if name = "value" ∧ a.takesValue then [.accessorValue a] else []) ++
        localDeclarations name offset outer
    | .classDeclaration | .structDeclaration | .interfaceDeclaration => []
    | _ => localDeclarations name offset outer

end Node

namespace Table

variable {t : Table} {j : Judge} {name : String} {offset : Nat}

def given? (t : Table) (j : Judge) (name : String) (offset : Nat) : LocalDeclaration → Option Ty
  | .variable statement => t.localType? j name statement
  | .functionParameter function => t.functionParameter? j name offset function
  | .parameter owner parameter => parameter.declaredType?.bind (t.resolve (.around owner))
  | .accessorValue accessor => t.accessorValue? accessor

def globalType? (t : Table) (n : Node) (name : String) : Option Ty :=
  match t.globalOf? (.around n) name [] with
  | some (.value type) | some (.type type) => some type
  | some (.methods g) => (t.target n).filter (t.converts (.methods g))
  | some .function => (t.target n).filter (t.converts .function)
  | some (.space _) | none => none

/-! ### Each kind of declaration -/

theorem localType?_of_not_declaresVariable {statement : Node}
    (other : statement.declaresVariable name = false) : t.localType? j name statement = none := by
  cases declared : statement.variables? with
  | none => simp [localType?, declared]
  | some declaration =>
      have absent : declaration.declarators.find? (·.declares name) = none := by
        simpa [Node.declaresVariable, declared] using other
      simp [localType?, declared, absent]

theorem findSome?_localType? (statements : List Node) :
    statements.findSome? (t.localType? j name) =
      ((statements.filter (·.declaresVariable name)).map .variable).findSome?
        (t.given? j name offset) := by
  induction statements with
  | nil => rfl
  | cons statement statements ih =>
      cases declares : statement.declaresVariable name with
      | true => simp only [declares, List.filter_cons_of_pos, List.map_cons, List.findSome?_cons, ih,
          given?]
      | false => simp [declares, ih, localType?_of_not_declaresVariable declares]

theorem functionParameter?_of_not_bindsParameter {function : Node}
    (other : function.bindsParameter name offset = false) :
    t.functionParameter? j name offset function = none := by
  cases parts : function.functionParts? with
  | none => simp [functionParameter?, parts]
  | some parts_ =>
      obtain ⟨parameters, body⟩ := parts_
      cases inside : body.range.contains offset with
      | false => simp [functionParameter?, parts, inside]
      | true =>
          have absent : parameters.findIdx? (·.declares name) = none := by
            simpa [Node.bindsParameter, parts, inside, List.findIdx?_eq_none_iff] using other
          simp [functionParameter?, parts, inside, absent]

theorem accessorValue?_of_not_takesValue {accessor : Node} (other : accessor.takesValue = false) :
    t.accessorValue? accessor = none := by
  cases word : accessor.accessorWord? with
  | none => simp [accessorValue?, word]
  | some w =>
      have plain : ["set", "add", "remove"].contains w = false := by
        simpa [Node.takesValue, word] using other
      simp only [accessorValue?, word, plain, Option.bind_eq_bind, Option.bind_some]
      rfl

/-! ### The look-up -/

/-- A declaration that is there under a condition, without which it gives no type. -/
theorem findSome?_declared {c : Prop} [Decidable c] {d : LocalDeclaration}
    (absent : ¬ c → t.given? j name offset d = none) (outer : List LocalDeclaration) :
    ((if c then [d] else []) ++ outer).findSome? (t.given? j name offset) =
      (t.given? j name offset d <|> outer.findSome? (t.given? j name offset)) := by
  rw [List.findSome?_append, Option.orElse_eq_orElse, Option.orElse_eq_or]
  by_cases there : c
  · rw [if_pos there, List.findSome?_singleton]
  · rw [if_neg there, absent there]
    rfl

/-- A local name has the first type that one of its declarations gives. -/
theorem localIn_eq_findSome? (around : List Node) :
    t.localIn j name offset around =
      (Node.localDeclarations name offset around).findSome? (t.given? j name offset) := by
  induction around with
  | nil => rfl
  | cons a outer ih =>
      unfold localIn Node.localDeclarations
      split
      case h_1 kind =>
        try simp only [kind]
        rw [List.findSome?_append, ← findSome?_localType?, ← ih]
        exact Option.orElse_eq_or
      case h_2 kind | h_3 kind | h_4 kind =>
        try simp only [kind]
        rw [findSome?_declared, ← ih]
        · rfl
        · intro other
          exact functionParameter?_of_not_bindsParameter (Bool.of_not_eq_true other)
      case h_5 kind | h_6 kind =>
        try simp only [kind]
        cases a.parameterList? with
        | none => rfl
        | some list =>
            dsimp only
            cases list.parameters.find? (·.declares name) with
            | none => exact ih
            | some p => exact List.findSome?_singleton.symm
      case h_7 kind =>
        try simp only [kind]
        by_cases value : name = "value"
        · simp only [value, true_and, if_true]
          rw [findSome?_declared, ← value, ← ih]
          · rfl
          · intro other
            exact accessorValue?_of_not_takesValue (Bool.of_not_eq_true other)
        · simp [value, ih]
      case h_8 | h_9 | h_10 => simp [*]
      case h_11 => simp [*]

/-! ### Names that are read -/

/-- What the type of a name that is read as a value comes from. -/
theorem typeOf?_name {n : Node} (kind : n.kind = .identifierName) (read : n.isTypeSyntax = false)
    (simple : n.memberAccessOfName? = none) (named : t.simpleName? n = some (name, [])) :
    t.typeOf? n =
      ((Node.localDeclarations name n.start n.ancestors.tail).findSome?
        (t.given? (t.judge (maxDepth - 1)) name n.start) <|> t.globalType? n name) := by
  have denotes : t.denotes n =
      ((t.localOf? (t.judge (maxDepth - 1)) n name).map .value <|>
        t.globalOf? (.around n) name []) := by
    change t.denotesWith (t.judge (maxDepth - 1)) n = _
    simp only [denotesWith, kind, read, denotesName, named, Option.bind_eq_bind, Option.bind_some]
    cases t.localOf? (t.judge (maxDepth - 1)) n name with
    | some type => rfl
    | none => rfl
  rw [← localIn_eq_findSome?]
  change _ = (t.localOf? (t.judge (maxDepth - 1)) n name <|> _)
  rw [typeOf?, simple, Option.getD_none]
  simp only [denotes]
  cases t.localOf? (t.judge (maxDepth - 1)) n name with
  | some type => rfl
  | none => rfl

/-- A name that has a local declaration never has the type of anything but the innermost one exactly
if the type of the innermost one is known, or nothing outside of it gives the name a type. -/
theorem typeOf?_innermost_iff {n : Node} {d : LocalDeclaration} {outer : List LocalDeclaration}
    (kind : n.kind = .identifierName) (read : n.isTypeSyntax = false)
    (simple : n.memberAccessOfName? = none) (named : t.simpleName? n = some (name, []))
    (declared : Node.localDeclarations name n.start n.ancestors.tail = d :: outer) :
    let given := t.given? (t.judge (maxDepth - 1)) name n.start
    (∀ type, t.typeOf? n = some type → given d = some type) ↔
      (given d).isSome ∨ ((∀ e ∈ outer, given e = none) ∧ t.globalType? n name = none) := by
  intro given
  have typed : t.typeOf? n = (given d <|> (outer.findSome? given <|> t.globalType? n name)) := by
    rw [typeOf?_name kind read simple named, declared, List.findSome?_cons]
    cases found : given d with
    | some type => simp [given, found]
    | none => simp [given, found]
  rw [typed]
  cases given d with
  | some type => simp
  | none =>
      cases outside : outer.findSome? given with
      | some type =>
          obtain ⟨e, member, found⟩ := List.exists_of_findSome?_eq_some outside
          have known : ¬ ∀ e ∈ outer, given e = none := fun unknown => by
            rw [unknown e member] at found
            cases found
          simp [known]
      | none =>
          rw [List.findSome?_eq_none_iff] at outside
          cases t.globalType? n name with
          | some type => simp
          | none => simpa using outside

/-- The local variable hides the field of the same name. -/
theorem typeOf?_innermost_string :
    let root := Node.root (parse "class C\x7bint x;void M()\x7bstring x=null;N(x);\x7d\x7d").root
    let n := root.atOffset 39
    let statement := root.atOffset 36
    let t := ofRoot root
    (n.kind = .identifierName ∧ n.isTypeSyntax = false ∧ n.memberAccessOfName? = none ∧
      t.simpleName? n = some ("x", []) ∧
      Node.localDeclarations "x" n.start n.ancestors.tail = [.variable statement]) ∧
    ∀ type, t.typeOf? n = some type →
      t.given? (t.judge (maxDepth - 1)) "x" n.start (.variable statement) = some type := by
  intro root n statement t
  have shape : (n.kind = .identifierName ∧ n.isTypeSyntax = false ∧ n.memberAccessOfName? = none ∧
      t.simpleName? n = some ("x", []) ∧
      Node.localDeclarations "x" n.start n.ancestors.tail = [.variable statement]) ∧
      (t.given? (t.judge (maxDepth - 1)) "x" n.start (.variable statement)).isSome := by
    decide +kernel
  obtain ⟨facts, known⟩ := shape
  obtain ⟨kind, read, simple, named, declared⟩ := facts
  exact ⟨⟨kind, read, simple, named, declared⟩,
    (typeOf?_innermost_iff kind read simple named declared).mpr (.inl known)⟩

/-- A local variable of an unknown type does not hide the field. -/
theorem typeOf?_unknown_local :
    let root := Node.root (parse "class C\x7bint x;void M()\x7bUnknown x=null;N(x);\x7d\x7d").root
    let n := root.atOffset 40
    let t := ofRoot root
    (parse "class C\x7bint x;void M()\x7bUnknown x=null;N(x);\x7d\x7d").errors = [] ∧
      (Node.localDeclarations "x" n.start n.ancestors.tail).map
        (t.given? (t.judge (maxDepth - 1)) "x" n.start) = [none] ∧
      t.typeOf? n = some (.system "Int32") := by
  decide +kernel

end Table
end SharpRefactor
