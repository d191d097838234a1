import SharpRefactor.Proofs.Syntax.Mandatory
import SharpRefactor.Proofs.Types.Spaces

/-!
Which declarations share a definition. A declaration is known by its key only: the names of the
namespaces and the types around it run together into one path, and the numbers of type parameters of
the types around it are dropped. So two declarations share a definition exactly if they agree in
that path, in their name and in the number of their own type parameters.
-/

namespace SharpRefactor

/-- What tells a declared type from others in the language. -/
structure TypeIdentity where
  /-- The names of the namespaces around, the outermost first. -/
  spaces : List String
  /-- The types around with the numbers of their type parameters, the outermost first. -/
  outer : List (String × Nat)
  name : String
  arity : Nat
  deriving DecidableEq

namespace TypeIdentity

def path (i : TypeIdentity) : List String := i.spaces ++ i.outer.map (·.1)

def key (i : TypeIdentity) : TypeKey := ⟨Dotted.ofSegments i.path, i.name, i.arity⟩

def within (i : TypeIdentity) (own : String × Nat) : TypeIdentity :=
  ⟨i.spaces, i.outer ++ [(i.name, i.arity)], own.1, own.2⟩

@[simp] theorem path_within (i : TypeIdentity) (own : String × Nat) :
    (i.within own).path = i.path ++ [i.name] := by
  simp [path, within]

end TypeIdentity

namespace Node

def outerTypes (n : Node) : List Node := n.ancestors.tail.filter (·.kind.isTypeDeclaration)

def nameAndArity? (n : Node) : Option (String × Nat) :=
  n.declaredWord?.map (·, n.typeParameterNames.length)

/-- The identity of the type that a node declares; the namespaces are around the outermost type. -/
def typeIdentity? (n : Node) : Option TypeIdentity := do
  let outer ← n.outerTypes.reverse.mapM nameAndArity?
  let (name, arity) ← n.nameAndArity?
  return ⟨(n.outerTypes.getLast?.getD n).spaces, outer, name, arity⟩

/-! ### The types around -/

theorem outerTypes_cons (p q : Place) (above : List Place) :
    outerTypes ⟨p, q :: above⟩ =
      if q.kind.isTypeDeclaration then ⟨q, above⟩ :: outerTypes ⟨q, above⟩
      else outerTypes ⟨q, above⟩ := by
  have here : ancestors ⟨q, above⟩ = ⟨q, above⟩ :: (ancestors ⟨q, above⟩).tail := by cases above <;> rfl
  have up : (ancestors ⟨p, q :: above⟩).tail = ancestors ⟨q, above⟩ := rfl
  rw [outerTypes, up, here, List.filter_cons]
  rfl

theorem mem_descendants_of_mem_outerTypes {t : Tree} {n : Node} (inside : n ∈ (root t).descendants) :
    ∀ a ∈ n.outerTypes, a ∈ (root t).descendants := fun a member =>
  mem_descendants_of_mem_ancestors inside a (List.mem_of_mem_tail (List.mem_filter.mp member).1)

/-- The innermost type around is nested in the other ones. -/
theorem outerTypes_of_cons {n a : Node} {rest : List Node} (around : n.outerTypes = a :: rest) :
    a.outerTypes = rest := by
  obtain ⟨p, above⟩ := n
  induction above generalizing p with
  | nil => cases around
  | cons q above ih =>
      rw [outerTypes_cons] at around
      split at around
      · obtain ⟨rfl, same⟩ := List.cons.inj around
        exact same
      · exact ih q around

/-- A type is nested in the innermost type around it. -/
theorem enclosingKey_eq (n : Node) : enclosingKey n.above = n.outerTypes.head?.map typeKey? := by
  obtain ⟨p, above⟩ := n
  induction above generalizing p with
  | nil => rfl
  | cons q above ih =>
      change enclosingKey (q :: above) = _
      rw [enclosingKey, outerTypes_cons]
      split
      · rfl
      · exact ih q

end Node

/-! ### From identities to keys -/

section Lexed

variable {t : Tree} {n : Node}

theorem Node.spaces_names (lexed : t.Lexed) (inside : n ∈ (root t).descendants) :
    ∀ w ∈ n.spaces, IsName w := by
  intro w member
  obtain ⟨header, outer, named⟩ := List.mem_flatMap.mp member
  have outer := (List.mem_filter.mp (List.mem_reverse.mp outer)).1
  exact (Scope.headerPath_isDotted lexed (mem_descendants_of_mem_ancestors inside _ outer)).segments w
    named

namespace Node

theorem nameAndArity?_name (lexed : t.Lexed) (inside : n ∈ (root t).descendants) {own : String × Nat}
    (named : n.nameAndArity? = some own) : IsName own.1 := by
  obtain ⟨w, declared, rfl⟩ := Option.map_eq_some_iff.mp named
  obtain ⟨token, found, rfl⟩ := Option.map_eq_some_iff.mp declared
  exact declaredName?_name lexed inside found

theorem typeIdentity?_of_nil (none : n.outerTypes = []) :
    n.typeIdentity? = n.nameAndArity?.map fun own => ⟨n.spaces, [], own.1, own.2⟩ := by
  rw [typeIdentity?, none]
  cases n.nameAndArity? <;> rfl

theorem typeIdentity?_own {i : TypeIdentity} (known : n.typeIdentity? = some i) :
    n.nameAndArity? = some (i.name, i.arity) := by
  obtain ⟨outer, -, known⟩ := Option.bind_eq_some_iff.mp known
  obtain ⟨own, named, known⟩ := Option.bind_eq_some_iff.mp known
  cases known
  exact named

/-- A nested type stands in the innermost type around it. -/
theorem typeIdentity?_of_cons {a : Node} {rest : List Node} (around : n.outerTypes = a :: rest) :
    n.typeIdentity? = a.typeIdentity?.bind fun i => n.nameAndArity?.map i.within := by
  have last : (a :: rest).getLast?.getD n = rest.getLast?.getD a := by
    rw [List.getLast?_cons, Option.getD_some]
  rw [typeIdentity?, typeIdentity?, outerTypes_of_cons around, around, last, List.reverse_cons,
    List.mapM_append]
  cases rest.reverse.mapM nameAndArity? with
  | none => rfl
  | some outer => cases own : a.nameAndArity? <;> cases n.nameAndArity? <;>
      simp [own, TypeIdentity.within]

theorem typeIdentity?_names (lexed : t.Lexed) (inside : n ∈ (root t).descendants) {i : TypeIdentity}
    (known : n.typeIdentity? = some i) : ∀ w ∈ i.path, IsName w := by
  induction around : n.outerTypes generalizing n i with
  | nil =>
      rw [typeIdentity?_of_nil around] at known
      obtain ⟨own, -, rfl⟩ := Option.map_eq_some_iff.mp known
      simpa [TypeIdentity.path] using spaces_names lexed inside
  | cons a rest ih =>
      have outer := mem_descendants_of_mem_outerTypes inside a (around ▸ List.mem_cons_self)
      rw [typeIdentity?_of_cons around] at known
      obtain ⟨j, container, nested⟩ := Option.bind_eq_some_iff.mp known
      obtain ⟨own, -, rfl⟩ := Option.map_eq_some_iff.mp nested
      rw [TypeIdentity.path_within, List.forall_mem_append, List.forall_mem_singleton]
      exact ⟨ih outer container (outerTypes_of_cons around),
        nameAndArity?_name lexed outer (typeIdentity?_own container)⟩

theorem keyIn_eq (n : Node) (outer : Option (Option TypeKey)) :
    n.keyIn outer = n.nameAndArity?.bind fun own =>
      match outer with
      | none => some ⟨Scope.namespaceAt n, own.1, own.2⟩
      | some none => none
      | some (some k) => some ⟨k.path, own.1, own.2⟩ := by
  rw [keyIn, nameAndArity?, declaredWord?]
  cases n.declaredName? <;> rfl

/-- The key of a declared type is that of its identity. -/
theorem typeKey?_eq (lexed : t.Lexed) (inside : n ∈ (root t).descendants) :
    n.typeKey? = n.typeIdentity?.map TypeIdentity.key := by
  induction around : n.outerTypes generalizing n with
  | nil =>
      rw [typeKey?, enclosingKey_eq, around, keyIn_eq, typeIdentity?_of_nil around,
        Scope.namespaceAt_eq]
      cases n.nameAndArity? <;> simp [TypeIdentity.key, TypeIdentity.path]
  | cons a rest ih =>
      have outer := mem_descendants_of_mem_outerTypes inside a (around ▸ List.mem_cons_self)
      rw [typeKey?, enclosingKey_eq, around, keyIn_eq, typeIdentity?_of_cons around, List.head?_cons,
        Option.map_some, ih outer (outerTypes_of_cons around)]
      cases known : a.typeIdentity? with
      | none => cases n.nameAndArity? <;> rfl
      | some i =>
        have path : i.key.path = Dotted.ofSegments (i.path ++ [i.name]) :=
          Dotted.join_ofSegments
            (fun w member => (typeIdentity?_names lexed outer known w member).ne_empty) i.name
        cases n.nameAndArity? with
        | none => rfl
        | some own =>
            change some (⟨i.key.path, own.1, own.2⟩ : TypeKey) = some (i.within own).key
            rw [path, TypeIdentity.key, TypeIdentity.path_within]
            rfl

end Node
end Lexed

theorem Node.declaredForm?_isSome {n : Node} (declares : n.kind.isTypeDeclaration) :
    n.declaredForm?.isSome := by
  rw [declaredForm?]
  cases kind : n.kind <;> rw [kind] at declares <;> first | rfl | cases declares

/-- In a text without objections every declared type has a name. -/
theorem Node.nameAndArity?_isSome {text : String} (ok : (parse text).ok) {n : Node}
    (inside : n ∈ (root (parse text).root).descendants) (declared : n.declaredForm?.isSome) :
    n.nameAndArity?.isSome := by
  have whole := own_whole (isNode_of_mem_descendants inside)
    (whole_of_mem_descendants (parse_whole ok) inside)
  have named : n.declaredName?.isSome := by
    refine declaredName?_isSome ?_
    rw [declaredForm?] at declared
    split at declared
    iterate 3
      next kind =>
        rw [kind] at whole
        exact whole
    · next kind =>
      rw [kind] at whole
      exact whole.2.1
    · cases declared
  rw [nameAndArity?, declaredWord?, Option.isSome_map, Option.isSome_map]
  exact named

/-- In a text without objections every declared type has an identity. -/
theorem Node.typeIdentity?_isSome {text : String} (ok : (parse text).ok) {n : Node}
    (inside : n ∈ (root (parse text).root).descendants) (declared : n.declaredForm?.isSome) :
    n.typeIdentity?.isSome := by
  have named := nameAndArity?_isSome ok inside declared
  induction around : n.outerTypes generalizing n with
  | nil => rwa [typeIdentity?_of_nil around, Option.isSome_map]
  | cons a rest ih =>
      have member : a ∈ n.outerTypes := around ▸ List.mem_cons_self
      have outer := mem_descendants_of_mem_outerTypes inside a member
      have form := declaredForm?_isSome (List.mem_filter.mp member).2
      obtain ⟨i, known⟩ := Option.isSome_iff_exists.mp
        (ih outer form (nameAndArity?_isSome ok outer form) (outerTypes_of_cons around))
      rwa [typeIdentity?_of_cons around, known, Option.bind_some, Option.isSome_map]

namespace TypeIdentity

variable {i j : TypeIdentity}

/-- The key keeps the path, the name and the number of type parameters. -/
theorem key_eq_iff (names : ∀ w ∈ i.path, IsName w) (names' : ∀ w ∈ j.path, IsName w) :
    i.key = j.key ↔ i.path = j.path ∧ i.name = j.name ∧ i.arity = j.arity := by
  have paths : Dotted.ofSegments i.path = Dotted.ofSegments j.path ↔ i.path = j.path := by
    refine ⟨fun same => ?_, congrArg _⟩
    rw [← Dotted.segments_ofSegments names, same, Dotted.segments_ofSegments names']
  rw [key, key, TypeKey.mk.injEq, paths]

/-- The key loses nothing but the numbers of type parameters of the types around, and thereby how
many of the names in the path are those of types. -/
theorem eq_iff (names : ∀ w ∈ i.path, IsName w) (names' : ∀ w ∈ j.path, IsName w) :
    i = j ↔ i.key = j.key ∧ i.outer.map (·.2) = j.outer.map (·.2) := by
  refine ⟨fun same => ⟨congrArg key same, congrArg (·.outer.map (·.2)) same⟩,
    fun ⟨keys, arities⟩ => ?_⟩
  obtain ⟨paths, name, arity⟩ := (key_eq_iff names names').mp keys
  have length : (i.outer.map (·.1)).length = (j.outer.map (·.1)).length := by
    simpa using congrArg List.length arities
  obtain ⟨spaces, types⟩ := List.append_inj' paths length
  have outer : i.outer = j.outer := by
    rw [List.zip_of_prod types arities, ← List.zip_of_prod rfl rfl]
  obtain ⟨_, _, _, _⟩ := i
  simp only at spaces outer name arity
  rw [spaces, outer, name, arity]

end TypeIdentity

/-! ### The definitions of a file -/

namespace Node

def definition? (n : Node) : Option TypeDef := do
  return ⟨← n.typeKey?, ← n.declaredForm?, n.typeParameterNames, .empty⟩

def definesKey (k : TypeKey) (n : Node) : Bool := n.definition?.any (·.key == k)

end Node

namespace Table

theorem declare_find? (t : Table) (k : TypeKey) (d : TypeDef) (none : d.contents = .empty) :
    (t.declare d.key d.form d.typeParameters).find? k =
      (t.find? k).or ([d].find? (·.key == k)) := by
  have same : (⟨d.key, d.form, d.typeParameters, .empty⟩ : TypeDef) = d := by rw [← none]
  rw [declare, same]
  split
  · next has =>
    by_cases own : d.key = k
    · subst own
      obtain ⟨d', known⟩ := Option.isSome_iff_exists.mp (isSome_find?.mpr has)
      rw [known, Option.some_or]
    · simp [own]
  · rw [find?, find?, List.find?_append]

theorem enter_find? (t : Table) (n : Node) (k : TypeKey) :
    (t.enter n).find? k = (t.find? k).or (n.definition?.toList.find? (·.key == k)) := by
  rw [enter]
  split
  · next space =>
    have none : n.declaredForm? = none := by simp [Node.declaredForm?, space]
    simp [Node.definition?, none, addNamespace, find?]
  · split
    · next form own declared key =>
      rw [Node.definition?, key, declared]
      exact declare_find? t k ⟨own, form, n.typeParameterNames, .empty⟩ rfl
    · next missing =>
      have none : n.definition? = none := by
        rw [Node.definition?]
        cases key : n.typeKey? with
        | none => rfl
        | some own =>
            cases declared : n.declaredForm? with
            | none => rfl
            | some form => exact absurd key (missing form own declared)
      simp [none]

theorem names_find? (root : Node) (k : TypeKey) : (names root).find? k =
    (Library.all ++ root.descendants.filterMap Node.definition?).find? (·.key == k) := by
  have run : ∀ (nodes : List Node) (t : Table), (nodes.foldl enter t).find? k =
      (t.find? k).or ((nodes.filterMap Node.definition?).find? (·.key == k)) := by
    intro nodes
    induction nodes with
    | nil => simp
    | cons n nodes ih =>
        intro t
        rw [List.foldl_cons, ih, enter_find?, Option.or_assoc, ← List.find?_append]
        cases own : n.definition? <;> simp [own]
  rw [names, run, List.find?_append]
  rfl

theorem extend_find? (t : Table) (k k' : TypeKey) (contents : TypeContents) :
    (t.extend k' contents).find? k =
      (t.find? k).map fun d =>
        if k' = k then { d with contents := d.contents.append contents } else d := by
  have kept : ((·.key == k) ∘ fun d : TypeDef =>
      if d.key = k' then { d with contents := d.contents.append contents } else d) =
        (·.key == k) := by
    funext d
    simp only [Function.comp]
    split <;> rfl
  rw [find?, extend, List.find?_map, kept]
  refine Option.map_congr fun d found => ?_
  obtain rfl := (find?_eq_some found).2
  simp only [eq_comm]

theorem declarations_eq_definitions (nodes : List Node) :
    declarations nodes = nodes.filterMap fun n => n.definition?.map fun d => (n, d.key) := by
  rw [declarations]
  congr 1
  funext n
  rw [Node.definition?]
  cases n.declaredForm? <;> cases n.typeKey? <;> rfl

/-- The contents of a definition come from all declarations of its key and from no others. -/
theorem extended_find? (known t : Table) (nodes : List Node) (k : TypeKey) :
    ((declarations nodes).foldl (fun t (n, k) => t.extend k (known.contentsOf n)) t).find? k =
      (t.find? k).map fun d => { d with
        contents :=
          ((nodes.filter (·.definesKey k)).map known.contentsOf).foldl .append d.contents } := by
  induction nodes generalizing t with
  | nil => simp [declarations]
  | cons n nodes ih =>
      rw [declarations_eq_definitions] at ih ⊢
      cases own : n.definition? with
      | none => simp [own, Node.definesKey, ih]
      | some d =>
          simp only [List.filterMap_cons, own, Option.map_some, List.foldl_cons, ih, extend_find?,
            Option.map_map, Node.definesKey]
          congr 1
          funext d'
          by_cases same : d.key = k <;> simp [own, same]

/-- The definition under a key comes from the library and from all declarations of that key, and the
key of a declaration is what is left of its identity when the names around it run together and the
numbers of type parameters of the types around it are dropped. -/
theorem ofRoot_merges (text : String) :
    let root := Node.root (parse text).root
    (∀ k, (ofRoot root).find? k =
      ((Library.all ++ root.descendants.filterMap Node.definition?).find? (·.key == k)).map fun d =>
        { d with contents := ((root.descendants.filter (·.definesKey k)).map
          (names root).contentsOf).foldl .append d.contents }) ∧
    (∀ n ∈ root.descendants, n.typeKey? = n.typeIdentity?.map TypeIdentity.key ∧
      ((parse text).ok → n.declaredForm?.isSome → n.typeIdentity?.isSome)) ∧
    ∀ n ∈ root.descendants, ∀ m ∈ root.descendants, ∀ i j,
      n.typeIdentity? = some i → m.typeIdentity? = some j →
        (i.key = j.key ↔ i.path = j.path ∧ i.name = j.name ∧ i.arity = j.arity) ∧
        (i = j ↔ i.key = j.key ∧ i.outer.map (·.2) = j.outer.map (·.2)) := by
  intro root
  have lexed := parse_lexed text
  refine ⟨fun k => ?_, fun n inside => ?_, fun n inside m inside' i j own own' => ?_⟩
  · rw [ofRoot, extended_find?, names_find?]
  · exact ⟨Node.typeKey?_eq lexed inside, fun ok => Node.typeIdentity?_isSome ok inside⟩
  · have names := Node.typeIdentity?_names lexed inside own
    have names' := Node.typeIdentity?_names lexed inside' own'
    exact ⟨TypeIdentity.key_eq_iff names names', TypeIdentity.eq_iff names names'⟩

/-- Two types that differ in the type parameters of the types around them share a definition, so
that a member of the one is found in the other. -/
theorem ofRoot_merges_nested :
    let source := "class A\x7bclass B\x7bint x;\x7d\x7dclass A<T>\x7bclass B\x7b\x7dvoid M(B b)\x7bN(b.x);\x7d\x7d"
    let root := Node.root (parse source).root
    let t := ofRoot root
    (parse source).errors = [] ∧
      (∃ n ∈ root.descendants, ∃ m ∈ root.descendants,
        n.typeIdentity? = some ⟨[], [("A", 0)], "B", 0⟩ ∧
        m.typeIdentity? = some ⟨[], [("A", 1)], "B", 0⟩ ∧ n.typeKey? = some ⟨"A", "B", 0⟩ ∧
        m.typeKey? = some ⟨"A", "B", 0⟩ ∧ (names root).contentsOf n ≠ .empty ∧
          (names root).contentsOf m = .empty) ∧
      ∃ n ∈ root.descendants, n.range = .ofSize 58 3 ∧ n.kind = .memberAccessExpression ∧
        t.typeOf? n = some .int := by
  decide +kernel

end Table
end SharpRefactor
