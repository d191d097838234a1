import SharpRefactor.Proofs.Types.Defined

/-!
Which type parameters occur in answers. Those in scope at the node may occur. Others get in only
where a definition mentions a type parameter that it does not bind itself: in the signature of a
method with type parameters of its own, or in a type nested in a generic one, since an argument that
no call determines and the arguments of a container are not replaced.
-/

namespace SharpRefactor

namespace Node

theorem mem_descendants_of_mem_children {t : Tree} {n m : Node}
    (h : n ∈ (root t).descendants) (child : m ∈ n.children) : m ∈ (root t).descendants := by
  obtain ⟨isNode, is, led⟩ := mem_descendants.mp h
  obtain ⟨p, placed, made⟩ := List.mem_filterMap.mp child
  obtain ⟨own, made⟩ := Option.ite_none_right_eq_some.mp made
  obtain ⟨i, found⟩ := List.mem_iff_getElem?.mp placed
  have index : p.index = i := by
    rw [elements, Forest.places_getElem?] at found
    obtain ⟨u, -, rfl⟩ := Option.map_eq_some_iff.mp found
    exact Nat.zero_add i
  refine mem_descendants.mpr ⟨isNode, is ++ [i], ?_⟩
  rw [follow?_append, led, Option.bind_some, follow?_cons]
  have step : n.child? i = some m := by
    rw [child?, found, Option.bind_some, if_pos own, made]
  rw [step]
  rfl

theorem mem_descendants_of_mem_ancestors {t : Tree} {n : Node} (h : n ∈ (root t).descendants) :
    ∀ a ∈ n.ancestors, a ∈ (root t).descendants :=
  outward_induct (P := (· ∈ (root t).descendants)) h fun _ _ inner up =>
    mem_descendants_of_parent? inner up

theorem ancestors_of_parent? {n m : Node} (up : n.parent? = some m) :
    n.ancestors = n :: m.ancestors := by
  obtain ⟨p, - | ⟨q, qs⟩⟩ := n
  · cases up
  · cases up
    rfl

end Node

/-- Going in by one node brings its own type parameters into scope. -/
theorem Scope.typeParameters_of_parent? {n m : Node} (up : n.parent? = some m) :
    (Scope.around n).typeParameters =
      (if n.introducesTypeParameters then n.typeParameterNames else []) ++
        (Scope.around m).typeParameters := by
  simp only [around, Node.ancestors_of_parent? up, List.filter_cons]
  split <;> simp

/-- A type parameter that a definition lets out without binding it. -/
inductive Table.Stray (root : Node) (name : String) : Prop where
  | unbound (d : TypeDef) (known : d ∈ (ofRoot root).defs) (type : Ty)
      (written : type ∈ d.contents.types) (occurs : name ∈ type.parameters)
      (foreign : name ∉ d.typeParameters)
  /-- A declaration calls the parameters of its type otherwise than the first one does. -/
  | renamed (n : Node) (member : n ∈ root.descendants) (k : TypeKey) (key : n.typeKey? = some k)
      (d : TypeDef) (known : (ofRoot root).find? k = some d) (first : name ∈ d.typeParameters)
      (other : name ∉ n.typeParameterNames)

def View.scoped (root : Node) : View where
  good n := n ∈ root.descendants
  sees n name := name ∈ (Scope.around n).typeParameters ∨ Table.Stray root name

theorem View.scoped_fits (t : Tree) :
    (View.scoped (.root t)).Fits (Table.ofRoot (.root t)) (Table.Stray (.root t)) where
  stray _ _ _ stray := .inr stray
  own _ _ _ own := .inl own
  self n good k around d known name own := by
    obtain ⟨a, outer, key⟩ := List.mem_filterMap.mp around
    obtain ⟨outer, declares⟩ := List.mem_filter.mp outer
    have member := Node.mem_descendants_of_mem_ancestors good a outer
    by_cases listed : name ∈ a.typeParameterNames
    · refine .inl (List.mem_flatMap.mpr ⟨a, List.mem_filter.mpr ⟨outer, ?_⟩, listed⟩)
      simp [Node.introducesTypeParameters, declares]
    · exact .inr (.renamed a member k key d known own listed)
  outward n m good up := by
    refine ⟨Node.mem_descendants_of_parent? good up, fun name seen => seen.imp_left fun own => ?_⟩
    rw [Scope.typeParameters_of_parent? up]
    exact List.mem_append_right _ own
  inward _ _ good child := Node.mem_descendants_of_mem_children good child
  inside n m good child plain name seen := by
    refine seen.imp_left fun own => ?_
    rwa [Scope.typeParameters_of_parent? (Node.parent?_of_mem_children child), plain] at own

namespace Table

theorem ofRoot_closed_scoped (root : Node) :
    (ofRoot root).Closed (fun _ => True) (Stray root) where
  admits := ⟨fun _ _ => trivial, fun _ _ => trivial⟩
  arity _ member := ofRoot_arity member
  contents d known type written := Ty.BuiltFrom.iff_occurring.mpr
    ⟨fun _ _ => trivial, fun name occurs => by
      by_cases own : name ∈ d.typeParameters
      · exact .inl own
      · exact .inr (.unbound d known type written occurs own)⟩

/-- A type parameter that occurs in an answer is in scope or was let out by a definition. -/
theorem typeOf?_parameters {root : Tree} {n : Node} {type : Ty}
    (member : n ∈ (Node.root root).descendants)
    (found : (ofRoot (.root root)).typeOf? n = some type) :
    ∀ name ∈ type.parameters,
      name ∈ (Scope.around n).typeParameters ∨ Stray (.root root) name :=
  (Ty.BuiltFrom.iff_occurring.mp (typeOf?_built (ofRoot_closed_scoped (.root root))
    (View.scoped_fits root) member found)).2

/-- The parameter of a generic type, seen from a method in it. -/
theorem typeOf?_parameters_field :
    let root := (parse "class C<T>\x7bT f;void M()\x7bN(f);\x7d\x7d").root
    let n := (Node.root root).atOffset 26
    n ∈ (Node.root root).descendants ∧ (ofRoot (.root root)).typeOf? n = some (.parameter "T") ∧
      ∀ name ∈ (Ty.parameter "T").parameters,
        name ∈ (Scope.around n).typeParameters ∨ Stray (.root root) name := by
  intro root n
  have member : n ∈ (Node.root root).descendants :=
    Node.walk_mem_descendants _ (by decide +kernel)
  have found : (ofRoot (.root root)).typeOf? n = some (.parameter "T") := by
    decide +kernel
  exact ⟨member, found, typeOf?_parameters member found⟩

/-- A call of a generic method, nothing in which says what its type parameter stands for, has that
type parameter for a type where it is not in scope. -/
theorem typeOf?_open_call :
    let source := "class C\x7bT M<T>()\x7breturn M<T>();\x7dvoid N()\x7bG(M());\x7d\x7d"
    let root := Node.root (parse source).root
    (parse source).errors = [] ∧
      ∃ n ∈ root.descendants, n.range = .ofSize 43 3 ∧ n.kind = .invocationExpression ∧
        (ofRoot root).typeOf? n = some (.parameter "T") ∧
        (Scope.around n).typeParameters = [] := by
  decide +kernel

end Table
end SharpRefactor
