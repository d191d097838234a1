import Mathlib.Logic.Relation
import SharpRefactor.Proofs.Types.Spaces
import SharpRefactor.Proofs.Types.Surroundings
import SharpRefactor.Syntax.Factory

/-!
Dotted and nested namespaces. A namespace with several names in its header is the same as several
that are nested in one another: the namespaces around every declaration are the ways to the path of
all the names, with the directives at the last name of the header that they stand under. So headers
may be split and joined without a change to the scopes and keys of the types inside.
-/

namespace SharpRefactor

structure Tree.Names (t : Tree) : Prop where
  isNode : t.isNode
  type : t.kind.isType
  nested : t.Nested

theorem Tree.Names.isUsing_eq {t : Tree} (names : t.Names) :
    (t.isNode && t.kind == .usingDirective) = false := by
  have type := names.type
  rw [names.isNode, Bool.true_and, beq_eq_false_iff_ne]
  intro directive
  rw [directive] at type
  cases type

def Tree.headerNames (t : Tree) : List String := Dotted.segments (t.typeSyntax.path?.getD "")

/-- Two ways to write the namespaces around a body: in one header, and in two headers that share the
names of the one. -/
structure HeaderSplit where
  front : List Token
  whole : Tree
  outerFront : List Token
  outer : Tree
  innerFront : List Token
  inner : Tree
  /-- What follows the name in the one header and in the inner one. -/
  body : Forest
  /-- What stands between the outer name and the inner declaration. -/
  gap : List Token
  /-- What follows the inner declaration. -/
  closing : List Token
  names : whole.Names ∧ outer.Names ∧ inner.Names
  path : whole.headerNames = outer.headerNames ++ inner.headerNames
  /-- There is an inner name for the directives. -/
  last : inner.headerNames = [] → outer.headerNames = []

namespace HeaderSplit

def joined (s : HeaderSplit) : Tree :=
  .node .namespaceDeclaration (s.front.map .leaf ++ s.whole :: s.body)

def nested (s : HeaderSplit) : Tree :=
  .node .namespaceDeclaration (s.innerFront.map .leaf ++ s.inner :: s.body)

def nesting (s : HeaderSplit) : Tree :=
  .node .namespaceDeclaration
    (s.outerFront.map .leaf ++ s.outer :: s.gap.map .leaf ++ s.nested :: s.closing.map .leaf)

def Splits (t u : Tree) : Prop := ∃ s : HeaderSplit, t = s.joined ∧ u = s.nesting

end HeaderSplit

/-! ### What the headers enter -/

theorem Forest.filter_leaves (p : Kind → Bool) (tokens : List Token) :
    (tokens.map Tree.leaf).filter (fun t => t.isNode && p t.kind) = [] :=
  List.filter_eq_nil_iff.mpr fun t member => by
    obtain ⟨token, -, rfl⟩ := List.mem_map.mp member
    exact Bool.false_ne_true

namespace Node

theorem declaredType?_eq_head? (n : Node) : n.declaredType? =
    (n.tree.children.filter fun t => t.isNode && t.kind.isType).head?.map Tree.typeSyntax := by
  rw [← map_tree_childrenWhere, List.head?_map, Option.map_map, List.head?_filter]
  rfl

theorem withUsings_eq_of_map_tree {n n' : Node} (same : n'.usings.map tree = n.usings.map tree)
    (name : String) : NamespaceScope.withUsings name n' = NamespaceScope.withUsings name n := by
  have related := List.Forall₂.of_map_eq same.symm
  refine List.Forall₂.foldl_eq ((List.forall₂_and_left _ _).mpr ⟨fun _ own => own, related⟩)
    (fun s d d' own => ?_) _
  have looks : Looks (fun _ _ => True) d d' := ⟨own.2 ▸ .refl _, trivial⟩
  exact looks_anywhere.direct_eq looks s (by simpa using (List.mem_filter.mp own.1).2)

theorem map_tree_usings (n : Node) : n.usings.map tree =
    n.tree.children.filter fun t => t.isNode && t.kind == .usingDirective :=
  map_tree_childrenWhere n (· == .usingDirective)

end Node

namespace Scope

variable {header outer : Node} {names : List String} {spaces : List NamespaceScope}

theorem headerNames_root {k : Kind} {front : List Token} {name : Tree} {rest : Forest}
    (names : name.Names) :
    headerNames (.root (.node k (front.map .leaf ++ name :: rest))) = name.headerNames := by
  rw [headerNames, headerPath, Node.declaredType?_eq_head?]
  change Dotted.segments ((((front.map Tree.leaf ++ name :: rest).filter
    fun t => t.isNode && t.kind.isType).head?.map Tree.typeSyntax).bind TypeSyntax.path? |>.getD "") = _
  rw [List.filter_append, Forest.filter_leaves, List.nil_append, List.filter_cons, names.isNode,
    names.type]
  rfl

/-- A name with others behind it enters a namespace without directives. -/
theorem enterAll_cons_of_ne_nil (p : String) (some : names ≠ []) :
    enterAll header (p :: names) spaces =
      enterAll header names (.bare (Dotted.join (innermost spaces) p) :: spaces) := by
  cases names with
  | nil => exact absurd rfl some
  | cons q names => rfl

/-- So does every name of a header without directives. -/
theorem enterAll_cons_of_plain (plain : outer.usings = []) (p : String) :
    enterAll outer (p :: names) spaces =
      enterAll outer names (.bare (Dotted.join (innermost spaces) p) :: spaces) := by
  cases names with
  | nil => rw [enterAll, enterAll, NamespaceScope.withUsings, plain, List.foldl_nil]
  | cons q names => rfl

theorem enterAll_append (plain : outer.usings = []) {inner : List String}
    (last : inner = [] → names = []) :
    enterAll header (names ++ inner) spaces = enterAll header inner (enterAll outer names spaces) := by
  induction names generalizing spaces with
  | nil => rfl
  | cons p names ih =>
      have some : inner ≠ [] := fun none => nomatch last none
      rw [List.cons_append, enterAll_cons_of_ne_nil p (List.append_ne_nil_of_right_ne_nil _ some),
        enterAll_cons_of_plain plain, ih fun none => absurd none some]

end Scope

namespace HeaderSplit

theorem headerNames_joined (s : HeaderSplit) :
    Scope.headerNames (.root s.joined) = s.outer.headerNames ++ s.inner.headerNames := by
  rw [joined, Scope.headerNames_root s.names.1, s.path]

theorem headerNames_nesting (s : HeaderSplit) :
    Scope.headerNames (.root s.nesting) = s.outer.headerNames := by
  rw [nesting, List.append_assoc, List.cons_append, Scope.headerNames_root s.names.2.1]

theorem headerNames_nested (s : HeaderSplit) :
    Scope.headerNames (.root s.nested) = s.inner.headerNames :=
  Scope.headerNames_root s.names.2.2

theorem usings_nesting (s : HeaderSplit) : (Node.root s.nesting).usings = [] := by
  refine List.map_eq_nil_iff.mp ((Node.map_tree_usings _).trans ?_)
  change (s.outerFront.map Tree.leaf ++ s.outer :: s.gap.map Tree.leaf ++
    s.nested :: s.closing.map Tree.leaf).filter (fun t => t.isNode && t.kind == .usingDirective) = []
  have leaves := Forest.filter_leaves (· == .usingDirective)
  simp only [List.filter_append, List.filter_cons, leaves, s.names.2.1.isUsing_eq]
  rfl

/-- The directives of the one header are those of the inner one. -/
theorem usings_joined (s : HeaderSplit) :
    (Node.root s.joined).usings.map Node.tree = (Node.root s.nested).usings.map Node.tree := by
  rw [Node.map_tree_usings, Node.map_tree_usings]
  change (s.front.map Tree.leaf ++ s.whole :: s.body).filter _ =
    (s.innerFront.map Tree.leaf ++ s.inner :: s.body).filter _
  have leaves := Forest.filter_leaves (· == .usingDirective)
  simp only [List.filter_append, List.filter_cons, leaves, s.names.1.isUsing_eq,
    s.names.2.2.isUsing_eq, if_neg Bool.false_ne_true, List.nil_append]

/-- Two headers enter what the one enters. -/
theorem enter_nesting (s : HeaderSplit) (spaces : List NamespaceScope) :
    Scope.enter (Scope.enter spaces (.root s.nesting)) (.root s.nested) =
      Scope.enter spaces (.root s.joined) := by
  have inner := Scope.enterAll_congr (Node.withUsings_eq_of_map_tree s.usings_joined)
  calc Scope.enter (Scope.enter spaces (.root s.nesting)) (.root s.nested)
      = Scope.enterAll (.root s.nested) s.inner.headerNames
          (Scope.enterAll (.root s.nesting) s.outer.headerNames spaces) :=
        congrArg₂ (fun inner outer => Scope.enterAll _ inner (Scope.enterAll _ outer spaces))
          s.headerNames_nested s.headerNames_nesting
    _ = Scope.enterAll (.root s.nested) (s.outer.headerNames ++ s.inner.headerNames) spaces :=
        (Scope.enterAll_append s.usings_nesting s.last).symm
    _ = Scope.enterAll (.root s.joined) (s.outer.headerNames ++ s.inner.headerNames) spaces :=
        (inner _ _).symm
    _ = Scope.enter spaces (.root s.joined) :=
        congrArg (Scope.enterAll _ · spaces) s.headerNames_joined.symm

/-! ### What is declared under the headers -/

section Observing

variable {α : Type} {g : Node → α}

theorem observe_leaves (above : List Place) (tokens : List Token) :
    (tokens.map Tree.leaf).flatMap (Tree.observe (Node.shown g) above) = [] :=
  List.flatMap_eq_nil_iff.mpr fun t member => by
    obtain ⟨token, -, rfl⟩ := List.mem_map.mp member
    rfl

/-- A name declares nothing. -/
theorem observe_names {t : Tree} (names : t.Names) (above : List Place) :
    t.observe (Node.shown g) above = [] := by
  have outline : (t.nodesAt 0 0 above).filter (·.kind.isOutline) = [] :=
    Tree.Nested.outline_eq_nil (n := ⟨⟨t, 0, 0⟩, above⟩) names.nested names.isNode
      (Kind.isOutline_of_isType names.type)
  refine List.flatMap_eq_nil_iff.mpr fun n member => ?_
  have inner : n.kind.isOutline = false := by simpa using List.filter_eq_nil_iff.mp outline n member
  rw [Node.shown, Table.declaredForm?_of_not_outline inner]
  rfl

theorem observe_nesting (s : HeaderSplit) (blind : Node.Blind g) (above : List Place) :
    s.nesting.observe (Node.shown g) above = s.joined.observe (Node.shown g) above := by
  have silent (ts : Forest) (above : List Place) :
      Node.shown g ⟨⟨.node .namespaceDeclaration ts, 0, 0⟩, above⟩ = [] := rfl
  have alike : AlikeAround (⟨s.joined, 0, 0⟩ :: above)
      (⟨s.nested, 0, 0⟩ :: ⟨s.nesting, 0, 0⟩ :: above) :=
    .split rfl rfl rfl s.enter_nesting (.refl above)
  have inside := List.flatMap_congr fun t (_ : t ∈ s.body) => blind.shown.observe_eq t alike
  rw [nesting, joined, blind.shown.observe_node, blind.shown.observe_node, silent, silent,
    ← nesting, ← joined]
  simp only [List.flatMap_append, List.flatMap_cons, observe_leaves, observe_names s.names.1,
    observe_names s.names.2.1, List.nil_append, List.append_nil]
  rw [nested, blind.shown.observe_node, silent, ← nested]
  simp only [List.flatMap_append, List.flatMap_cons, observe_leaves, observe_names s.names.2.2,
    List.nil_append, inside]

/-- Nothing that looks alike is changed in the declared types when headers are split and joined. -/
theorem declaredWith_eq {t u : Tree} (steps : Relation.EqvGen (Tree.Somewhere Splits) t u)
    (blind : Node.Blind g) : (Node.root u).declaredWith g = (Node.root t).declaredWith g := by
  rw [Tree.declaredWith_root, Tree.declaredWith_root]
  induction steps with
  | rel t u step =>
      refine blind.shown.somewhere (S := fun a b => b = a) (fun _ => rfl) ?_ ?_ ?_ step []
      · rintro a b c d rfl rfl
        rfl
      · rintro _ _ ⟨s, rfl, rfl⟩
        exact ⟨rfl, rfl⟩
      · rintro _ _ above ⟨s, rfl, rfl⟩
        exact s.observe_nesting blind above
  | refl t => rfl
  | symm t u _ ih => exact ih.symm
  | trans t u v _ _ ih ih' => exact ih'.trans ih

end Observing
end HeaderSplit

/-- The namespaces around a node are the ways to the path of all the names in the headers around it,
and then the global one; the directives of a header are with its last name and those of the file are
global. Splitting and joining headers changes neither the scopes nor the keys in the declared
types. -/
theorem Scope.around_of_headers :
    (∀ n : Node,
      (around n).namespaces.map (·.name) =
          n.spaces.inits.tail.reverse.map Dotted.ofSegments ++ [""] ∧
        (around n).namespaces.getLast? = some (global n) ∧
        ∀ before header after, n.headers = before ++ header :: after →
          (header.declaredType?.bind TypeSyntax.path? = none → headerNames header = []) ∧
          ∀ left < (headerNames header).length,
            (around n).namespaces[(after.flatMap headerNames).length + left]? =
              some (opened header (before.flatMap headerNames) left)) ∧
    ∀ t u : Tree, Relation.EqvGen (Tree.Somewhere HeaderSplit.Splits) t u →
      (Node.root u).declaredWith (fun n => (around n, n.typeKey?)) =
        (Node.root t).declaredWith fun n => (around n, n.typeKey?) := by
  refine ⟨fun n => ⟨?_, (namespacesAt_opened n).1,
    fun before header after split => ⟨fun none => ?_, ?_⟩⟩,
    fun t u steps => ?_⟩
  · have ways : n.spaces.inits = [] :: n.spaces.inits.tail := by cases n.spaces <;> rfl
    rw [show (around n).namespaces.map (·.name) = _ from namespacesAt_lead n, ways]
    simp [Dotted.ofSegments]
  · rw [headerNames, headerPath, none]
    rfl
  · exact (namespacesAt_opened n).2 before header after split
  · exact HeaderSplit.declaredWith_eq steps fun _ _ looks => by rw [looks.around_eq, looks.typeKey?_eq]

def HeaderSplit.ofTwo : HeaderSplit where
  front := [.fixed .namespaceKw, .blank]
  whole := .node .qualifiedName
    [Factory.identifierName "A", Factory.fixed .dot, Factory.identifierName "B"]
  outerFront := [.fixed .namespaceKw, .blank]
  outer := Factory.identifierName "A"
  innerFront := [.fixed .namespaceKw, .blank]
  inner := Factory.identifierName "B"
  body :=
    [Factory.fixed .lBrace,
     .node .usingDirective
      [Factory.fixed .usingKw, Factory.blank, Factory.identifierName "X", Factory.fixed .semicolon],
     .node .classDeclaration
      [Factory.fixed .classKw, Factory.blank, .leaf ⟨.identifier, "C"⟩, Factory.fixed .lBrace,
       Factory.fixed .rBrace],
     Factory.fixed .rBrace]
  gap := [.fixed .lBrace]
  closing := [.fixed .rBrace]
  names := by
    have simple (name : String) : (Factory.identifierName name).Names :=
      ⟨rfl, rfl, (Level.leaf _).node⟩
    have parts : Level Kind.isFree
        [Factory.identifierName "A", Factory.fixed .dot, Factory.identifierName "B"] :=
      .cons (simple "A").nested rfl (.cons_leaf _ (.cons (simple "B").nested rfl .nil))
    exact ⟨⟨rfl, rfl, parts.node_of_isFree⟩, simple "A", simple "B"⟩
  path := by decide +kernel
  last := by decide +kernel

/-- In both files the class is found under the same names and the directive is with the last one. -/
theorem Scope.around_of_headers_split :
    let joined := (parse "namespace A.B\x7busing X;class C\x7b\x7d\x7d").root
    let nested := (parse "namespace A\x7bnamespace B\x7busing X;class C\x7b\x7d\x7d\x7d").root
    Relation.EqvGen (Tree.Somewhere HeaderSplit.Splits) joined nested ∧
      (Node.root nested).declaredWith (fun n => (around n, n.typeKey?)) =
        (Node.root joined).declaredWith (fun n => (around n, n.typeKey?)) ∧
      ∃ n outer inner, n ∈ (Node.root nested).descendants ∧ n.typeKey? = some ⟨"A.B", "C", 0⟩ ∧
        (around n).namespaces.map (·.name) = ["A.B", "A", ""] ∧ n.headers = [outer, inner] ∧
        (around n).namespaces[0]? = some (opened inner ["A"] 0) ∧
        (opened inner ["A"] 0).imports = ["X"] ∧ (around n).namespaces[1]? = some (opened outer [] 0) ∧
        (opened outer [] 0).imports = [] := by
  intro joined nested
  have joined_eq : joined = .node .compilationUnit [HeaderSplit.ofTwo.joined] := by decide +kernel
  have nested_eq : nested = .node .compilationUnit [HeaderSplit.ofTwo.nesting] := by decide +kernel
  have steps : Relation.EqvGen (Tree.Somewhere HeaderSplit.Splits) joined nested := by
    rw [joined_eq, nested_eq]
    exact .rel _ _ (@Tree.Somewhere.inside _ _ [] [] _ _ rfl (.here ⟨HeaderSplit.ofTwo, rfl, rfl⟩))
  obtain ⟨each, whole⟩ := around_of_headers
  refine ⟨steps, whole _ _ steps, ?_⟩
  rw [nested_eq]
  let file := Node.root (.node .compilationUnit [HeaderSplit.ofTwo.nesting])
  let n := (file.follow? [0, 4, 5]).get rfl
  let outer := (file.follow? [0]).get rfl
  let inner := (file.follow? [0, 4]).get rfl
  have headers : n.headers = [outer, inner] := by decide +kernel
  obtain ⟨names, -, opens⟩ := each n
  have outerNames : [outer].flatMap headerNames = ["A"] := by decide +kernel
  have innerNames : [inner].flatMap headerNames = ["B"] := by decide +kernel
  have first := (opens [outer] inner [] headers).2 0 (by decide +kernel)
  have second := (opens [] outer [inner] headers).2 0 (by decide +kernel)
  rw [outerNames] at first
  rw [innerNames] at second
  refine ⟨n, outer, inner, by decide +kernel, by decide +kernel, ?_, headers, first, by decide +kernel,
    second, by decide +kernel⟩
  rw [names]
  decide +kernel

end SharpRefactor
