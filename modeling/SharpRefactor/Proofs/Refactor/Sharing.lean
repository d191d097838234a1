import SharpRefactor.Proofs.Parsing.TypeName
import SharpRefactor.Proofs.Refactor.Faithful
import SharpRefactor.Syntax.Recipe

/-!
Which nodes are one version. Small nodes that were read together are shared if their contents agree,
however far apart they stand. In a tree that was put together only the type names were read, each by
itself: wherever a path into it meets type syntax, there stands such a type name or a lone name. So
its nodes are shared within one type name and not between two.
-/

namespace SharpRefactor

section Shared

open Identity

variable {n : Nat} {root u v : Tree} {p q : List Nat}

theorem Identity.ofRead_eq_iff (place : List Nat) (hp : root.get? p = some u)
    (hq : root.get? q = some v) :
    ofRead n root place p = ofRead n root place q ↔
      p = q ∨ p ≠ place ∧ q ≠ place ∧ u = v ∧ u.isSmall := by
  by_cases same : p = q
  · simp [same]
  rw [ofRead_of_get? place hp, ofRead_of_get? place hq]
  split <;> split <;> grind

theorem Origin.identityAt_parsed_eq_iff (hp : root.get? p = some u) (hq : root.get? q = some v) :
    (Origin.parsed n root).identityAt p = (Origin.parsed n root).identityAt q ↔
      p = q ∨ p ≠ [] ∧ q ≠ [] ∧ u = v ∧ u.isSmall :=
  ofRead_eq_iff [] hp hq

theorem Origin.identityAt_built_eq_iff (hp : root.get? p = some u) (hq : root.get? q = some v) :
    (Origin.built n root).identityAt p = (Origin.built n root).identityAt q ↔
      p = q ∨ ∃ place, root.typeNameOn? p = some place ∧ root.typeNameOn? q = some place ∧
        p ≠ place ∧ q ≠ place ∧ u = v ∧ u.isSmall := by
  by_cases same : p = q
  · simp [same]
  simp only [identityAt, same, false_or]
  cases root.typeNameOn? p with
  | none =>
      cases root.typeNameOn? q with
      | none => simp [same]
      | some b => rcases ofRead_eq_or (n := n) b hq with own | own <;> simp [own, same]
  | some a =>
      cases root.typeNameOn? q with
      | none => rcases ofRead_eq_or (n := n) a hp with own | own <;> simp [own, same]
      | some b =>
          by_cases one : a = b
          · subst one
            simp [ofRead_eq_iff a hp hq, same]
          · rcases ofRead_eq_or (n := n) a hp with first | first <;>
              rcases ofRead_eq_or (n := n) b hq with second | second <;>
              simp [first, second, same, one, Ne.symm one]

end Shared

/-! ### Type names in trees that were put together -/

def Tree.IsTypeName (t : Tree) : Prop :=
  (∃ name, t = Factory.identifierName name) ∨ ∃ text, parseTypeName text = .ok t

/-- Type syntax on a path begins with a type name. -/
def Tree.ReadOn (t : Tree) (path : List Nat) : Prop :=
  ∀ place, t.typeNameOn? path = some place → ∃ u, t.get? place = some u ∧ u.IsTypeName

def Tree.TypesRead (t : Tree) : Prop := ∀ path, t.ReadOn path

namespace Tree

variable {k : Kind} {ts : Forest} {t : Tree} {path : List Nat}

theorem typeNameOn?_leaf (token : Token) (path : List Nat) :
    (Tree.leaf token).typeNameOn? path = none := by
  cases path <;> rfl

theorem typeNameOn?_of_isType (type : k.isType) (path : List Nat) :
    (Tree.node k ts).typeNameOn? path = some [] := by
  cases path <;> exact if_pos type

theorem typeNameOn?_eq_some {place : List Nat} (other : k.isType = false) :
    (Tree.node k ts).typeNameOn? path = some place ↔
      ∃ i is t rest, path = i :: is ∧ ts[i]? = some t ∧ t.typeNameOn? is = some rest ∧
        i :: rest = place := by
  cases path with
  | nil => simp [typeNameOn?, other]
  | cons i is => simp [typeNameOn?, other, Option.bind_eq_some_iff, and_assoc]

theorem typeNameOn?_prefix {place : List Nat} (met : t.typeNameOn? path = some place) :
    place <+: path := by
  induction place generalizing t path with
  | nil => exact List.nil_prefix
  | cons i rest ih =>
      cases t with
      | leaf token =>
          rw [typeNameOn?_leaf] at met
          cases met
      | node k ts =>
          cases type : k.isType with
          | true =>
              rw [typeNameOn?_of_isType type] at met
              cases met
          | false =>
              obtain ⟨_, is, t, _, rfl, -, within, same⟩ := (typeNameOn?_eq_some type).mp met
              cases same
              exact List.cons_prefix_cons.mpr ⟨rfl, ih within⟩

theorem typesRead_leaf (token : Token) : (Tree.leaf token).TypesRead := by
  intro path place met
  rw [typeNameOn?_leaf] at met
  cases met

theorem typesRead_of_isTypeName (name : t.IsTypeName) (type : t.isNode ∧ t.kind.isType) :
    t.TypesRead := by
  intro path place met
  cases t with
  | leaf token => cases type.1
  | node k ts =>
      rw [typeNameOn?_of_isType (k := k) type.2] at met
      cases met
      exact ⟨_, rfl, name⟩

theorem typesRead_of_parseTypeName {text : String} (read : parseTypeName text = .ok t) :
    t.TypesRead :=
  typesRead_of_isTypeName (.inr ⟨text, read⟩) (parseTypeName_isType read)

theorem readOn_node (other : k.isType = false)
    (inner : ∀ i is t, path = i :: is → ts[i]? = some t → t.ReadOn is) :
    (Tree.node k ts).ReadOn path := by
  intro place met
  obtain ⟨i, is, t, rest, rfl, held, within, rfl⟩ := (typeNameOn?_eq_some other).mp met
  obtain ⟨u, found, name⟩ := inner i is t rfl held rest within
  refine ⟨u, ?_, name⟩
  rw [get?_cons, children, held]
  exact found

theorem typesRead_node (other : k.isType = false) (inner : ∀ t ∈ ts, t.TypesRead) :
    (Tree.node k ts).TypesRead :=
  fun _ => readOn_node other fun _ is t _ held => inner t (List.mem_of_getElem? held) is

/-- Aside of a path that leads on through one of the children. -/
theorem readOn_node_aside (before after : Forest) {is : List Nat} (other : k.isType = false)
    (beside : ∀ u ∈ before ++ after, u.TypesRead)
    (inner : ∀ path, ¬ is <+: path → t.ReadOn path)
    (aside : ¬ before.length :: is <+: path) : (Tree.node k (before ++ t :: after)).ReadOn path := by
  refine readOn_node other fun j js u whole held => ?_
  subst whole
  rcases Nat.lt_trichotomy j before.length with left | rfl | right
  · rw [List.getElem?_append_left left] at held
    exact beside u (List.mem_append_left _ (List.mem_of_getElem? held)) js
  · rw [List.getElem?_append_right (Nat.le_refl _), Nat.sub_self] at held
    cases held
    exact inner js fun below => aside (List.cons_prefix_cons.mpr ⟨rfl, below⟩)
  · rw [List.getElem?_append_right (Nat.le_of_lt right),
      ← Nat.succ_pred_eq_of_pos (Nat.sub_pos_of_lt right)] at held
    exact beside u (List.mem_append_right _ (List.mem_of_getElem? held)) js

/-- Two nodes of a tree that was put together are one version only if they are equal parts of one
type name. -/
theorem ReadOn.shared {n : Nat} {u v : Tree} {q : List Nat} (read : t.ReadOn path)
    (hp : t.get? path = some u) (hq : t.get? q = some v) (distinct : path ≠ q)
    (same : (Origin.built n t).identityAt path = (Origin.built n t).identityAt q) :
    u = v ∧ ∃ place name, t.get? place = some name ∧ name.IsTypeName ∧ place <+: path ∧
      place <+: q := by
  obtain whole | ⟨place, first, second, -, -, equal, -⟩ :=
    (Origin.identityAt_built_eq_iff hp hq).mp same
  · exact absurd whole distinct
  obtain ⟨name, found, isTypeName⟩ := read place first
  exact ⟨equal, place, name, found, isTypeName, typeNameOn?_prefix first, typeNameOn?_prefix second⟩

/-- The halves of a name that was read are one version, those of two names are not. -/
example :
    (Recipe.make (.parameterList
      [.parameter (.typeName "A.A") "x", .parameter (.typeName "A.A") "y"])).toOption.any (fun t =>
        let o := Origin.built 0 t
        o.identityAt [1, 0, 0] == o.identityAt [1, 0, 2] &&
          o.identityAt [1, 0, 0] != o.identityAt [4, 0, 0]) := by
  decide +kernel

end Tree

namespace Factory

open SharpRefactor.Tree

variable {t u : Tree} {ts : Forest}

theorem typesRead_identifierName (name : String) : (identifierName name).TypesRead :=
  typesRead_of_isTypeName (.inl ⟨name, rfl⟩) ⟨rfl, rfl⟩

theorem typesRead_separated {k opening closing : Kind} (other : k.isType = false)
    (items : ∀ t ∈ ts, t.TypesRead) : (Tree.node k (separated opening closing ts)).TypesRead := by
  refine typesRead_node other fun t member => ?_
  cases ts with
  | nil =>
      rw [separated, List.mem_pair] at member
      rcases member with rfl | rfl <;> exact typesRead_leaf _
  | cons item rest =>
      obtain ⟨first, later⟩ := List.forall_mem_cons.mp items
      simp only [separated, List.mem_append, List.mem_cons, List.mem_flatMap, List.not_mem_nil,
        or_false] at member
      obtain (rfl | rfl | ⟨u, listed, rfl | rfl | rfl⟩) | rfl := member
      · exact typesRead_leaf _
      · exact first
      · exact typesRead_leaf _
      · exact typesRead_leaf _
      · exact later t listed
      · exact typesRead_leaf _

theorem typesRead_argument (h : t.TypesRead) : (argument t).TypesRead :=
  typesRead_node rfl (by simpa using h)

theorem typesRead_argumentList (items : ∀ t ∈ ts, t.TypesRead) : (argumentList ts).TypesRead := by
  refine typesRead_separated rfl fun a listed => ?_
  obtain ⟨t, member, rfl⟩ := List.mem_map.mp listed
  exact typesRead_argument (items t member)

theorem typesRead_invocation (callee : t.TypesRead) (arguments : u.TypesRead) :
    (invocation t u).TypesRead :=
  typesRead_node rfl (by simpa using ⟨callee, arguments⟩)

theorem typesRead_parameter (type : t.TypesRead) (name : String) : (parameter t name).TypesRead :=
  typesRead_node rfl (by simpa [blank, typesRead_leaf] using type)

theorem typesRead_parameterList (items : ∀ t ∈ ts, t.TypesRead) : (parameterList ts).TypesRead :=
  typesRead_separated rfl items

theorem typesRead_expressionStatement (h : t.TypesRead) : (expressionStatement t).TypesRead :=
  typesRead_node rfl (by simpa [fixed, typesRead_leaf] using h)

theorem typesRead_returnStatement (h : t.TypesRead) : (returnStatement t).TypesRead :=
  typesRead_node rfl (by simpa [fixed, blank, typesRead_leaf] using h)

theorem typesRead_block (items : ∀ t ∈ ts, t.TypesRead) : (block ts).TypesRead := by
  refine typesRead_node rfl fun t member => ?_
  simp only [List.mem_append, List.mem_cons, List.mem_flatMap, List.not_mem_nil, or_false] at member
  obtain (rfl | rfl | ⟨u, listed, rfl | rfl⟩) | rfl := member
  · exact typesRead_leaf _
  · exact typesRead_leaf _
  · exact items t listed
  · exact typesRead_leaf _
  · exact typesRead_leaf _

theorem typesRead_anonymousMethod {parameters : Option Tree}
    (listed : ∀ t ∈ parameters, t.TypesRead) (body : t.TypesRead) :
    (anonymousMethod parameters t).TypesRead := by
  refine typesRead_node rfl fun u member => ?_
  simp only [List.mem_append, List.mem_cons, Option.mem_toList, List.not_mem_nil, or_false]
    at member
  obtain (rfl | own) | rfl | rfl := member
  · exact typesRead_leaf _
  · exact listed u own
  · exact typesRead_leaf _
  · exact body

end Factory

namespace Recipe

open Factory

variable {α β ε : Type}

theorem map_eq_ok {f : α → β} {x : Except ε α} {b : β} :
    x.map f = .ok b ↔ ∃ a, x = .ok a ∧ f a = b := by
  cases x <;> simp [Except.map]

theorem bind_eq_ok {f : α → Except ε β} {x : Except ε α} {b : β} :
    x >>= f = .ok b ↔ ∃ a, x = .ok a ∧ f a = .ok b := by
  cases x <;> simp [bind, Except.bind]

mutual

/-- In what a recipe describes all type names were read. -/
theorem make_typesRead : ∀ (r : Recipe) {t : Tree}, r.make = .ok t → t.TypesRead
  | .identifierName name, _, rfl => typesRead_identifierName name
  | .typeName _, _, made => Tree.typesRead_of_parseTypeName made
  | .argument e, _, made => by
      obtain ⟨_, own, rfl⟩ := map_eq_ok.mp made
      exact typesRead_argument (make_typesRead e own)
  | .argumentList es, _, made => by
      obtain ⟨_, own, rfl⟩ := map_eq_ok.mp made
      exact typesRead_argumentList (makeAll_typesRead es own)
  | .invocation f as, _, made => by
      obtain ⟨_, callee, made⟩ := bind_eq_ok.mp made
      obtain ⟨_, arguments, made⟩ := bind_eq_ok.mp made
      cases made
      exact typesRead_invocation (make_typesRead f callee) (make_typesRead as arguments)
  | .parameter type name, _, made => by
      obtain ⟨_, own, rfl⟩ := map_eq_ok.mp made
      exact typesRead_parameter (make_typesRead type own) name
  | .parameterList ps, _, made => by
      obtain ⟨_, own, rfl⟩ := map_eq_ok.mp made
      exact typesRead_parameterList (makeAll_typesRead ps own)
  | .expressionStatement e, _, made => by
      obtain ⟨_, own, rfl⟩ := map_eq_ok.mp made
      exact typesRead_expressionStatement (make_typesRead e own)
  | .returnStatement e, _, made => by
      obtain ⟨_, own, rfl⟩ := map_eq_ok.mp made
      exact typesRead_returnStatement (make_typesRead e own)
  | .block ss, _, made => by
      obtain ⟨_, own, rfl⟩ := map_eq_ok.mp made
      exact typesRead_block (makeAll_typesRead ss own)
  | .anonymousMethod ps body, _, made => by
      obtain ⟨_, listed, made⟩ := bind_eq_ok.mp made
      obtain ⟨_, own, made⟩ := bind_eq_ok.mp made
      cases made
      exact typesRead_anonymousMethod
        (fun t first => makeAll_typesRead ps listed t (List.mem_of_mem_head? first))
        (make_typesRead body own)

theorem makeAll_typesRead : ∀ (rs : List Recipe) {ts : Forest}, makeAll rs = .ok ts →
    ∀ t ∈ ts, t.TypesRead
  | [], _, rfl, _, member => nomatch member
  | r :: rs, _, made, t, member => by
      obtain ⟨_, first, made⟩ := bind_eq_ok.mp made
      obtain ⟨_, later, made⟩ := bind_eq_ok.mp made
      cases made
      rcases List.mem_cons.mp member with rfl | member
      · exact make_typesRead r first
      · exact makeAll_typesRead rs later t member

end

end Recipe

namespace AnonymousMethod

open Factory

variable {r : Resolver} {offset : Nat} {ps : List Parameter} {trees : Forest}

theorem parameters_typesRead (written : (parameters r offset ps).result = .ok trees) :
    ∀ t ∈ trees, t.TypesRead := by
  have each := parameters_eq_ok_iff.mp written
  clear written
  induction each with
  | nil => exact fun _ none => nomatch none
  | cons made _ ih =>
      obtain ⟨text, type, -, read, rfl⟩ := parameter_eq_ok_iff.mp made
      exact List.forall_mem_cons.mpr
        ⟨typesRead_parameter (Tree.typesRead_of_parseTypeName read) _, ih⟩

theorem statement_readOn (s : Signature) (target : Tree) {path : List Nat}
    (aside : ¬ [if s.returnsVoid then 0 else 2, 0] <+: path) :
    (statement s target).ReadOn path := by
  have arguments : (argumentList (s.parameters.map fun p => identifierName p.name)).TypesRead := by
    refine typesRead_argumentList fun t listed => ?_
    obtain ⟨p, -, rfl⟩ := List.mem_map.mp listed
    exact typesRead_identifierName p.name
  have called : ∀ path, ¬ [0] <+: path → (call s target).ReadOn path := fun path aside =>
    Tree.readOn_node_aside [] [_] rfl (by simpa using arguments)
      (fun _ aside => absurd List.nil_prefix aside) aside
  unfold statement
  cases void : s.returnsVoid with
  | true =>
      rw [void] at aside
      exact Tree.readOn_node_aside [] [_] rfl (by simp [fixed, Tree.typesRead_leaf]) called aside
  | false =>
      rw [void] at aside
      exact Tree.readOn_node_aside [_, _] [_] rfl (by simp [fixed, blank, Tree.typesRead_leaf])
        called aside

/-- In an anonymous method all type names were read, those in the target apart. -/
theorem build_readOn {s : Signature} {target : Handle} {new : Replacement}
    (built : (build s target r).result = .ok new) :
    ∃ at_, new.reused = some at_ ∧ ∀ path, ¬ at_ <+: path → new.tree.ReadOn path := by
  obtain ⟨trees, written, rfl⟩ := build_eq_ok.mp built
  refine ⟨targetPath s, rfl, fun path aside => ?_⟩
  have body : ∀ path, ¬ [2, if s.returnsVoid then 0 else 2, 0] <+: path →
      (block [statement s target.node.tree]).ReadOn path := fun path aside =>
    Tree.readOn_node_aside [_, _] [_, _] rfl (by simp [fixed, blank, Tree.typesRead_leaf])
      (fun _ aside => statement_readOn s _ aside) aside
  have listed := typesRead_parameterList (parameters_typesRead written)
  unfold assemble parameterList?
  unfold targetPath at aside
  rw [← isEmpty_of_length (parameters_length written)] at aside
  cases none : trees.isEmpty with
  | true =>
      rw [none] at aside
      exact Tree.readOn_node_aside [_, _] [] rfl (by simp [fixed, blank, Tree.typesRead_leaf])
        body aside
  | false =>
      rw [none] at aside
      exact Tree.readOn_node_aside [_, _, _] [] rfl
        (by simpa [fixed, blank, Tree.typesRead_leaf] using listed) body aside

end AnonymousMethod

end SharpRefactor
