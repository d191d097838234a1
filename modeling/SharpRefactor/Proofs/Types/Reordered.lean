import SharpRefactor.Proofs.Types.Aliases
import SharpRefactor.Proofs.Types.Identities
import SharpRefactor.Proofs.Types.Surroundings
import SharpRefactor.Syntax.Factory

/-!
The order of declarations. What a spelling means depends on which types and namespaces are known,
not on when they were entered, and what is around a declaration does not depend on where among its
neighbours it stands. So when the declarations in a file and in its namespaces change places, its
table says the same under every key, provided that no two of them share a key.
-/

namespace List.Perm

/-- At most one element has a key, so those with that key are the same in any order. -/
theorem filter_key_eq {α κ : Type} [DecidableEq κ] {l l' : List α} (perm : l'.Perm l) {key : α → κ}
    (distinct : (l.map key).Nodup) (k : κ) :
    l'.filter (key · == k) = l.filter (key · == k) := by
  have few : (l.filter (key · == k)).length ≤ 1 := by
    have keys : (l.filter (key · == k)).map key =
        List.replicate (l.filter (key · == k)).length k := by
      rw [List.map_eq_replicate_iff]
      exact fun a member => by simpa using (List.mem_filter.mp member).2
    rw [← List.nodup_replicate, ← keys]
    exact distinct.sublist (List.filter_sublist.map key)
  have perm := perm.filter (key · == k)
  generalize l.filter (key · == k) = own, l'.filter (key · == k) = own' at few perm
  match own with
  | [] => exact List.perm_nil.mp perm
  | [a] => exact List.perm_singleton.mp perm
  | _ :: _ :: _ => simp at few

end List.Perm

namespace SharpRefactor

/-! ### Tables with the same names -/

structure Table.SameNames (t t' : Table) : Prop where
  has_eq : ∀ k, t'.has k = t.has k
  hasNamespace_eq : ∀ space, t'.hasNamespace space = t.hasNamespace space

namespace Table.SameNames

variable {t t' : Table} {s : Scope} (same : t.SameNames t')

include same

theorem instance?_eq (space name : String) (args : List Ty) :
    t'.instance? space name args = t.instance? space name args := by
  rw [instance?, instance?, same.has_eq]

theorem lookupIn_eq (expand : Expand Ty) (i : Nat) (space : NamespaceScope) (name : String)
    (args : List Ty) :
    t'.lookupIn expand s i space name args = t.lookupIn expand s i space name args := by
  simp only [lookupIn, same.instance?_eq]

theorem lookupOutward_eq (expand : Expand Ty) (name : String) (args : List Ty) (i : Nat)
    (spaces : List NamespaceScope) :
    t'.lookupOutward expand s name args i spaces = t.lookupOutward expand s name args i spaces := by
  induction spaces generalizing i with
  | nil => rfl
  | cons space spaces ih => rw [lookupOutward, lookupOutward, same.lookupIn_eq, ih]

theorem lookupWith_eq (expand : Expand Ty) (name : String) (args : List Ty) :
    t'.lookupWith expand s name args = t.lookupWith expand s name args := by
  simp only [lookupWith, same.instance?_eq, same.lookupOutward_eq]

theorem lookupAfter_eq (container : Option Ty) (space : Option String) (name : String)
    (args : List Ty) :
    t'.lookupAfter container space name args = t.lookupAfter container space name args := by
  simp only [lookupAfter, same.instance?_eq]

theorem namespaceWith_eq (expand : Expand String) (a : TypeSyntax) :
    t'.namespaceWith expand s a = t.namespaceWith expand s a := by
  have known : t'.hasNamespace = t.hasNamespace := funext same.hasNamespace_eq
  rw [namespaceWith, namespaceWith, known]

/-- The answer to a question rests on the names that are known. -/
theorem answerFrom_eq (ask follow : (p : Inquiry) → Option p.Answer) (p : Inquiry) :
    t'.answerFrom ask follow p = t.answerFrom ask follow p := by
  cases p with
  | type s a => cases a with
    | qualified left right => cases right <;> rfl
    | _ => rfl
  | name s name args => exact same.lookupWith_eq ..
  | member s left name args => exact same.lookupAfter_eq ..
  | space s a => exact same.namespaceWith_eq (fun s a => follow (.space s a)) a

/-- So a spelling means the same, since the answers fit together in one way only. -/
theorem resolve_eq : t'.resolve = t.resolve := by
  have answers : t'.answer = t.answer := eq_answer fun p =>
    (answer_eq_answerFrom p).trans (same.answerFrom_eq ..)
  funext s a
  exact congrFun answers (.type s a)

theorem contentsOf_eq : t'.contentsOf = t.contentsOf := by
  have parameters : t'.parameters? = t.parameters? := by
    funext s list
    rw [parameters?, parameters?, same.resolve_eq]
  have signature : t'.signature? = t.signature? := by
    funext s n
    rw [signature?, signature?, same.resolve_eq, parameters]
  have method : t'.method? = t.method? := by
    funext n
    rw [method?, method?, signature]
  have fields : t'.variableMembers = t.variableMembers := by
    funext s form n
    rw [variableMembers, variableMembers, same.resolve_eq]
  have property : t'.property? = t.property? := by
    funext s form n
    rw [property?, property?, same.resolve_eq]
  funext n
  rw [contentsOf, contentsOf, membersOf, membersOf, same.resolve_eq, parameters, signature, method,
    fields, property]

end Table.SameNames

/-! ### What a file declares -/

namespace Node

def defined? (known : Table) (n : Node) : Option (TypeDef × TypeContents) :=
  n.definition?.map (·, known.contentsOf n)

def declaredSpace? (n : Node) : Option String :=
  if n.kind = .namespaceDeclaration then some (Scope.namespaceAt n) else none

theorem defined?_blind (known : Table) : Blind (defined? known) := by
  intro n n' looks
  have mirror := AlikeAround.mirror
  rw [defined?, defined?, definition?, definition?, looks.typeKey?_eq,
    (mirror.sameTokens looks).declaredForm?_eq, mirror.typeParameterNames_eq looks,
    mirror.contentsOf_eq looks Looks.around_eq known]

theorem declaredSpace?_blind : Blind declaredSpace? := by
  intro n n' looks
  rw [declaredSpace?, declaredSpace?, AlikeAround.mirror.kind_eq looks, looks.namespaceAt_eq]

end Node

namespace Table

variable {t : Table} {space : String}

theorem addNamespace_hasNamespace {w : String} :
    (t.addNamespace w).hasNamespace space ↔ t.hasNamespace space ∨ space ∈ Dotted.ways w := by
  by_cases known : space ∈ t.namespaces <;> simp [addNamespace, hasNamespace, known]

theorem enter_hasNamespace {n : Node} : (t.enter n).hasNamespace space ↔
    t.hasNamespace space ∨ ∃ w ∈ n.declaredSpace?, space ∈ Dotted.ways w := by
  rw [enter, Node.declaredSpace?]
  split
  · simp [addNamespace_hasNamespace]
  · have kept : ∀ (k : TypeKey) (form : TypeForm) (parameters : List String),
        (t.declare k form parameters).namespaces = t.namespaces := by
      intro k form parameters
      rw [declare]
      split <;> rfl
    split <;> simp [hasNamespace, kept]

/-- The namespaces of a file are those of the library and the ways to those that it declares. -/
theorem names_hasNamespace {root : Node} : (names root).hasNamespace space ↔
    Library.table.hasNamespace space ∨
      ∃ w ∈ root.descendants.filterMap Node.declaredSpace?, space ∈ Dotted.ways w := by
  rw [names]
  generalize Library.table = t, root.descendants = nodes
  induction nodes generalizing t with
  | nil => simp
  | cons n nodes ih =>
      rw [List.foldl_cons, ih, enter_hasNamespace, or_assoc]
      cases own : n.declaredSpace? <;> simp [own]

/-- Under a key the names of a file have what the library has, and else what the first declaration
of that key says. -/
theorem names_find?_eq (known : Table) (root : Node) (k : TypeKey) :
    (names root).find? k = (Library.all.find? (·.key == k)).or
      (((root.descendants.filterMap (Node.defined? known)).filter (·.1.key == k)).head?.map (·.1)) := by
  have definitions : root.descendants.filterMap Node.definition? =
      (root.descendants.filterMap (Node.defined? known)).map (·.1) := by
    rw [List.map_filterMap]
    congr 1
    funext n
    cases own : n.definition? <;> simp [Node.defined?, own]
  rw [names_find?, List.find?_append, definitions, List.find?_map, List.head?_filter]
  rfl

/-- Under a key a file has what the library and the declarations of that key say. -/
theorem ofRoot_find? (root : Node) (k : TypeKey) :
    let own := (root.descendants.filterMap (Node.defined? (names root))).filter (·.1.key == k)
    (ofRoot root).find? k = ((names root).find? k).map fun d =>
      { d with contents := (own.map (·.2)).foldl .append d.contents } := by
  have contents : (root.descendants.filter (·.definesKey k)).map (names root).contentsOf =
      ((root.descendants.filterMap (Node.defined? (names root))).filter (·.1.key == k)).map (·.2) := by
    induction root.descendants with
    | nil => rfl
    | cons n nodes ih =>
        have own : n.definesKey k = (n.defined? (names root)).any (·.1.key == k) := by
          rw [Node.definesKey, Node.defined?, Option.any_map]
        rw [List.filter_cons, List.filterMap_cons, own, Node.defined?]
        cases n.definition? with
        | none => exact ih
        | some d => by_cases same : d.key = k <;> simp [same, ih]
  rw [ofRoot, extended_find?, contents]

theorem ofRoot_hasNamespace (root : Node) (space : String) :
    (ofRoot root).hasNamespace space = (names root).hasNamespace space :=
  List.foldlRecOn (motive := fun t : Table => t.hasNamespace space = (names root).hasNamespace space)
    _ _ rfl fun _ known _ _ => known

/-- Where the names are the same, so are those of the whole tables. -/
theorem SameNames.ofRoot {root root' : Node} (same : (names root).SameNames (names root')) :
    (Table.ofRoot root).SameNames (Table.ofRoot root') where
  has_eq k := by rw [ofRoot_has, ofRoot_has, same.has_eq]
  hasNamespace_eq space := by rw [ofRoot_hasNamespace, ofRoot_hasNamespace, same.hasNamespace_eq]

theorem declarations_keys (known : Table) (nodes : List Node) :
    (declarations nodes).map (·.2) = (nodes.filterMap (Node.defined? known)).map (·.1.key) := by
  rw [declarations_eq_definitions, List.map_filterMap, List.map_filterMap]
  congr 1
  funext n
  cases own : n.definition? <;> simp [Node.defined?, own]

end Table

/-! ### Declarations that change places -/

/-- The declarations in a file or a namespace change places among what else is in it. -/
inductive Tree.Reorders : Tree → Tree → Prop where
  | swap {k : Kind} {ts us : Forest} (space : k.isSpace) (perm : us.Perm ts)
      (others : us.filter (!·.isOutline) = ts.filter (!·.isOutline)) :
      Reorders (.node k ts) (.node k us)

namespace Tree.Reorders

theorem observe_perm {α : Type} {f : Node → List α} (blind : Node.Blind f) {t u : Tree}
    (steps : Relation.ReflTransGen (Somewhere Reorders) t u) :
    (u.observe f []).Perm (t.observe f []) := by
  induction steps with
  | refl => exact .refl _
  | tail _ step ih =>
      refine .trans ?_ ih
      refine blind.somewhere (S := fun a b => b.Perm a) .refl .append ?_ ?_ step []
      · rintro _ _ ⟨space, -, -⟩
        exact ⟨isOutline_of_isSpace space _, isOutline_of_isSpace space _⟩
      · rintro _ _ above ⟨space, perm, others⟩
        rename_i k ts us
        have head : (node k ts).SameHead (node k us) := .space space others
        have alike : AlikeAround (⟨.node k ts, 0, 0⟩ :: above) (⟨.node k us, 0, 0⟩ :: above) :=
          .cons head (.refl above)
        have own : f ⟨⟨.node k us, 0, 0⟩, above⟩ = f ⟨⟨.node k ts, 0, 0⟩, above⟩ :=
          blind _ _ ⟨head, .refl above⟩
        rw [blind.observe_node, blind.observe_node, own,
          List.flatMap_congr fun u _ => blind.observe_eq u alike]
        exact (perm.flatMap_right _).append_left _

theorem filterMap_perm {α : Type} {f : Node → Option α} (blind : Node.Blind f) {t u : Tree}
    (steps : Relation.ReflTransGen (Somewhere Reorders) t u) :
    ((Node.root u).descendants.filterMap f).Perm ((Node.root t).descendants.filterMap f) := by
  have lists : Node.Blind fun n => (f n).toList := fun n n' looks =>
    congrArg Option.toList (blind n n' looks)
  have perm := observe_perm lists steps
  rwa [observe_root, observe_root, ← List.filterMap_eq_flatMap_toList,
    ← List.filterMap_eq_flatMap_toList] at perm

end Tree.Reorders

namespace Table

section Reordered

variable {t u : Tree} (steps : Relation.ReflTransGen (Tree.Somewhere Tree.Reorders) t u)
  (distinct : ((declarations (Node.root t).descendants).map (·.2)).Nodup)

include steps distinct

/-- Under each key there is the same declaration, if there is one. -/
theorem filter_defined (known : Table) (k : TypeKey) :
    ((Node.root u).descendants.filterMap (Node.defined? known)).filter (·.1.key == k) =
      ((Node.root t).descendants.filterMap (Node.defined? known)).filter (·.1.key == k) := by
  have perm := Tree.Reorders.filterMap_perm (Node.defined?_blind known) steps
  rw [declarations_keys known] at distinct
  exact perm.filter_key_eq distinct k

theorem names_find?_of_reordered (k : TypeKey) :
    (names (Node.root u)).find? k = (names (Node.root t)).find? k := by
  rw [names_find?_eq Library.table, names_find?_eq Library.table, filter_defined steps distinct]

theorem names_of_reordered : (names (Node.root t)).SameNames (names (Node.root u)) where
  has_eq k := Bool.eq_iff_iff.mpr <| by
    rw [← isSome_find?, ← isSome_find?, names_find?_of_reordered steps distinct]
  hasNamespace_eq space := Bool.eq_iff_iff.mpr <| by
    have perm := Tree.Reorders.filterMap_perm Node.declaredSpace?_blind steps
    simp only [names_hasNamespace, perm.mem_iff]

end Reordered

/-- The order of the declarations in a file and in its namespaces does not matter: if no two
declared types share a key, the table has the same definitions, every spelling means the same in it,
and so do the types that are spelt in the declarations, wherever they now stand. -/
theorem ofRoot_of_reordered {t u : Tree}
    (steps : Relation.ReflTransGen (Tree.Somewhere Tree.Reorders) t u)
    (distinct : ((declarations (Node.root t).descendants).map (·.2)).Nodup) :
    (∀ k, (ofRoot (Node.root u)).find? k = (ofRoot (Node.root t)).find? k) ∧
      (∀ s a, (ofRoot (Node.root u)).resolve s a = (ofRoot (Node.root t)).resolve s a) ∧
      ((Node.root u).declaredWith (ofRoot (Node.root u)).resolveNode).Perm
        ((Node.root t).declaredWith (ofRoot (Node.root t)).resolveNode) := by
  have same := names_of_reordered steps distinct
  have resolve := same.ofRoot.resolve_eq
  refine ⟨fun k => ?_, fun s a => by rw [resolve], ?_⟩
  · have defined : Node.defined? (names (Node.root u)) = Node.defined? (names (Node.root t)) := by
      funext n
      rw [Node.defined?, Node.defined?, same.contentsOf_eq]
    rw [ofRoot_find?, ofRoot_find?, names_find?_of_reordered steps distinct, defined,
      filter_defined steps distinct]
  · have nodes : (ofRoot (Node.root u)).resolveNode = (ofRoot (Node.root t)).resolveNode := by
      funext n
      rw [resolveNode, resolveNode, resolve]
    have blind : Node.Blind (ofRoot (Node.root t)).resolveNode := fun n n' looks => by
      rw [resolveNode, resolveNode, looks.around_eq, AlikeAround.mirror.typeSyntax_eq looks]
    rw [nodes, Tree.declaredWith_root, Tree.declaredWith_root]
    exact Tree.Reorders.observe_perm blind.shown steps

/-- A field is of the class that is declared after it, and stays so when that class is declared
first. -/
theorem ofRoot_of_reordered_forward :
    let file (text : String) : Node := .root (parse text).root
    let forward := file "namespace N\x7bclass A\x7bB b;\x7dclass B\x7b\x7d\x7d"
    let backward := file "namespace N\x7bclass B\x7b\x7dclass A\x7bB b;\x7d\x7d"
    ((declarations forward.descendants).map (·.2)).Nodup ∧
      (∀ k, (ofRoot backward).find? k = (ofRoot forward).find? k) ∧
      ((ofRoot backward).find? ⟨"N", "A", 0⟩).map (·.contents.members) =
        some [⟨"b", .named "N" "B" [], .field, false⟩] := by
  intro file forward backward
  let declaration (name : String) (members : Forest) : Tree := .node .classDeclaration
    (Factory.fixed .classKw :: Factory.blank :: .leaf ⟨.identifier, name⟩ :: Factory.fixed .lBrace ::
      members ++ [Factory.fixed .rBrace])
  let field : Tree := .node .fieldDeclaration
    [.node .variableDeclaration
      [Factory.identifierName "B", Factory.blank, .node .variableDeclarator [.leaf ⟨.identifier, "b"⟩]],
     Factory.fixed .semicolon]
  let first := declaration "A" [field]
  let second := declaration "B" []
  let space (classes : Forest) : Tree := .node .namespaceDeclaration
    ([Factory.fixed .namespaceKw, Factory.blank, Factory.identifierName "N", Factory.fixed .lBrace] ++
      classes ++ [Factory.fixed .rBrace])
  have forward_eq : forward = .root (.node .compilationUnit ([] ++ space [first, second] :: [])) := by
    decide +kernel
  have backward_eq : backward = .root (.node .compilationUnit ([] ++ space [second, first] :: [])) := by
    decide +kernel
  have swap : Tree.Reorders (space [first, second]) (space [second, first]) :=
    .swap rfl (((List.Perm.swap first second []).append_left _).append_right _) rfl
  rw [forward_eq, backward_eq]
  have distinct : ((declarations (Node.root (.node .compilationUnit
      ([] ++ space [first, second] :: []))).descendants).map (·.2)).Nodup := by
    decide +kernel
  have same := (ofRoot_of_reordered (.single (.inside rfl (.here swap))) distinct).1
  refine ⟨distinct, same, ?_⟩
  rw [same]
  decide +kernel

end Table
end SharpRefactor
