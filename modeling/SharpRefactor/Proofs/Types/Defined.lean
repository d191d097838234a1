import SharpRefactor.Proofs.Types.Answers
import SharpRefactor.Syntax.Parse
import SharpRefactor.Types.Resolver

/-!
The table of a file. Its definitions are those of the library and of the declarations in the file,
and what they say is read with all names known. So every type in it is built from keys of the table,
and the same goes for all types that are answered.
-/

namespace SharpRefactor

namespace Table

theorem has_iff {t : Table} {k : TypeKey} : t.has k ↔ ∃ d ∈ t.defs, d.key = k := by
  simp [has]

theorem isSome_find? {t : Table} {k : TypeKey} : (t.find? k).isSome ↔ t.has k := by
  simp [find?, has]

/-! ### Names -/

/-- How a definition comes about before contents are read. -/
inductive Entered (nodes : List Node) (d : TypeDef) : Prop where
  | library (listed : d ∈ Library.all)
  | declared (n : Node) (member : n ∈ nodes) (key : n.typeKey? = some d.key)
      (typeParameters : d.typeParameters = n.typeParameterNames) (new : d.contents = .empty)

theorem Entered.mono {nodes nodes' : List Node} {d : TypeDef} (h : Entered nodes d)
    (more : ∀ n ∈ nodes, n ∈ nodes') : Entered nodes' d := by
  cases h with
  | library listed => exact .library listed
  | declared n member key typeParameters new => exact .declared n (more n member) key typeParameters new

theorem enter_defs {t : Table} {n : Node} {d : TypeDef} (member : d ∈ (t.enter n).defs) :
    d ∈ t.defs ∨ Entered [n] d := by
  unfold enter at member
  split at member
  · exact .inl member
  · split at member
    · next form k _ key =>
      unfold declare at member
      split at member
      · exact .inl member
      · rcases List.mem_append.mp member with old | new
        · exact .inl old
        · obtain rfl := List.mem_singleton.mp new
          exact .inr (.declared n (by simp) key rfl rfl)
    · exact .inl member

theorem names_defs {root : Node} {d : TypeDef} (member : d ∈ (names root).defs) :
    Entered root.descendants d := by
  have run : ∀ (nodes seen : List Node) (t : Table), (∀ d ∈ t.defs, Entered seen d) →
      ∀ d ∈ (nodes.foldl enter t).defs, Entered (seen ++ nodes) d := by
    intro nodes
    induction nodes with
    | nil => simp
    | cons n nodes ih =>
        intro seen t known
        have step := ih (seen ++ [n]) (t.enter n) fun d member => by
          rcases enter_defs member with old | new
          · exact (known d old).mono (by simp +contextual)
          · exact new.mono (by simp)
        simpa using step
  exact run _ [] Library.table (fun d listed => .library listed) d member

theorem enter_has {t : Table} {n : Node} {k : TypeKey} (has : t.has k) : (t.enter n).has k := by
  unfold enter
  split
  · exact has
  · split
    · unfold declare
      split
      · exact has
      · simp only [Table.has, List.any_append, Bool.or_eq_true] at has ⊢
        exact .inl has
    · exact has

theorem names_has {root : Node} {k : TypeKey} (has : Library.table.has k) : (names root).has k := by
  have run : ∀ (nodes : List Node) (t : Table), t.has k → (nodes.foldl enter t).has k := by
    intro nodes
    induction nodes with
    | nil => exact fun _ has => has
    | cons n nodes ih => exact fun t has => ih _ (enter_has has)
  exact run _ _ has

theorem library_arity : ∀ d ∈ Library.all, d.typeParameters.length = d.key.arity := by
  decide

/-- The library speaks of its own types and of type parameters that a definition has. -/
theorem library_contents : ∀ d ∈ Library.all, ∀ type ∈ d.contents.types,
    type.BuiltFrom (Library.table.has ·) (· ∈ d.typeParameters) := by
  have checked : ∀ d ∈ Library.all, ∀ type ∈ d.contents.types,
      (∀ k ∈ type.keys, Library.table.has k) ∧ ∀ name ∈ type.parameters, name ∈ d.typeParameters := by
    decide +kernel
  exact fun d listed type written => Ty.BuiltFrom.iff_occurring.mpr (checked d listed type written)

theorem keyIn_arity {outer : Option (Option TypeKey)} {n : Node} {k : TypeKey}
    (key : n.keyIn outer = some k) : k.arity = n.typeParameterNames.length := by
  obtain ⟨name, -, key⟩ := Option.bind_eq_some_iff.mp key
  split at key
  · cases key
    rfl
  · cases key
  · cases key
    rfl

/-! ### Contents -/

theorem extend_defs {t : Table} {k : TypeKey} {contents : TypeContents} {d : TypeDef}
    (member : d ∈ (t.extend k contents).defs) :
    ∃ old ∈ t.defs, d.key = old.key ∧ d.typeParameters = old.typeParameters ∧
      ∀ type ∈ d.contents.types,
        type ∈ old.contents.types ∨ (d.key = k ∧ type ∈ contents.types) := by
  obtain ⟨old, known, rfl⟩ := List.mem_map.mp member
  refine ⟨old, known, ?_⟩
  split
  · next same =>
    exact ⟨rfl, rfl, fun type written => (TypeContents.mem_types_append written).imp_right (⟨same, ·⟩)⟩
  · exact ⟨rfl, rfl, fun type written => .inl written⟩

theorem extend_has {t : Table} {k k' : TypeKey} {contents : TypeContents} :
    (t.extend k contents).has k' = t.has k' := by
  simp only [has, extend, List.any_map]
  congr 1
  funext d
  simp only [Function.comp]
  split <;> rfl

theorem ofRoot_has {root : Node} {k : TypeKey} : (ofRoot root).has k = (names root).has k :=
  List.foldlRecOn (motive := fun t : Table => t.has k = (names root).has k) _ _ rfl
    fun _ known _ _ => extend_has.trans known

/-- Every type in a definition is in the library or was read from a declaration of that type. -/
theorem ofRoot_defs {root : Node} {d : TypeDef} (member : d ∈ (ofRoot root).defs) :
    ∃ old ∈ (names root).defs, d.key = old.key ∧ d.typeParameters = old.typeParameters ∧
      ∀ type ∈ d.contents.types, type ∈ old.contents.types ∨
        ∃ n ∈ root.descendants, type ∈ ((names root).contentsOf n).types := by
  refine List.foldlRecOn (motive := fun t : Table => ∀ d ∈ t.defs, ∃ old ∈ (names root).defs,
    d.key = old.key ∧ d.typeParameters = old.typeParameters ∧
      ∀ type ∈ d.contents.types, type ∈ old.contents.types ∨
        ∃ n ∈ root.descendants, type ∈ ((names root).contentsOf n).types) _ _
    (fun d known => ⟨d, known, rfl, rfl, fun type written => .inl written⟩)
    (fun t known entry declared d member => ?_) d member
  obtain ⟨middle, before, key, parameters, written⟩ := extend_defs member
  obtain ⟨old, entered, key', parameters', written'⟩ := known middle before
  refine ⟨old, entered, key.trans key', parameters.trans parameters', fun type mentioned => ?_⟩
  rcases written type mentioned with earlier | new
  · exact written' type earlier
  · obtain ⟨m, inside, made⟩ := List.mem_filterMap.mp declared
    obtain ⟨form, -, made⟩ := Option.bind_eq_some_iff.mp made
    obtain ⟨key, -, rfl⟩ := Option.map_eq_some_iff.mp made
    exact .inr ⟨m, inside, new.2⟩

/-! ### What declarations say -/

section

variable {t : Table} {keys : TypeKey → Prop} {names : String → Prop} (h : t.Admits keys)

include h

theorem resolve_built {s : Scope} (own : ∀ name ∈ s.typeParameters, names name) {a : TypeSyntax}
    {type : Ty} (found : t.resolve s a = some type) : type.BuiltFrom keys names :=
  (h.resolve found).mono (fun _ key => key) own

theorem parameters?_built {s : Scope} (own : ∀ name ∈ s.typeParameters, names name) {list : Node}
    {parameters : List Parameter} (read : t.parameters? s list = some parameters) :
    ∀ p ∈ parameters, p.type.BuiltFrom keys names := by
  unfold parameters? at read
  generalize list.parameters = nodes at read
  induction nodes generalizing parameters with
  | nil =>
      cases read
      simp
  | cons n nodes ih =>
      simp only [List.mapM_cons, Option.bind_eq_bind, Option.pure_def, Option.bind_eq_some_iff,
        Option.some.injEq] at read
      obtain ⟨p, ⟨syntax_, -, type, resolved, word, -, rfl⟩, rest, others, rfl⟩ := read
      exact List.forall_mem_cons.mpr ⟨resolve_built h own resolved, ih others⟩

theorem signature?_built {s : Scope} (own : ∀ name ∈ s.typeParameters, names name) {n : Node}
    {signature : Signature} (read : t.signature? s n = some signature) :
    ∀ type ∈ signature.types, type.BuiltFrom keys names := by
  simp only [signature?, Option.bind_eq_bind, Option.pure_def, Option.bind_eq_some_iff,
    Option.some.injEq] at read
  obtain ⟨syntax_, -, returns, resolved, list, -, parameters, listed, rfl⟩ := read
  refine List.forall_mem_cons.mpr ⟨resolve_built h own resolved, fun type member => ?_⟩
  obtain ⟨p, stated, rfl⟩ := List.mem_map.mp member
  exact parameters?_built h own listed p stated

theorem variableMembers_built {s : Scope} (own : ∀ name ∈ s.typeParameters, names name)
    (form : MemberForm) (n : Node) :
    ∀ m ∈ t.variableMembers s form n, m.type.BuiltFrom keys names := by
  intro m member
  unfold variableMembers at member
  split at member
  · cases member
  · split at member
    · cases member
    · next found =>
      obtain ⟨declarator, -, made⟩ := List.mem_filterMap.mp member
      obtain ⟨word, -, rfl⟩ := Option.map_eq_some_iff.mp made
      obtain ⟨syntax_, -, resolved⟩ := Option.bind_eq_some_iff.mp found
      exact resolve_built h own resolved

theorem property?_built {s : Scope} (own : ∀ name ∈ s.typeParameters, names name)
    {form : MemberForm} {n : Node} {m : MemberDef} (read : t.property? s form n = some m) :
    m.type.BuiltFrom keys names := by
  simp only [property?, Option.bind_eq_bind, Option.pure_def, Option.bind_eq_some_iff,
    Option.some.injEq] at read
  obtain ⟨syntax_, -, word, -, type, resolved, rfl⟩ := read
  exact resolve_built h own resolved

/-- The types that a declaration writes down are built from the type parameters in scope at it and
at its methods. -/
theorem contentsOf_built {n : Node} (own : ∀ name ∈ (Scope.around n).typeParameters, names name)
    (inner : ∀ m ∈ n.childrenOf .methodDeclaration,
      ∀ name ∈ (Scope.around m).typeParameters, names name) :
    ∀ type ∈ (t.contentsOf n).types, type.BuiltFrom keys names := by
  intro type written
  rw [TypeContents.mem_types] at written
  unfold contentsOf at written
  split at written
  · rcases written with base | ⟨m, method, -⟩ | ⟨ps, made, -⟩ | ⟨m, member, -⟩ |
      ⟨s, called, mentioned⟩
    · cases base
    · cases method
    · cases made
    · cases member
    · exact signature?_built h own called type mentioned
  · unfold membersOf at written
    dsimp only at written
    rcases written with base | ⟨m, method, mentioned⟩ | ⟨ps, made, p, listed, rfl⟩ |
      ⟨m, member, rfl⟩ | ⟨s, called, -⟩
    · cases listed : n.childOf? .baseList with
      | none => simp [listed] at base
      | some list =>
          rw [listed] at base
          obtain ⟨b, -, resolved⟩ := List.mem_filterMap.mp base
          exact resolve_built h own resolved
    · obtain ⟨child, listed, read⟩ := List.mem_filterMap.mp method
      simp only [method?, Option.bind_eq_bind, Option.pure_def, Option.bind_eq_some_iff,
        Option.some.injEq] at read
      obtain ⟨word, -, signature, read, rfl⟩ := read
      exact signature?_built h (inner child listed) read type mentioned
    · obtain ⟨child, -, read⟩ := List.mem_filterMap.mp made
      obtain ⟨list, -, read⟩ := Option.bind_eq_some_iff.mp read
      exact parameters?_built h own read p listed
    · simp only [List.mem_append, List.mem_flatMap, List.mem_filterMap] at member
      rcases member with ((⟨child, -, member⟩ | ⟨child, -, member⟩) | ⟨child, -, read⟩) |
        ⟨child, -, read⟩
      · exact variableMembers_built h own _ child m member
      · exact variableMembers_built h own _ child m member
      · exact property?_built h own read
      · exact property?_built h own read
    · cases called

end

/-! ### The table of a file -/

theorem names_admits {root : Node} {keys : TypeKey → Prop}
    (known : ∀ k, (names root).has k → keys k) : (names root).Admits keys where
  known := known
  builtin entry listed := by
    have all : ∀ entry ∈ Ty.predefined, Library.table.has ⟨"System", entry.2.2, 0⟩ := by
      decide
    exact known _ (names_has (all entry listed))

theorem ofRoot_arity {root : Node} {d : TypeDef} (member : d ∈ (ofRoot root).defs) :
    d.typeParameters.length = d.key.arity := by
  obtain ⟨old, known, key, parameters, -⟩ := ofRoot_defs member
  rw [key, parameters]
  cases names_defs known with
  | library listed => exact library_arity old listed
  | declared n _ key typeParameters _ => rw [keyIn_arity key, typeParameters]

/-- The table of a file is closed under everything that its definitions mention. -/
theorem ofRoot_closed {root : Node} {keys : TypeKey → Prop} {stray : String → Prop}
    (known : ∀ k, (ofRoot root).has k → keys k)
    (around : ∀ n ∈ root.descendants, ∀ name ∈ (Scope.around n).typeParameters, stray name)
    (inner : ∀ n ∈ root.descendants, ∀ m ∈ n.childrenOf .methodDeclaration,
      ∀ name ∈ (Scope.around m).typeParameters, stray name) : (ofRoot root).Closed keys stray where
  admits := by
    have admitted : (names root).Admits keys := names_admits fun k has => known k (ofRoot_has.trans has)
    exact ⟨known, admitted.builtin⟩
  arity _ member := ofRoot_arity member
  contents d member type mentioned := by
    have admitted : (names root).Admits keys := names_admits fun k has => known k (ofRoot_has.trans has)
    obtain ⟨old, entered, key, parameters, written⟩ := ofRoot_defs member
    rw [parameters]
    rcases written type mentioned with before | ⟨n, inside, read⟩
    · cases names_defs entered with
      | library listed =>
          exact (library_contents old listed type before).mono
            (fun k has => admitted.known k (names_has has)) fun _ own => .inl own
      | declared n _ _ _ new =>
          rw [new] at before
          cases before
    · exact contentsOf_built admitted (fun name own => .inr (around n inside name own))
        (fun m method name own => .inr (inner n inside m method name own)) type read

def Defines (t : Table) (type : Ty) : Prop := ∀ k ∈ type.keys, (t.find? k).isSome

theorem defines_iff {t : Table} {type : Ty} :
    t.Defines type ↔ type.BuiltFrom (t.has ·) fun _ => True := by
  rw [Ty.BuiltFrom.iff_occurring]
  simp [Defines, isSome_find?]

end Table

/-- Every type that is answered for a node is defined throughout, and so are the types with which
values of it are called. -/
theorem Resolver.typeOf_defines {tree : SyntaxTree} {h : Handle} {type : Ty}
    (found : (ofTree tree).typeOf h = some type) :
    let t := Table.ofRoot tree.rootNode
    t.Defines type ∧
      ∀ s, (ofTree tree).signatureOf type = some s → ∀ u ∈ s.types, t.Defines u := by
  intro t
  have closed : t.Closed (t.has ·) fun _ => True :=
    Table.ofRoot_closed (fun _ has => has) (fun _ _ _ _ => trivial) fun _ _ _ _ _ _ => trivial
  let everything : View := ⟨fun _ => True, fun _ _ => True⟩
  have fits : everything.Fits t fun _ => True := by
    constructor <;> simp [everything]
  obtain ⟨-, found⟩ := Option.ite_none_right_eq_some.mp found
  have built : type.BuiltFrom (t.has ·) fun _ => True :=
    Table.typeOf?_built closed fits (n := h.node) trivial found
  refine ⟨Table.defines_iff.mpr built, fun s called u member => Table.defines_iff.mpr ?_⟩
  exact closed.signatureOf? (fun _ _ => trivial) built called u member

/-- The delegate type of a field, read in a text that breaks off. -/
theorem Resolver.typeOf_defines_field :
    let root := (parse "class C\x7bSystem.Func<C,int> f;void M()\x7bf").root
    let tree : SyntaxTree := ⟨root, .parsed 0 root⟩
    let type : Ty := .named "System" "Func" [.named "" "C" [], .int]
    let t := Table.ofRoot tree.rootNode
    (ofTree tree).typeOf ⟨tree, tree.rootNode.atOffset 38⟩ = some type ∧ t.Defines type ∧
      ∀ s, (ofTree tree).signatureOf type = some s → ∀ u ∈ s.types, t.Defines u := by
  intro root tree type t
  have found : (ofTree tree).typeOf ⟨tree, tree.rootNode.atOffset 38⟩ = some type := by
    decide +kernel
  exact ⟨found, typeOf_defines found⟩

end SharpRefactor
