import SharpRefactor.Proofs.Refactor.Edits
import SharpRefactor.Proofs.Refactor.Faithful
import SharpRefactor.Proofs.Types.Judging

/-!
What becomes of the type of a target. The anonymous method that takes its place has the type that
the surroundings of the target ask of a function there, and no type if they ask for none. So the
type is kept exactly where they ask a function for the type that the target had: always for a method
group that is a first value or is cast, not always for an argument, where a function fits more
methods than the group did.
-/

namespace SharpRefactor

namespace Factory

variable {ts : Forest}

theorem level_separated {opening closing : Kind} (level : Level Kind.isFree ts) :
    Level Kind.isFree (separated opening closing ts) := by
  cases ts with
  | nil => exact Level.cons_leaf _ (Level.leaf _)
  | cons item items =>
      obtain ⟨first, level⟩ := List.forall_mem_cons.mp level
      have rest : Level Kind.isFree (items.flatMap fun t => [fixed .comma, blank, t]) :=
        Level.flatMap fun t member => Level.cons_leaf _ <| Level.cons_leaf _ <|
          List.forall_mem_singleton.mpr (level t member)
      exact Level.cons_leaf _ (List.forall_mem_cons.mpr ⟨first, rest.append (Level.leaf _)⟩)

theorem level_map {f : Tree → Tree} (each : ∀ t ∈ ts, (f t).Nested ∧ (f t).kind.isFree) :
    Level Kind.isFree (ts.map f) := by
  intro u member
  obtain ⟨t, inside, rfl⟩ := List.mem_map.mp member
  exact (each t inside).imp_right fun free _ => free

end Factory

namespace AnonymousMethod

variable {s : Signature} {target : Tree} {trees : Forest}

theorem call_nested (old : target.Nested) (free : target.kind.isFree) : (call s target).Nested := by
  have name (p : Parameter) : (Factory.identifierName p.name).Nested :=
    Level.node_of_isFree (Level.leaf _)
  have arguments : Level Kind.isFree
      ((s.parameters.map fun p => Factory.identifierName p.name).map Factory.argument) := by
    refine Factory.level_map fun t member => ?_
    obtain ⟨p, -, rfl⟩ := List.mem_map.mp member
    exact ⟨Level.node_of_isFree (Level.cons (name p) rfl Level.nil), rfl⟩
  exact Level.node_of_isFree <| Level.cons old free <|
    Level.cons (Level.node_of_isFree (Factory.level_separated arguments)) rfl Level.nil

theorem statement_nested (old : target.Nested) (free : target.kind.isFree) :
    (statement s target).Nested ∧ (statement s target).kind.isFree := by
  have called : (call s target).Nested := call_nested old free
  unfold statement
  split
  · exact ⟨Level.node_of_isFree (Level.cons called rfl (Level.leaf _)), rfl⟩
  · exact ⟨Level.node_of_isFree <| Level.cons_leaf _ <| Level.cons_leaf _ <|
      Level.cons called rfl (Level.leaf _), rfl⟩

theorem assemble_nested (old : target.Nested) (free : target.kind.isFree)
    (level : Level Kind.isFree trees) : (assemble s target trees).Nested := by
  obtain ⟨nested, inner⟩ := statement_nested (s := s) old free
  have body : (Factory.block [statement s target]).Nested :=
    Level.node_of_isFree <| Level.cons_leaf _ <| Level.cons_leaf _ <|
      Level.cons nested inner <| Level.cons_leaf _ (Level.leaf _)
  have list : Level Kind.isFree (parameterList? trees).toList := by
    unfold parameterList?
    split
    · exact Level.nil
    · exact Level.cons (Level.node_of_isFree (Factory.level_separated level)) rfl Level.nil
  exact Level.node_of_isFree <| Level.cons_leaf _ <| list.append <| Level.cons_leaf _ <|
    Level.cons body rfl Level.nil

theorem parameter_nested {p : Parameter} {spelled : Except Surrounded String} {tree : Tree}
    (made : parameter p spelled = .ok tree) : tree.Nested ∧ tree.kind.isFree := by
  obtain ⟨text, type, -, read, rfl⟩ := parameter_eq_ok_iff.mp made
  obtain ⟨nested, free⟩ := parseTypeName_nested read
  exact ⟨Level.node_of_isFree <| Level.cons nested free <| Level.cons_leaf _ (Level.leaf _), rfl⟩

theorem parameters_level {r : Resolver} {offset : Nat} {ps : List Parameter}
    (written : (parameters r offset ps).result = .ok trees) : Level Kind.isFree trees := by
  rw [parameters_eq_ok_iff] at written
  induction written with
  | nil => exact Level.nil
  | cons first _ ih =>
      obtain ⟨nested, free⟩ := parameter_nested first
      exact Level.cons nested free ih

theorem size_assemble_pos : 0 < (assemble s target trees).size := by
  rw [assemble, Factory.anonymousMethod, Tree.size_node, List.cons_append, Forest.size_cons]
  exact Nat.add_pos_left (by decide) _

end AnonymousMethod

namespace MethodGroup

/-- The target of a candidate is a node of the tree, and it is not empty. -/
theorem wholeExpression_real {tree : SyntaxTree} {selection : TextRange} {c : Context} {h : Handle}
    (isUnit : tree.root.kind = .compilationUnit) (isNode : tree.root.isNode)
    (found : RuleSet.nodeAt? tree selection c = some h)
    (candidate : isCandidate c h.node selection) : 0 < (wholeExpression h).node.tree.size := by
  obtain ⟨rfl, inside⟩ := RuleSet.nodeAt?_eq_some isNode found
  have name : h.node.kind = .identifierName := by
    simp only [isCandidate, isValueRead, Bool.and_eq_true, beq_iff_eq] at candidate
    exact candidate.2.1.1.1
  have real : 0 < h.node.tree.size := by
    rcases RuleSet.nodeAt?_contains found with root | holds
    · rw [root] at name
      cases isUnit.symm.trans name
    · simp only [TextRange.contains, Bool.and_eq_true, decide_eq_true_eq] at holds
      have last := h.node.stop_eq
      change h.node.start ≤ _ ∧ _ < h.node.stop at holds
      omega
  change 0 < (h.node.memberAccess?.getD h.node).tree.size
  cases access : h.node.memberAccess? with
  | none => exact real
  | some outer =>
      obtain ⟨start, stop⟩ :=
        Node.extent_of_parent? inside (Option.filter_eq_some_iff.mp access).1
      rw [Node.stop_eq, Node.stop_eq] at stop
      change 0 < outer.tree.size
      omega

end MethodGroup

namespace Table

/-- What is asked of a first value and of what is cast does not depend on what stands elsewhere. -/
theorem targetWith_of_fixed (t : Table) (j j' : Judge) {n p : Node}
    (up : (Node.unparenthesize n.place n.above).parent? = some p)
    (fixed : p.kind = .equalsValueClause ∨ p.kind = .castExpression) :
    t.targetWith j n = t.targetWith j' n := by
  rcases fixed with kind | kind <;>
    simp only [targetWith, up, Option.bind_eq_bind, Option.bind_some, kind]

theorem asked_of_fixed (t : Table) {n p : Node}
    (up : (Node.unparenthesize n.place n.above).parent? = some p)
    (fixed : p.kind = .equalsValueClause ∨ p.kind = .castExpression) : t.asked n = t.target n := by
  obtain ⟨depth, deep⟩ : ∃ depth, maxDepth = depth + 1 := ⟨48, rfl⟩
  rw [asked, target, deep]
  exact t.targetWith_of_fixed _ _ up fixed

end Table

/-- The function is found where the expression was, and has the type that is asked of a function
there. -/
theorem Exchange.ToFunction.exists_typeOf? {x : Exchange} (h : x.ToFunction) :
    ∃ new, (Node.root x.result).follow? x.node.path = some new ∧
      new.kind = .anonymousMethodExpression ∧
      new.range = .ofSize x.node.range.start x.graft.size ∧
      (Table.ofRoot (Node.root x.result)).typeOf? new =
        ((Table.ofRoot (Node.root x.tree)).asked x.node).filter
          ((Table.ofRoot (Node.root x.tree)).converts .function) := by
  obtain ⟨new, at_⟩ := (At.root (x := x)).exists_end
  have pair : x.Pairs x.node new := ⟨_, at_⟩
  have start : new.start = x.node.start := at_.start_eq.1 rfl
  refine ⟨new, at_.found.2, pair.kind_new.trans h.new, ?_, h.typeOf?_eq pair⟩
  change TextRange.ofSize new.start new.tree.size = .ofSize x.node.start x.graft.size
  rw [start, pair.tree_new]

/-- An anonymous method that takes the place of the target of an offer in the tree of a text. -/
theorem toFunction_of_candidate {text : String} {tree : SyntaxTree}
    (read : tree.root = (parse text).root) {selection : TextRange} {c : Context} {h : Handle}
    (found : RuleSet.nodeAt? tree selection c = some h)
    (candidate : MethodGroup.isCandidate c h.node selection) {s : Signature} {trees : Forest}
    (level : Level Kind.isFree trees)
    (inside : (MethodGroup.wholeExpression h).node ∈ (Node.root tree.root).descendants) :
    (Exchange.mk tree.root (MethodGroup.wholeExpression h).node
      (AnonymousMethod.assemble s (MethodGroup.wholeExpression h).node.tree trees)
      inside rfl).ToFunction := by
  have nested : (Node.root tree.root).tree.Nested := read ▸ parse_nested text
  have kind := MethodGroup.wholeExpression_kind candidate
  have old : (MethodGroup.wholeExpression h).node.kind = .identifierName ∨
      (MethodGroup.wholeExpression h).node.kind = .memberAccessExpression := kind.imp_left And.left
  have free : (MethodGroup.wholeExpression h).node.tree.kind.isFree := by
    change (MethodGroup.wholeExpression h).node.kind.isFree
    rcases old with own | own <;> rw [own] <;> rfl
  have led := (Node.mem_descendants_root.mp inside).2
  exact
    { old
      read := fun name => by
        rcases kind with ⟨-, value, -⟩ | access
        · exact value
        · cases name.symm.trans access
      new := rfl
      nested
      nested' := AnonymousMethod.assemble_nested (nested.of_follow? led) free level
      real := MethodGroup.wholeExpression_real (read ▸ rfl) (read ▸ rfl) found candidate
      real' := AnonymousMethod.size_assemble_pos }

/-- What is made of an offer: an anonymous method in the place of the target, with the type that is
asked of a function there. -/
theorem commit_typeOf_of_first? {text : String} {tree : SyntaxTree}
    (read : tree.root = (parse text).root) {selection : TextRange} {c : Context} {o : Offer}
    {done : Committed} {next : Nat}
    (offered : (RuleSet.builtin.first? tree selection c).result = some o)
    (committed : (o.commit tree c .none next).result = .ok done) :
    ∃ new, done.tree.rootNode.follow? o.found.target.node.path = some new ∧
      new.kind = .anonymousMethodExpression ∧ new.range = done.annotation ∧
      (Table.ofRoot done.tree.rootNode).typeOf? new =
        ((Table.ofRoot tree.rootNode).asked o.found.target.node).filter
          ((Table.ofRoot tree.rootNode).converts .function) := by
  obtain ⟨h, type, signature, found, candidate, -, -, rfl⟩ :=
    RuleSet.first?_builtin_eq_some.mp offered
  obtain ⟨rfl, inside⟩ := RuleSet.nodeAt?_eq_some (read ▸ rfl) found
  have inside := MethodGroup.wholeExpression_mem inside
  obtain ⟨realized, -⟩ := Offer.commit_eq_ok committed
  obtain ⟨replacement, built, -⟩ := Offer.realize_eq_ok.mp realized
  obtain ⟨trees, written, rfl⟩ := AnonymousMethod.build_eq_ok.mp built
  have level := AnonymousMethod.parameters_level written
  have function := toFunction_of_candidate read found candidate (s := signature) level inside
  rw [Offer.commit_of_build built] at committed
  cases (congrArg (Except.map _) (Edit.apply_own inside _ (next + 1))).symm.trans committed
  exact function.exists_typeOf?

/-- A method group that is a first value or is cast keeps its type: what is asked for there does not
depend on what stands there, and a type that it fits can be called. -/
theorem commit_typeOf_methods {text : String} {tree : SyntaxTree}
    (read : tree.root = (parse text).root) {selection : TextRange} {c : Context}
    (asks : c.resolver = Resolver.ofTree tree) {o : Offer} {done : Committed} {next : Nat}
    {g : MethodGroup} {p : Node}
    (offered : (RuleSet.builtin.first? tree selection c).result = some o)
    (committed : (o.commit tree c .none next).result = .ok done)
    (group : (Table.ofRoot tree.rootNode).denotes o.found.target.node = some (.methods g))
    (up : (Node.unparenthesize o.found.target.node.place o.found.target.node.above).parent? =
      some p)
    (fixed : p.kind = .equalsValueClause ∨ p.kind = .castExpression) :
    ∃ new, done.tree.rootNode.follow? o.found.target.node.path = some new ∧
      (Table.ofRoot done.tree.rootNode).typeOf? new =
        (Table.ofRoot tree.rootNode).typeOf? o.found.target.node := by
  obtain ⟨new, led, -, -, retyped⟩ := commit_typeOf_of_first? read offered committed
  obtain ⟨h, type, signature, -, candidate, typed, called, rfl⟩ :=
    RuleSet.first?_builtin_eq_some.mp offered
  simp only [asks, Resolver.ofTree] at typed called
  have typed := (Option.ite_none_right_eq_some.mp typed).2
  have own := typed
  simp only [Table.typeOf?, memberAccessOfName?_wholeExpression candidate, group] at own
  obtain ⟨asked, -⟩ := Option.filter_eq_some_iff.mp own
  refine ⟨new, led, ?_⟩
  rw [retyped, typed, Table.asked_of_fixed _ up fixed, asked]
  exact Option.filter_eq_some_iff.mpr ⟨rfl, Option.isSome_iff_exists.mpr ⟨signature, called⟩⟩

/-- Carrying out an offer puts an anonymous method in the place of the target. Its type is the one
that the surroundings of the target ask of a function there, so it is the type that the target had
exactly where they ask for that one. -/
theorem first?_builtin_commit_typeOf_iff (text : String) (serial next : Nat) (selection : TextRange)
    (c : Context) :
    let root := (parse text).root
    let tree : SyntaxTree := ⟨root, .parsed serial root⟩
    let t := Table.ofRoot tree.rootNode
    let c' := { c with resolver := Resolver.ofTree tree }
    ∀ o done, (RuleSet.builtin.first? tree selection c').result = some o →
      (o.commit tree c' .none next).result = .ok done →
      ∃ new, done.tree.rootNode.follow? o.found.target.node.path = some new ∧
        new.kind = .anonymousMethodExpression ∧ new.range = done.annotation ∧
        (Resolver.ofTree done.tree).typeOf ⟨done.tree, new⟩ =
          (t.asked o.found.target.node).filter (t.converts .function) ∧
        ((Resolver.ofTree done.tree).typeOf ⟨done.tree, new⟩ =
            (Resolver.ofTree tree).typeOf o.found.target ↔
          t.asked o.found.target.node = (Resolver.ofTree tree).typeOf o.found.target) := by
  intro root tree t c' o done offered committed
  obtain ⟨new, led, kind, range, retyped⟩ := commit_typeOf_of_first? rfl offered committed
  obtain ⟨h, type, signature, -, -, typed, called, rfl⟩ :=
    RuleSet.first?_builtin_eq_some.mp offered
  refine ⟨new, led, kind, range, ?_⟩
  have answer : (Resolver.ofTree done.tree).typeOf ⟨done.tree, new⟩ =
      (Table.ofRoot done.tree.rootNode).typeOf? new := by
    simp [Resolver.ofTree, SyntaxTree.contains]
  have callable : t.converts .function type :=
    Option.isSome_iff_exists.mpr ⟨signature, called⟩
  have kept : (t.asked (MethodGroup.wholeExpression h).node).filter (t.converts .function) =
      some type ↔ t.asked (MethodGroup.wholeExpression h).node = some type := by
    rw [Option.filter_eq_some_iff]
    exact and_iff_left callable
  refine ⟨answer.trans retyped, ?_⟩
  rw [answer, retyped, show _ = some type from typed]
  exact kept

/-- The method group that a field of a delegate type begins with. -/
theorem first?_builtin_commit_typeOf_field :
    let root := (parse "class C\x7bdelegate void D();void F()\x7b\x7dD d=F;\x7d").root
    let tree : SyntaxTree := ⟨root, .parsed 0 root⟩
    let c : Context := ⟨Resolver.ofTree tree, false, .project, false⟩
    ∃ o done new, (RuleSet.builtin.first? tree (.empty 40) c).result = some o ∧
      (o.commit tree c .none 1).result = .ok done ∧
      done.tree.rootNode.follow? o.found.target.node.path = some new ∧
      (Resolver.ofTree done.tree).typeOf ⟨done.tree, new⟩ =
        (Resolver.ofTree tree).typeOf o.found.target ∧
      (Resolver.ofTree tree).typeOf o.found.target = some (.named "C" "D" []) := by
  intro root tree c
  have runs : (RuleSet.builtin.first? tree (.empty 40) c).result.any fun o =>
      (o.commit tree c .none 1).result.toOption.isSome &&
        (Table.ofRoot tree.rootNode).asked o.found.target.node == some (.named "C" "D" []) &&
        (Resolver.ofTree tree).typeOf o.found.target == some (.named "C" "D" []) := by
    decide +kernel
  obtain ⟨o, offered, runs⟩ := (Option.any_eq_true _ _).mp runs
  simp only [Bool.and_eq_true, beq_iff_eq] at runs
  obtain ⟨⟨made, asked⟩, typed⟩ := runs
  cases committed : (o.commit tree c .none 1).result with
  | error e =>
      rw [committed] at made
      cases made
  | ok done =>
      obtain ⟨new, led, -, -, -, kept⟩ :=
        first?_builtin_commit_typeOf_iff _ 0 1 (.empty 40) c o done offered committed
      exact ⟨o, done, new, offered, committed, led, kept.mpr (asked.trans typed.symm), typed⟩

/-- An argument of an overloaded method: the method group fits only the second overload, the
anonymous method fits both and takes the first. -/
theorem first?_builtin_commit_typeOf_overload :
    let text := "class C\x7bvoid F(string s)\x7b\x7dvoid G(System.Action<int> f)\x7b\x7d" ++
      "void G(System.Action<string> f)\x7b\x7dvoid M()\x7bG(F);\x7d\x7d"
    let root := (parse text).root
    let tree : SyntaxTree := ⟨root, .parsed 0 root⟩
    let c : Context := ⟨Resolver.ofTree tree, false, .project, false⟩
    (parse text).ok = true ∧
      ((RuleSet.builtin.first? tree (.empty 100) c).result.bind fun o =>
        (o.commit tree c .none 1).result.toOption.bind fun done =>
          (done.tree.rootNode.follow? o.found.target.node.path).map fun new =>
            ((Resolver.ofTree tree).typeOf o.found.target,
              (Resolver.ofTree done.tree).typeOf ⟨done.tree, new⟩)) =
        some (some (.named "System" "Action" [.string]),
          some (.named "System" "Action" [.int])) := by
  decide +kernel

end SharpRefactor
