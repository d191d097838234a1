import SharpRefactor.Proofs.Parsing.Sights

/-!
Whose `else` it is. A statement that ends in a condition without `else` is never followed by that
token: where the token was next, the innermost condition has taken it. So of two conditions one
inside the other, an `else` goes with the inner one as long as that has none.
-/

namespace SharpRefactor

/-- A statement that an `else` behind it would go with: a condition that has none, or one whose
`else` ends in such a statement. -/
inductive Tree.EndsOpen : Tree → Prop where
  | alone {ts : Forest} (none : ∀ t ∈ ts.nodes, t.kind ≠ .elseClause) : EndsOpen (.node .ifStatement ts)
  | chained {ts us : Forest} {s : Tree} (clause : .node .elseClause us ∈ ts) (last : s ∈ us)
      (isOpen : s.EndsOpen) : EndsOpen (.node .ifStatement ts)

def Tree.Plain (t : Tree) : Prop := t.kind ≠ .ifStatement ∧ t.kind ≠ .elseClause

theorem Tree.EndsOpen.kind {t : Tree} (isOpen : t.EndsOpen) : t.kind = .ifStatement := by
  cases isOpen <;> rfl

theorem Tree.EndsOpen.isNode {t : Tree} (isOpen : t.EndsOpen) : t.isNode := by
  cases isOpen <;> rfl

theorem Tree.Plain.not_endsOpen {t : Tree} (plain : t.Plain) : ¬ t.EndsOpen :=
  fun isOpen => plain.1 isOpen.kind

/-- The children of a condition: what it asks, the statement it guards, and perhaps an `else` that
no condition inside that statement could have taken. -/
inductive Forest.Branches : Forest → Prop where
  | alone {condition branch : Tree} (asks : condition.kind ≠ .elseClause)
      (guards : branch.kind ≠ .elseClause) : Branches [condition, branch]
  | both {condition branch s : Tree} {us : Forest} (asks : condition.kind ≠ .elseClause)
      (guards : branch.kind ≠ .elseClause) (closed : ¬ branch.EndsOpen) (only : us.nodes = [s]) :
      Branches [condition, branch, .node .elseClause us]

/-- A condition with an `else` ends in an open one only if the statement behind the `else` does. -/
theorem Tree.EndsOpen.last {condition branch s : Tree} {ts us : Forest}
    (isOpen : (Tree.node .ifStatement ts).EndsOpen)
    (nodes : ts.nodes = [condition, branch, .node .elseClause us])
    (asks : condition.kind ≠ .elseClause) (guards : branch.kind ≠ .elseClause) (only : us.nodes = [s]) :
    s.EndsOpen := by
  cases isOpen with
  | alone none =>
      rw [nodes] at none
      exact absurd rfl (none (.node .elseClause us) (by simp))
  | @chained _ us' _ clause last isOpen =>
      have listed : Tree.node .elseClause us' ∈ ts.nodes := Forest.mem_nodes.mpr ⟨clause, rfl⟩
      have same : us' = us := by
        rw [nodes] at listed
        simp only [List.mem_cons, List.not_mem_nil, or_false] at listed
        rcases listed with rfl | rfl | found
        · exact absurd rfl asks
        · exact absurd rfl guards
        · cases found
          rfl
      subst same
      have member := Forest.mem_nodes.mpr ⟨last, isOpen.isNode⟩
      rw [only, List.mem_singleton] at member
      exact member ▸ isOpen

/-- What the grammar makes of conditions. -/
def Branching (k : Kind) (ts : Forest) : Prop := k = .ifStatement → ts.nodes.Branches

def Sight.Carries (v w : Sight) : Prop := ∀ x, v.nodes = [x] → x.Plain → ∃ y, w.nodes = [y] ∧ y.Plain

def Construct.Guards (v w : Sight) : Construct → Prop
  | .expression _ | .unary | .block => ∃ front x, w = v.push front x ∧ x.Plain
  | .operators _ | .suffixes => v.Carries w
  | .statement =>
      ∃ front x, w = v.push front x ∧ x.kind ≠ .elseClause ∧ (x.EndsOpen → front ≠ .elseKw)
  | _ => True

def conditions : Pledge := ⟨Branching, fun c v w => c.Guards v w⟩

namespace Parse

variable {α : Type} {p : Parse α} {v : Sight}

abbrev Unconditional (p : Parse α) : Prop :=
  p.Makes (fun k => k ≠ .ifStatement ∧ k ≠ .elseClause) fun _ => True

section Plain

variable {post : α → Sight → Prop}

theorem own_of_unconditional {k : Kind} (other : k ≠ .ifStatement ∧ k ≠ .elseClause) (ts : Forest) :
    conditions.own k ts :=
  fun condition => absurd condition other.1

theorem shows_of_unconditional (unconditional : p.Unconditional) (after : ∀ a w, post a w) :
    p.Shows conditions post v :=
  shows_of_makes (unconditional.mono fun _ => own_of_unconditional) after

theorem shows_node_of_unconditional {k : Kind} (unconditional : (node k p).Unconditional)
    (rest : ∀ a front x, x.Plain → post a (v.push front x)) : (node k p).Shows conditions post v :=
  shows_node_of_makes (unconditional.mono fun _ => own_of_unconditional) fun a front _ =>
    rest a front _ unconditional.1

end Plain

section Rules

variable {post : Unit → Sight → Prop}

theorem guards_nameExpression (rest : ∀ front x, x.Plain → post () (v.push front x)) :
    nameExpression.Shows conditions post v := by
  refine shows_bind.mpr fun generic => shows_ite.mpr ⟨fun _ => ?_, fun _ => ?_⟩
  · exact shows_node_of_unconditional (makes_genericName.mpr (by simp)) fun _ => rest
  · exact shows_node_of_unconditional (makes_identifierName.mpr (by simp)) fun _ => rest

/-- Whatever stands there, one plain node is made of it. -/
theorem guards_operand (rest : ∀ front x, x.Plain → post () (v.push front x)) :
    operand.Shows conditions post v := by
  have form {k : Kind} {p : Parse Unit} (unconditional : (node k p).Unconditional) :
      (node k p).Shows conditions post v := shows_node_of_unconditional unconditional fun _ => rest
  refine shows_bind.mpr (shows_current.mpr ?_)
  refine shows_ite.mpr ⟨fun _ => form (by simp), fun _ => ?_⟩
  refine shows_ite.mpr ⟨fun _ => form (by simp), fun _ => ?_⟩
  split
  · exact form (by simp)
  · exact form (by simp)
  · exact form (by simp)
  · refine shows_bind.mpr fun second => shows_ite.mpr ⟨fun _ => form (by simp), fun _ => ?_⟩
    exact guards_nameExpression rest
  · refine shows_bind.mpr fun lambda => shows_ite.mpr ⟨fun _ => form (by simp), fun _ => ?_⟩
    exact form (by simp)
  · exact form (by simp)

theorem guards_unary : unary.Shows conditions (fun _ w => Construct.unary.Guards v w) v := by
  have given : ∀ front x, x.Plain → Construct.unary.Guards v ⟨front, v.nodes ++ ([] ++ [x])⟩ :=
    fun front x plain => ⟨front, x, rfl, plain⟩
  refine shows_group.mpr (shows_bind.mpr (shows_current.mpr (shows_ite.mpr ⟨fun _ => ?_, fun _ => ?_⟩)))
  · exact shows_node_of_unconditional (by simp) fun _ => given
  refine shows_bind.mpr fun casts => shows_ite.mpr ⟨fun _ => ?_, fun _ => ?_⟩
  · exact shows_node_of_unconditional (by simp) fun _ => given
  refine shows_bind.mpr (guards_operand fun front x plain w read => ?_)
  obtain ⟨y, alone, plain⟩ := read x rfl plain
  rw [alone]
  exact ⟨w.front, y, rfl, plain⟩

theorem guards_expression (power : Nat) :
    (expression power).Shows conditions (fun _ w => (Construct.expression power).Guards v w) v := by
  refine shows_group.mpr (shows_bind.mpr fun w read => ?_)
  obtain ⟨front, x, rfl, plain⟩ := read
  intro w read
  obtain ⟨y, alone, plain⟩ := read x rfl plain
  exact ⟨w.front, y, by rw [alone]; rfl, plain⟩

/-- A node that is built over the operand on the level is the operand of the next round. -/
theorem guards_wrap {c : Construct} (carries : ∀ v w, c.Guards v w ↔ v.Carries w) {k : Kind}
    {body : Parse Unit} (unconditional : (wrap k body).Unconditional) :
    (do wrap k body; inner c : Parse Unit).Shows conditions (fun _ w => c.Guards v w) v := by
  refine shows_bind.mpr (shows_wrap.mpr (shows_of_unconditional unconditional.2 fun _ w ts _ => ?_))
  refine ⟨own_of_unconditional unconditional.1 ts, fun w' read => ?_⟩
  have kept : Sight.Carries _ w' := (carries _ w').mp read
  exact (carries v w').mpr fun _ _ _ => kept _ rfl unconditional.1

theorem guards_operators (power : Nat) :
    (operators power).Shows conditions (fun _ w => (Construct.operators power).Guards v w) v := by
  have done : v.Carries v := fun x alone plain => ⟨x, alone, plain⟩
  refine shows_bind.mpr (shows_current.mpr (shows_ite.mpr ⟨fun _ => ?_, fun _ => ?_⟩))
  · exact shows_ite.mpr ⟨fun _ => guards_wrap (fun _ _ => Iff.rfl) (by simp), fun _ => done⟩
  · split
    · exact done
    · exact shows_ite.mpr ⟨fun _ => guards_wrap (fun _ _ => Iff.rfl) (by simp), fun _ => done⟩

theorem guards_suffixes : suffixes.Shows conditions (fun _ w => Construct.suffixes.Guards v w) v := by
  refine shows_bind.mpr (shows_current.mpr ?_)
  split
  · exact guards_wrap (fun _ _ => Iff.rfl) (by simp [makes_nameExpression])
  · exact guards_wrap (fun _ _ => Iff.rfl) (by simp)
  · exact guards_wrap (fun _ _ => Iff.rfl) (by simp)
  · exact guards_wrap (fun _ _ => Iff.rfl) (by simp)
  · exact fun x alone plain => ⟨x, alone, plain⟩

theorem guards_block : block.Shows conditions (fun _ w => Construct.block.Guards v w) v :=
  shows_node_of_unconditional (by simp) fun _ front x plain => ⟨front, x, rfl, plain⟩

/-- An `else` takes the statement behind it, and the statement leaves no `else` that could go with
it. -/
theorem guards_elseClause (rest : ∀ front us s, Forest.nodes us = [s] →
      (s.EndsOpen → front ≠ .elseKw) → post () (v.push front (.node .elseClause us))) :
    elseClause.Shows conditions post v := by
  refine shows_node.mpr fun front w read => ?_
  obtain ⟨front, s, rfl, -, stops⟩ := read
  exact fun us only => ⟨nofun, rest front us s only stops⟩

theorem guards_ifStatement (rest : ∀ front x, x.kind ≠ .elseClause → (x.EndsOpen → front ≠ .elseKw) →
      post () (v.push front x)) : ifStatement.Shows conditions post v := by
  refine shows_node.mpr fun front => shows_bind.mpr (shows_require fun front => shows_bind.mpr ?_)
  rintro _ ⟨front, condition, rfl, -, asks⟩
  refine shows_bind.mpr (shows_require fun front => shows_bind.mpr ?_)
  rintro _ ⟨front, branch, rfl, guards, stops⟩
  refine shows_bind.mpr (shows_atKind.mpr (shows_ite.mpr ⟨fun next => ?_, fun other => ?_⟩))
  · have closed : ¬ branch.EndsOpen := fun isOpen => stops isOpen (beq_iff_eq.mp next)
    refine guards_elseClause fun front us s only stops ts nodes => ?_
    refine ⟨fun _ => nodes ▸ .both asks guards closed only, rest _ _ nofun fun isOpen => ?_⟩
    exact stops (isOpen.last nodes asks guards only)
  · refine fun ts nodes => ⟨fun _ => nodes ▸ .alone asks guards, rest _ _ nofun fun _ same => ?_⟩
    exact other (beq_iff_eq.mpr same)

theorem guards_statement :
    statement.Shows conditions (fun _ w => Construct.statement.Guards v w) v := by
  have plain : ∀ (_ : Unit) front x, x.Plain → Construct.statement.Guards v (v.push front x) :=
    fun _ front x plain => ⟨front, x, rfl, plain.2, fun isOpen => absurd isOpen plain.not_endsOpen⟩
  refine shows_bind.mpr (shows_current.mpr ?_)
  split
  · rintro _ ⟨front, x, rfl, own⟩
    exact plain () front x own
  · exact shows_node_of_unconditional (by simp) plain
  · exact shows_node_of_unconditional (by simp) plain
  · exact guards_ifStatement fun front x other stops => ⟨front, x, rfl, other, stops⟩
  · refine shows_bind.mpr fun declares => shows_ite.mpr ⟨fun _ => ?_, fun _ => shows_ite.mpr ⟨?_, ?_⟩⟩
    · exact shows_node_of_unconditional (by simp) plain
    · exact fun _ => shows_node_of_unconditional (by simp) plain
    · exact fun _ => shows_node_of_unconditional (by simp) plain

theorem rules_guard : RulesShow conditions := by
  intro c v
  cases c
  case expression power => exact guards_expression power
  case operators power => exact guards_operators power
  case unary => exact guards_unary
  case suffixes => exact guards_suffixes
  case block => exact guards_block
  case statement => exact guards_statement
  all_goals
    refine shows_of_unconditional (Construct.rule_makes _ ?_ fun _ _ => trivial) fun _ _ => trivial
    simp [Construct.builds]

end Rules

end Parse

/-- Every `else` of a text belongs to the nearest condition: the children of one that has an `else`
are what it asks, the statement it guards, and the `else`, and the statement does not end in a
condition that the `else` could go with. -/
theorem parse_branches (text : String) :
    ∀ n ∈ (Node.root (parse text).root).descendants, n.kind = .ifStatement →
      (n.childOf? .elseClause).isSome → ∃ condition branch clause,
        n.children.map Node.tree = [condition, branch, clause] ∧ clause.kind = .elseClause ∧
          ¬ branch.EndsOpen := by
  intro n inside condition some
  have file : Parse.file.Shows conditions (fun _ _ => True)
      (ParseState.start ((lex text).map Lexeme.token)).sight := fun _ _ => trivial
  have every := ((Parse.runs_file _).shows Parse.rules_guard file (ParseState.every_start _)).2
  have branches := Node.own_of_mem_descendants (every_parse every nofun) inside condition
  obtain ⟨clause, found⟩ := Option.isSome_iff_exists.mp some
  have listed := List.mem_map_of_mem (f := Node.tree) (List.mem_of_find?_eq_some found)
  have kind : clause.kind = .elseClause := by simpa using List.find?_some found
  rw [Node.map_tree_children] at listed ⊢
  rw [Forest.nodes] at branches
  generalize n.tree.children.filter Tree.isNode = nodes at branches listed
  cases branches with
  | alone asks guards =>
      simp only [List.mem_cons, List.not_mem_nil, or_false] at listed
      rcases listed with rfl | rfl
      · exact absurd kind asks
      · exact absurd kind guards
  | both asks guards closed only => exact ⟨_, _, _, rfl, rfl, closed⟩

/-- A condition whose `else` guards another one, inside a condition without `else`. -/
theorem parse_branches_chain :
    let text := "class C { void F() { if (a) if (b) x(); else if (c) y(); else z(); } }"
    ∃ n ∈ (Node.root (parse text).root).descendants, n.kind = .ifStatement ∧
      n.text = "if (b) x(); else if (c) y(); else z();" ∧ (n.childOf? .elseClause).isSome ∧
      ∃ condition branch clause, n.children.map Node.tree = [condition, branch, clause] ∧
        clause.kind = .elseClause ∧ ¬ branch.EndsOpen := by
  intro text
  let inner (n : Node) : Bool := n.kind == .ifStatement &&
    n.text == "if (b) x(); else if (c) y(); else z();" && (n.childOf? .elseClause).isSome
  have some : ((Node.root (parse text).root).descendants.find? inner).isSome := by decide +kernel
  obtain ⟨n, found⟩ := Option.isSome_iff_exists.mp some
  have inside := List.mem_of_find?_eq_some found
  have shape := List.find?_some found
  simp only [inner, Bool.and_eq_true, beq_iff_eq] at shape
  obtain ⟨⟨condition, spelt⟩, clause⟩ := shape
  exact ⟨n, inside, condition, spelt, clause, parse_branches text n inside condition clause⟩

end SharpRefactor
