import SharpRefactor.Proofs.Parsing.Grouping
import SharpRefactor.Proofs.Syntax.Paths

/-!
The grammar groups its operators. Most rules build nothing that says something about its operands,
and for them a look at what they are made of is enough; the rules for expressions, operators, signs
and suffixes are followed step by step.
-/

namespace SharpRefactor

open Parse (bindingPower? assignmentPower isSign)

def Construct.isFirst : Construct → Bool
  | .operators _ | .suffixes => false
  | _ => true

theorem Construct.wants_of_isFirst {c : Construct} (first : c.isFirst) (v : Glance) : c.Wants v := by
  cases c <;> first | exact trivial | cases first

def Construct.isTyping : Construct → Bool
  | .type | .qualifiers | .ranks | .typeArguments => true
  | _ => false

theorem Construct.gives_of_isTyping {c : Construct} (typing : c.isTyping) (v w : Glance) :
    c.Gives v w = ((∀ x ∈ v.operands, x.Unary) → ∀ x ∈ w.operands, x.Unary) := by
  cases c <;> first | rfl | cases typing

theorem Construct.isFirst_of_isTyping {c : Construct} (typing : c.isTyping) : c.isFirst := by
  cases c <;> first | rfl | cases typing

/-! ### Powers -/

theorem Operand.Unary.atLeast {x : Operand} (unary : x.Unary) (power : Nat) : x.AtLeast power :=
  ⟨fun binary => absurd binary unary.1, fun assigns => absurd assigns unary.2⟩

theorem Operand.Unary.ready {x : Operand} (unary : x.Unary) (power : Nat) (front : Kind) :
    x.Ready power front :=
  ⟨unary.atLeast power, fun grip _ _ => ⟨unary.2, unary.atLeast grip⟩⟩

namespace Kind

theorem grip?_of_isAssignment {k : Kind} (assigns : k.isAssignment) :
    k.grip? = some assignmentPower :=
  if_pos assigns

theorem grip?_of_not_isAssignment {k : Kind} (other : ¬ k.isAssignment) :
    k.grip? = k.precedence? :=
  if_neg other

/-- A binary operator binds more tightly than an assignment, and its right operand more tightly than
its left one. -/
theorem bindingPower?_bounds {k : Kind} {left right : Nat}
    (binds : bindingPower? k = some (left, right)) :
    assignmentPower < left ∧ right = left + 1 := by
  unfold bindingPower? at binds
  split at binds <;> cases binds <;> exact ⟨by decide, rfl⟩

theorem assignmentPower_le_grip {k : Kind} {grip : Nat} (found : k.grip? = some grip) :
    assignmentPower ≤ grip := by
  rw [grip?] at found
  split at found
  · cases found
    exact Nat.le_refl _
  · obtain ⟨⟨left, right⟩, binds, rfl⟩ := Option.map_eq_some_iff.mp found
    exact Nat.le_of_lt (bindingPower?_bounds binds).1

/-- An operand that the operator may take and what an expression of its right power reads make a
binary expression. -/
theorem grouped_binary {x y : Operand} {left : Nat} (above : assignmentPower < left)
    (plain : x.kind ≠ .assignmentExpression) (tight : x.AtLeast left) (tighter : y.AtLeast (left + 1)) :
    Kind.binaryExpression.Grouped (some left) [x, y] := by
  refine ⟨left, x, y, rfl, rfl, plain, fun assigns => ?_, tight.1, tighter.1⟩
  exact absurd (Nat.lt_trans above (tighter.2 assigns)) (Nat.lt_irrefl _)

end Kind

namespace Operand

/-- What follows a binary expression binds no more tightly than its operator: its right side would
have taken it in otherwise. -/
theorem ready_binary {power left : Nat} {front : Kind} (low : power ≤ left)
    (ends : front.Ends (left + 1)) :
    (Operand.mk .binaryExpression (some left)).Ready power front := by
  refine ⟨⟨fun _ => ⟨left, rfl, low⟩, nofun⟩, fun grip found _ => ⟨nofun, fun _ => ?_, nofun⟩⟩
  exact ⟨left, rfl, Nat.lt_succ_iff.mp (ends grip found)⟩

/-- After the right side of an assignment no operator is left to take it. -/
theorem ready_assignment {power : Nat} {own : Option Nat} {front : Kind} (low : power ≤ assignmentPower)
    (ends : front.Ends assignmentPower) :
    (Operand.mk .assignmentExpression own).Ready power front := by
  refine ⟨⟨nofun, fun _ => low⟩, fun grip found _ => ?_⟩
  exact absurd (ends grip found) (Nat.not_lt.mpr (Kind.assignmentPower_le_grip found))

end Operand

namespace Parse

variable {α β : Type} {p : Parse α} {post : α → Glance → Prop} {v : Glance}

section Forms

theorem settles_bind {f : α → Parse β} {post : β → Glance → Prop} :
    (p >>= f).Settles post v ↔ p.Settles (fun a w => (f a).Settles post w) v := Iff.rfl

theorem settles_current {post : Kind → Glance → Prop} :
    current.Settles post v ↔ post v.front v := Iff.rfl

theorem settles_atKind {k : Kind} {post : Bool → Glance → Prop} :
    (atKind k).Settles post v ↔ post (v.front == k) v := Iff.rfl

theorem settles_ite {c : Prop} [Decidable c] {q : Parse α} :
    (if c then p else q).Settles post v ↔ (c → p.Settles post v) ∧ (¬ c → q.Settles post v) := by
  split <;> simp [*]

theorem settles_group :
    (group p).Settles post v ↔
      p.Settles (fun a w => post a ⟨w.front, v.operands ++ w.operands, v.power.or w.power⟩)
        ⟨v.front, [], none⟩ :=
  Iff.rfl

theorem settles_wrap {k : Kind} :
    (wrap k p).Settles post v ↔
      p.Settles (fun a w => k.Grouped w.power w.operands ∧ post a ⟨w.front, [⟨k, w.power⟩], none⟩) v :=
  Iff.rfl

theorem settles_node {k : Kind} :
    (node k p).Settles post v ↔
      p.Settles (fun a w => k.Grouped w.power w.operands ∧ post a (v.push w.front ⟨k, w.power⟩))
        ⟨v.front, [], none⟩ := by
  simp [node, Settles, Glance.push]

end Forms

/-- A program that builds nothing that says something about its operands settles wherever the
constructs in it are read, and a property of operands that its own nodes have stays. -/
theorem settles_of_makes {P : Operand → Prop} {met : Construct → Prop}
    (makes : p.Makes (·.isOperation = false) met)
    (own : ∀ k power, Kind.isOperation k = false → P ⟨k, power⟩)
    (keeps : ∀ c v, met c → (∀ x ∈ v.operands, P x) →
      c.Wants v ∧ ∀ w, c.Gives v w → ∀ x ∈ w.operands, P x)
    (before : ∀ x ∈ v.operands, P x) (after : ∀ a w, (∀ x ∈ w.operands, P x) → post a w) :
    p.Settles post v := by
  induction p generalizing v with
  | andThen p f ihp ihf =>
      exact ihp makes.1 before fun a w inside => ihf a (makes.2 a) inside after
  | nth? | ahead => exact fun _ => after _ _ before
  | bump => exact fun front => after _ _ before
  | skip p => exact fun front power => after _ _ before
  | group p ih =>
      refine ih makes (List.forall_mem_nil _) fun a w inside => after _ _ ?_
      exact List.forall_mem_append.mpr ⟨before, inside⟩
  | wrap k p ih =>
      refine ih makes.2 before fun a w _ => ⟨Kind.grouped_of_not_isOperation makes.1 _ _, ?_⟩
      exact after _ _ (List.forall_mem_singleton.mpr (own k w.power makes.1))
  | inner c =>
      obtain ⟨wants, gives⟩ := keeps c v makes before
      exact ⟨wants, fun w given => after _ _ (gives w given)⟩
  | _ => exact after _ _ before

/-- A program that says nothing about operands. -/
abbrev Plain (p : Parse α) : Prop :=
  p.Makes (Kind.isOperation · = false) (Construct.isFirst ·)

theorem settles_of_plain (plain : p.Plain) (after : ∀ a w, post a w) : p.Settles post v :=
  settles_of_makes (P := fun _ => True) plain (fun _ _ _ => trivial)
    (fun _ v first _ => ⟨Construct.wants_of_isFirst first v, fun _ _ _ _ => trivial⟩)
    (fun _ _ => trivial) fun a w _ => after a w

theorem settles_node_of_plain {k : Kind} (plain : (node k p).Plain)
    (rest : ∀ a front x, x.Primary → post a (v.push front x)) : (node k p).Settles post v := by
  refine settles_node.mpr (settles_of_plain plain.2 fun a w => ?_)
  exact ⟨Kind.grouped_of_not_isOperation plain.1 _ _,
    rest a w.front _ (Operand.primary_of_not_isOperation plain.1 _)⟩

/-- Among types no operation comes to stand. -/
theorem settles_of_typing (makes : p.Makes (Kind.isOperation · = false) (Construct.isTyping ·))
    (before : ∀ x ∈ v.operands, x.Unary)
    (after : ∀ a w, (∀ x ∈ w.operands, Operand.Unary x) → post a w) : p.Settles post v := by
  refine settles_of_makes makes (fun k power plain => ?_) (fun c v typing before => ?_) before after
  · exact (Operand.primary_of_not_isOperation plain power).1
  · refine ⟨Construct.wants_of_isFirst (Construct.isFirst_of_isTyping typing) v, fun w gives => ?_⟩
    rw [Construct.gives_of_isTyping typing] at gives
    exact gives before

section Rules

variable {post : Unit → Glance → Prop}

theorem settles_nameExpression (rest : ∀ front x, x.Primary → post () (v.push front x)) :
    nameExpression.Settles post v := by
  refine settles_bind.mpr fun generic => settles_ite.mpr ⟨fun _ => ?_, fun _ => ?_⟩
  · exact settles_node_of_plain (makes_genericName.mpr ⟨rfl, rfl, rfl⟩) fun _ => rest
  · exact settles_node_of_plain (makes_identifierName.mpr rfl) fun _ => rest

/-- Whatever stands there, one operand is made of it. -/
theorem settles_operand (rest : ∀ front x, x.Primary → post () (v.push front x)) :
    operand.Settles post v := by
  refine settles_bind.mpr (settles_current.mpr ?_)
  refine settles_ite.mpr ⟨fun _ => ?_, fun _ => settles_ite.mpr ⟨fun _ => ?_, fun _ => ?_⟩⟩
  · exact settles_node_of_plain (by simp [Kind.isOperation]) fun _ => rest
  · exact settles_node_of_plain (by simp [Kind.isOperation]) fun _ => rest
  split
  · exact settles_node_of_plain (by simp [Kind.isOperation]) fun _ => rest
  · exact settles_node_of_plain (by simp [Kind.isOperation, Construct.isFirst]) fun _ => rest
  · exact settles_node_of_plain (by simp [Kind.isOperation, Construct.isFirst]) fun _ => rest
  · refine settles_bind.mpr fun second => settles_ite.mpr ⟨fun _ => ?_, fun _ => ?_⟩
    · exact settles_node_of_plain (by simp [Kind.isOperation, Construct.isFirst]) fun _ => rest
    · exact settles_nameExpression rest
  · refine settles_bind.mpr fun lambda => settles_ite.mpr ⟨fun _ => ?_, fun _ => ?_⟩
    · exact settles_node_of_plain (by simp [Kind.isOperation, Construct.isFirst]) fun _ => rest
    · exact settles_node_of_plain (by simp [Kind.isOperation, Construct.isFirst]) fun _ => rest
  · exact settles_node_of_plain (by simp [Kind.isOperation]) fun _ => rest

/-- A sign or a cast is in front of an operand that no operator has taken. -/
theorem settles_prefixed (rest : ∀ front x, x.Unary → post () (v.push front x)) :
    prefixed.Settles post v := by
  refine settles_node.mpr fun front => ⟨trivial, fun w given => ?_⟩
  obtain ⟨x, front, rfl, unary⟩ := given
  exact ⟨⟨by simp [Glance.push], by simpa [Glance.push] using unary⟩, rest _ _ ⟨nofun, nofun⟩⟩

theorem settles_cast (rest : ∀ front x, x.Unary → post () (v.push front x)) :
    cast.Settles post v := by
  refine settles_node.mpr fun front => ⟨trivial, fun w given => settles_bind.mpr ?_⟩
  have type : ∀ x ∈ w.operands, x.Unary := given (List.forall_mem_nil _)
  refine settles_of_typing (makes_require _ _) type fun _ w types => ⟨trivial, fun w' given => ?_⟩
  obtain ⟨x, front, rfl, unary⟩ := given
  refine ⟨⟨by simp [Glance.push], ?_⟩, rest _ _ ⟨nofun, nofun⟩⟩
  exact List.forall_mem_append.mpr ⟨types, List.forall_mem_singleton.mpr unary⟩

theorem settles_unary : unary.Settles (fun _ w => Construct.unary.Gives v w) v := by
  have given : ∀ front x, x.Unary →
      Construct.unary.Gives v ⟨front, v.operands ++ [x], v.power.or none⟩ :=
    fun front x unary => ⟨x, front, by simp [Glance.push], unary⟩
  refine settles_group.mpr (settles_bind.mpr (settles_current.mpr (settles_ite.mpr
    ⟨fun _ => settles_prefixed given, fun _ => ?_⟩)))
  refine settles_bind.mpr fun casts => settles_ite.mpr ⟨fun _ => settles_cast given, fun _ => ?_⟩
  refine settles_bind.mpr (settles_operand fun front x primary => ⟨⟨x, rfl, primary⟩, fun w read => ?_⟩)
  obtain ⟨y, front, rfl, primary⟩ := read
  exact given front y primary.1

theorem settles_suffixes (wants : Construct.suffixes.Wants v) :
    suffixes.Settles (fun _ w => Construct.suffixes.Gives v w) v := by
  obtain ⟨x, alone, primary⟩ := wants
  have wrapped : ∀ k ∈ [Kind.memberAccessExpression, .invocationExpression, .postfixUnaryExpression],
      ∀ w : Glance, w.operands.head? = some x → k.Grouped w.power w.operands ∧
        (inner .suffixes).Settles (fun _ w => Construct.suffixes.Gives v w)
          ⟨w.front, [⟨k, w.power⟩], none⟩ := by
    simp only [List.forall_mem_cons]
    refine ⟨?_, ?_, ?_, List.forall_mem_nil _⟩ <;> exact fun w head => ⟨⟨x, head, primary⟩,
      ⟨_, rfl, ⟨nofun, nofun⟩, nofun, nofun⟩, fun w read => read⟩
  rw [alone]
  refine settles_bind.mpr (settles_current.mpr ?_)
  split
  · refine settles_bind.mpr (settles_wrap.mpr fun front => ?_)
    refine settles_bind.mpr (settles_atKind.mpr (settles_ite.mpr ⟨fun _ => ?_, fun _ => ?_⟩))
    · exact settles_nameExpression fun front y _ => wrapped _ (by simp) _ rfl
    · exact wrapped _ (by simp) _ rfl
  · refine settles_bind.mpr (settles_wrap.mpr ?_)
    exact settles_node_of_plain (makes_argumentList.mpr ⟨rfl, rfl⟩) fun _ front y _ =>
      wrapped _ (by simp) _ rfl
  · exact fun front => wrapped _ (by simp) _ rfl
  · exact fun front => wrapped _ (by simp) _ rfl
  · exact ⟨x, _, rfl, primary⟩

theorem settles_expression (power : Nat) :
    (expression power).Settles (fun _ w => (Construct.expression power).Gives v w) v := by
  refine settles_group.mpr (settles_bind.mpr ⟨trivial, fun w read => ?_⟩)
  obtain ⟨x, front, rfl, unary⟩ := read
  refine ⟨⟨x, rfl, unary.ready power front⟩, fun w read => ?_⟩
  obtain ⟨y, front, rfl, within, ends⟩ := read
  exact ⟨y, front, by simp [Glance.push], within, ends⟩

theorem settles_operators {power : Nat} (wants : (Construct.operators power).Wants v) :
    (operators power).Settles (fun _ w => (Construct.operators power).Gives v w) v := by
  obtain ⟨x, alone, within, ready⟩ := wants
  -- An expression that has been built is the one operand of the next round. It may be taken there, as
  -- its right side has stopped in front of the operator that now comes.
  have again : ∀ front y, y.Ready power front → (inner (.operators power)).Settles
      (fun _ w => (Construct.operators power).Gives v w) ⟨front, [y], none⟩ :=
    fun front y ready => ⟨⟨y, rfl, ready⟩, fun w read => read⟩
  have done : v.front.Ends power → (pure () : Parse Unit).Settles
      (fun _ w => (Construct.operators power).Gives v w) v :=
    fun ends => ⟨x, v.front, alone, within, ends⟩
  refine settles_bind.mpr (settles_current.mpr (settles_ite.mpr ⟨fun assigns => ?_, fun other => ?_⟩))
  · have grip := Kind.grip?_of_isAssignment assigns
    refine settles_ite.mpr ⟨fun low => ?_, fun high => done ?_⟩
    · rw [alone]
      refine settles_bind.mpr (settles_wrap.mpr fun front => ⟨trivial, fun w read => ?_⟩)
      obtain ⟨y, front, rfl, -, ends⟩ := read
      exact ⟨⟨x, y, rfl, (ready _ grip low).1⟩, again _ _ (Operand.ready_assignment low ends)⟩
    · rintro next found
      cases grip.symm.trans found
      exact Nat.not_le.mp high
  · have grip := Kind.grip?_of_not_isAssignment other
    split
    · next none => exact done fun next found => by simp [grip, Kind.precedence?, none] at found
    · next left right binds =>
      have precedence : v.front.precedence? = some left := by simp [Kind.precedence?, binds]
      obtain ⟨above, rfl⟩ := Kind.bindingPower?_bounds binds
      refine settles_ite.mpr ⟨fun low => ?_, fun high => done ?_⟩
      · obtain ⟨plain, tight⟩ := ready left (grip.trans precedence) low
        rw [alone]
        refine settles_bind.mpr (settles_wrap.mpr fun front => ⟨trivial, fun w read => ?_⟩)
        obtain ⟨y, front, rfl, tighter, ends⟩ := read
        rw [Glance.push, precedence]
        exact ⟨Kind.grouped_binary above plain tight tighter, again _ _ (Operand.ready_binary low ends)⟩
      · rintro next found
        cases (grip.trans precedence).symm.trans found
        exact Nat.not_le.mp high

end Rules

theorem settles_typing {c : Construct} (typing : c.isTyping) :
    c.rule.Settles (fun _ w => c.Gives v w) v := by
  have builds : ∀ k ∈ c.builds, k.isOperation = false := by
    cases c <;> simp_all [Construct.isTyping, Construct.builds, Kind.isOperation]
  have meets : ∀ d, c.Meets d → d.isTyping := by
    cases c <;> simp_all [Construct.isTyping, Construct.Meets]
  simp only [Construct.gives_of_isTyping typing]
  -- Types are also read behind operands that are not unary, and then nothing is promised of the level.
  by_cases before : ∀ x ∈ v.operands, x.Unary
  · exact settles_of_typing (Construct.rule_makes c builds meets) before fun _ w after _ => after
  · refine settles_of_plain (Construct.rule_makes c builds fun d met => ?_) fun _ w holds =>
      absurd holds before
    exact Construct.isFirst_of_isTyping (meets d met)

theorem rules_settle : RulesSettle := by
  intro c v wants
  cases c
  case expression power => exact settles_expression power
  case operators power => exact settles_operators wants
  case unary => exact settles_unary
  case suffixes => exact settles_suffixes wants
  case type | qualifiers | ranks | typeArguments => exact settles_typing rfl
  all_goals
    refine settles_of_plain (Construct.rule_makes _ ?_ ?_) fun _ _ => trivial
    · simp [Construct.builds, Kind.isOperation]
    · simp [Construct.Meets, Construct.isFirst]

end Parse

/-- The tree of a text is grouped. -/
theorem parse_grouped (text : String) : (parse text).root.Grouped := by
  let ts := (lex text).map Lexeme.token
  have file : Parse.file.Settles (fun _ _ => True) (ParseState.start ts).glance :=
    ⟨trivial, fun _ _ => trivial⟩
  have grouped := ((Parse.runs_file ts).gives Parse.rules_settle file fun _ member => nomatch member).2
  exact .node trivial fun t inside => grouped t (List.mem_reverse.mp inside)

namespace Node

def precedence? (n : Node) : Option Nat := n.tokens.findSome? (·.kind.precedence?)

def operand (n : Node) : Operand := ⟨n.kind, n.precedence?⟩

theorem precedence?_eq (n : Node) : n.precedence? = n.tree.children.precedence? := by
  have own : n.precedence? = (n.tokens.map PlacedToken.token).findSome? (·.kind.precedence?) := by
    rw [List.findSome?_map]
    rfl
  rw [own, map_token_tokens, Forest.precedence?]
  generalize n.tree.children = ts
  induction ts with
  | nil => rfl
  | cons t ts ih =>
      cases t with
      | leaf t => simp [Tree.token?, Tree.precedence?, List.findSome?_cons, ih]
      | node k us => exact ih

theorem map_operand_children (n : Node) : n.children.map operand = n.tree.children.operands := by
  have own : n.children.map operand =
      (n.children.map tree).map fun t => ⟨t.kind, t.children.precedence?⟩ := by
    rw [List.map_map]
    exact List.map_congr_left fun m _ => by simp [operand, precedence?_eq, kind]
  rw [own, map_tree_children, Forest.operands]
  generalize n.tree.children = ts
  induction ts with
  | nil => rfl
  | cons t ts ih =>
      cases t with
      | leaf t => exact ih
      | node k us => exact congrArg (⟨k, Forest.precedence? us⟩ :: ·) ih

theorem own_grouped {n : Node} (isNode : n.tree.isNode) (grouped : n.tree.Grouped) :
    n.kind.Grouped n.precedence? (n.children.map operand) := by
  rw [precedence?_eq, map_operand_children, kind]
  generalize n.tree = tree at isNode grouped
  cases grouped with
  | leaf token => cases isNode
  | node own each => exact own

end Node

/-- In the tree of every text, operators group by their precedence: a binary expression has on its
left nothing that binds less tightly and on its right only what binds more tightly, an assignment
groups to the right, signs and casts stand in front of operands, and suffixes follow primary
ones. -/
theorem parse_groups (text : String) :
    ∀ n ∈ (Node.root (parse text).root).descendants,
      n.kind.Grouped n.precedence? (n.children.map Node.operand) := by
  intro n inside
  refine Node.own_grouped (Node.isNode_of_mem_descendants inside) ?_
  exact Node.of_mem_descendants (fun _ _ parent => by cases parent with | node own each => exact each)
    (parse_grouped text) inside

/-- A difference whose left side is a difference and whose right side is a product. -/
theorem parse_groups_difference :
    let text := "class C { int F = a - b - c * d; }"
    ∃ n ∈ (Node.root (parse text).root).descendants,
      n.kind = .binaryExpression ∧ n.precedence? = some 17 ∧
        n.children.map Node.operand = [⟨.binaryExpression, some 17⟩, ⟨.binaryExpression, some 19⟩] ∧
        Kind.binaryExpression.Grouped n.precedence? (n.children.map Node.operand) := by
  intro text
  let outer (n : Node) : Bool := n.kind == .binaryExpression && n.precedence? == some 17 &&
    decide (n.children.map Node.operand = [⟨.binaryExpression, some 17⟩, ⟨.binaryExpression, some 19⟩])
  have some : ((Node.root (parse text).root).descendants.find? outer).isSome := by decide +kernel
  obtain ⟨n, found⟩ := Option.isSome_iff_exists.mp some
  have inside := List.mem_of_find?_eq_some found
  have shape := List.find?_some found
  simp only [outer, Bool.and_eq_true, beq_iff_eq, decide_eq_true_eq] at shape
  obtain ⟨⟨binary, power⟩, operands⟩ := shape
  exact ⟨n, inside, binary, power, operands, binary ▸ parse_groups text n inside⟩

end SharpRefactor
