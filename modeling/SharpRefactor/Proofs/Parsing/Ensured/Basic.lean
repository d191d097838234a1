import SharpRefactor.Proofs.Parsing.Contract

/-!
What each step of a program has to find for the program to keep a contract, and what lists of parts
and the rules for types have to.
-/

namespace SharpRefactor

theorem Kind.ne_eof_of {p : Kind → Bool} {k : Kind} (none : p .eof = false) (found : p k) :
    k ≠ .eof := by
  rintro rfl
  simp [none] at found

/-- A construct that asks for nothing and adds a list of parts. -/
structure Construct.Lists (c : Construct) (some : List Part → Prop) : Prop where
  asks : ∀ ps, c.Asks ps
  leaves : ∀ v ps, c.Leaves v ps ↔ ∃ more, ps = v.parts ++ more ∧ some more
  grows : ∀ more others, some more → some (more ++ others)

theorem Construct.Lists.free {c : Construct} (asks : ∀ ps, c.Asks ps)
    (leaves : ∀ v ps, c.Leaves v ps ↔ ∃ more, ps = v.parts ++ more) : c.Lists fun _ => True where
  asks := asks
  leaves := by simpa using leaves
  grows := fun _ _ _ => trivial

namespace Parse

variable {α β : Type} {v : Sketch}

section Steps

variable {post : α → Sketch → Prop}

@[simp] theorem ensures_pure (a : α) : (pure a : Parse α).Ensures post v ↔ post a v := Iff.rfl

@[simp] theorem ensures_bind {p : Parse β} {f : β → Parse α} :
    (p >>= f).Ensures post v ↔ p.Ensures (fun b w => (f b).Ensures post w) v := Iff.rfl

@[simp] theorem ensures_group {p : Parse α} : (group p).Ensures post v ↔
    p.Ensures (fun a w => post a { w with parts := v.parts ++ w.parts }) { v with parts := [] } :=
  Iff.rfl

@[simp] theorem ensures_wrap {k : Kind} {p : Parse α} : (wrap k p).Ensures post v ↔
    p.Ensures (fun a w => k.Whole w.parts ∧ post a { w with parts := [.node k] }) v := Iff.rfl

@[simp] theorem ensures_node {k : Kind} {p : Parse α} : (node k p).Ensures post v ↔
    p.Ensures (fun a w => k.Whole w.parts ∧ post a { w with parts := v.parts ++ [.node k] })
      { v with parts := [] } := Iff.rfl

@[simp] theorem ensures_ite {c : Prop} [Decidable c] {p q : Parse α} :
    (if c then p else q).Ensures post v ↔ (c → p.Ensures post v) ∧ (¬ c → q.Ensures post v) := by
  split <;> simp [*]

end Steps

section Asking

variable (v)

@[simp] theorem ensures_current {post : Kind → Sketch → Prop} :
    current.Ensures post v ↔ post v.front v := Iff.rfl

@[simp] theorem ensures_second {post : Option Kind → Sketch → Prop} :
    (nth? 1).Ensures post v ↔ post v.second v := by
  simp [Ensures]

@[simp] theorem ensures_ahead {question : Lookahead.Question} {post : Bool → Sketch → Prop} :
    (ahead question).Ensures post v ↔ ∀ b, post b v := Iff.rfl

@[simp] theorem ensures_atKind {k : Kind} {post : Bool → Sketch → Prop} :
    (atKind k).Ensures post v ↔ post (v.front == k) v := Iff.rfl

@[simp] theorem ensures_secondIs {k : Kind} {post : Bool → Sketch → Prop} :
    (secondIs k).Ensures post v ↔ post (v.second == some k) v := by
  simp [secondIs]

@[simp] theorem ensures_atIdentifier {post : Bool → Sketch → Prop} :
    atIdentifier.Ensures post v ↔ post (v.front == .identifier) v := Iff.rfl

@[simp] theorem ensures_atTypeStart {post : Bool → Sketch → Prop} :
    atTypeStart.Ensures post v ↔ post (v.front == .identifier || v.front.isPredefinedType) v :=
  Iff.rfl

end Asking

section Moving

variable {post : Unit → Sketch → Prop}

@[simp] theorem ensures_missing (what : Expected) : (missing what).Ensures post v := trivial

theorem ensures_bump (more : v.front ≠ .eof)
    (rest : ∀ second, post () ⟨v.second.getD .eof, second, v.parts ++ [.token v.front]⟩) :
    bump.Ensures post v := by
  intro second moved some
  rw [some more]
  exact rest second

@[simp] theorem ensures_inner {c : Construct} : (inner c).Ensures post v ↔
    c.Asks v.parts ∧ ∀ front second ps, c.Leaves v ps → post () ⟨front, second, ps⟩ := Iff.rfl

theorem ensures_expect {k : Kind} {what : Expected} {post : Bool → Sketch → Prop}
    (real : k ≠ .eof)
    (rest : v.front = k → ∀ second,
      post true ⟨v.second.getD .eof, second, v.parts ++ [.token k]⟩) :
    (expect k what).Ensures post v := by
  simp only [expect, ensures_bind, ensures_atKind, ensures_ite, ensures_missing, ensures_pure,
    implies_true, and_true]
  intro found
  have front : v.front = k := by simpa using found
  refine ensures_bump (front ▸ real) fun second => ?_
  rw [front]
  exact rest front second

theorem ensures_require {k : Kind} {what : Expected} (real : k ≠ .eof)
    (rest : v.front = k → ∀ second,
      post () ⟨v.second.getD .eof, second, v.parts ++ [.token k]⟩) :
    (require k what).Ensures post v :=
  ensures_expect real rest

/-- A node for what stands between two marks. -/
theorem ensures_delimited {c : Construct} {k opens closes : Kind} {opening closing : Expected}
    (asks : ∀ ps, c.Asks ps) (holds : ∀ ps, k.Whole ps) (first : opens ≠ .eof) (last : closes ≠ .eof)
    (rest : ∀ front second, post () ⟨front, second, v.parts ++ [.node k]⟩) :
    (node k (do require opens opening; inner c; require closes closing)).Ensures post v := by
  refine ensures_node.mpr (ensures_bind.mpr (ensures_require first fun _ second => ?_))
  refine ensures_bind.mpr (ensures_inner.mpr ⟨asks _, fun front second ps _ => ?_⟩)
  exact ensures_require last fun _ second => ⟨holds _, rest _ _⟩

end Moving

section Lists

variable {c : Construct} {some : List Part → Prop} {front : Kind} {second : Option Kind}
  {more : List Part}

/-- A list goes on. -/
theorem ensures_rest (lists : c.Lists some) (listed : some more) :
    (inner c).Ensures (fun _ w => c.Leaves v w.parts) ⟨front, second, v.parts ++ more⟩ := by
  refine ensures_inner.mpr ⟨lists.asks _, fun front second ps leaves => ?_⟩
  obtain ⟨others, rfl, -⟩ := (lists.leaves _ _).mp leaves
  exact (lists.leaves _ _).mpr ⟨more ++ others, by simp, lists.grows _ _ listed⟩

/-- A list goes on after a comma. -/
theorem ensures_commaRest (lists : c.Lists some) (listed : some more) :
    (do if ← atKind .comma then (bump >>= fun _ => inner c) : Parse Unit).Ensures
      (fun _ w => c.Leaves v w.parts) ⟨front, second, v.parts ++ more⟩ := by
  refine ensures_ite.mpr ⟨fun _ => ensures_bind.mpr fun next moved _ => ?_, fun _ => ?_⟩
  · rw [List.append_assoc]
    exact ensures_rest lists (lists.grows _ _ listed)
  · exact (lists.leaves _ _).mpr ⟨more, rfl, listed⟩

end Lists

section Types

variable {post : Unit → Sketch → Prop}

theorem ensures_identifierName
    (rest : v.front = .identifier → ∀ second,
      post () ⟨v.second.getD .eof, second, v.parts ++ [.node .identifierName]⟩) :
    identifierName.Ensures post v := by
  refine ensures_require (by decide) fun found second => ?_
  exact ⟨by simp [Kind.Whole], rest found second⟩

theorem ensures_genericName (name : v.front = .identifier)
    (rest : ∀ front second, post () ⟨front, second, v.parts ++ [.node .genericName]⟩) :
    genericName.Ensures post v := by
  simp only [genericName, ensures_node, ensures_bind]
  refine ensures_bump (by simp [name]) fun second => ?_
  intro second moved _
  refine ⟨trivial, fun front second ps leaves => ?_⟩
  obtain ⟨more, rfl, k, isType, member⟩ := leaves
  refine ensures_require (by decide) fun _ second => ⟨?_, ?_, rest _ _⟩
  · exact ⟨k, isType, by simp [member]⟩
  · simp [Kind.Whole]

theorem ensures_simpleTypeName (name : v.front = .identifier)
    (rest : ∀ k front second, k.isType → post () ⟨front, second, v.parts ++ [.node k]⟩) :
    simpleTypeName.Ensures post v := by
  simp only [simpleTypeName, ensures_bind, ensures_ahead, ensures_ite]
  refine fun generic => ⟨fun _ => ?_, fun _ => ?_⟩
  · exact ensures_genericName name fun front second => rest _ front second rfl
  · exact ensures_identifierName fun _ second => rest _ _ second rfl

theorem ensures_nameExpression (name : v.front = .identifier)
    (rest : ∀ k front second, post () ⟨front, second, v.parts ++ [.node k]⟩) :
    nameExpression.Ensures post v := by
  simp only [nameExpression, ensures_bind, ensures_ahead, ensures_ite]
  refine fun generic => ⟨fun _ => ?_, fun _ => ?_⟩
  · exact ensures_genericName name fun front second => rest _ front second
  · exact ensures_identifierName fun _ second => rest _ _ second

theorem ensures_type
    (rest : ∀ k front second, k.isType → post () ⟨front, second, v.parts ++ [.node k]⟩) :
    (inner .type).Ensures post v := by
  refine ⟨trivial, fun front second ps leaves => ?_⟩
  obtain ⟨k, isType, rfl⟩ := leaves
  exact rest k front second isType

theorem ensures_typeOr {what : Expected}
    (rest : ∀ k front second, k.isType → post () ⟨front, second, v.parts ++ [.node k]⟩) :
    (typeOr what).Ensures post v := by
  simp only [typeOr, ensures_bind, ensures_atTypeStart, ensures_ite, ensures_missing]
  exact ⟨fun _ => ensures_type rest, fun _ => trivial⟩

theorem ensures_arrayOf {k : Kind} (isType : k.isType) (element : v.parts = [.node k])
    (rest : ∀ k front second, k.isType → post () ⟨front, second, [.node k]⟩) :
    arrayOf.Ensures post v := by
  obtain ⟨front, second, parts⟩ := v
  cases element
  simp only [arrayOf, atRank, ensures_bind, ensures_atKind, ensures_secondIs, ensures_pure,
    ensures_ite, ensures_wrap, ensures_inner]
  refine ⟨fun ranked => ⟨trivial, fun front' second' ps leaves => ⟨?_, rest _ _ _ rfl⟩⟩, fun _ =>
    rest k front second isType⟩
  obtain ⟨more, rfl, some⟩ := leaves
  simp only [Bool.and_eq_true, beq_iff_eq] at ranked
  exact ⟨⟨k, isType, by simp⟩, List.mem_append_right _ (some ranked.1 ranked.2)⟩

theorem keeps_type : type.Ensures (fun _ w => Construct.type.Leaves v w.parts) v := by
  simp only [type, ensures_group, ensures_bind, ensures_current, ensures_ite, ensures_atIdentifier,
    ensures_missing, ensures_node]
  have left : ∀ k (front : Kind) (second : Option Kind), k.isType →
      Construct.type.Leaves v (v.parts ++ [.node k]) := fun k _ _ isType => ⟨k, isType, rfl⟩
  refine ⟨fun predefined => ?_, fun _ => ⟨fun named => ?_, fun _ => trivial⟩⟩
  · refine ensures_bump (Kind.ne_eof_of rfl predefined) fun second => ?_
    exact ⟨⟨_, predefined, by simp⟩, ensures_arrayOf (k := .predefinedType) rfl rfl left⟩
  · refine ensures_simpleTypeName (by simpa using named) fun k front second isType => ?_
    refine ⟨⟨k, isType, rfl⟩, fun front second ps leaves => ?_⟩
    obtain ⟨k, isType, rfl⟩ := leaves
    exact ensures_arrayOf isType rfl left

theorem keeps_qualifiers (asks : Construct.qualifiers.Asks v.parts) :
    qualifiers.Ensures (fun _ w => Construct.qualifiers.Leaves v w.parts) v := by
  obtain ⟨front, second, parts⟩ := v
  obtain ⟨k, isType, rfl⟩ := asks
  simp only [qualifiers, ensures_bind, ensures_atKind, ensures_secondIs, ensures_ite, ensures_wrap,
    ensures_inner, ensures_pure]
  refine ⟨fun dotted => ?_, fun _ => ⟨k, isType, rfl⟩⟩
  simp only [Bool.and_eq_true, beq_iff_eq] at dotted
  refine ensures_bump (by simp [dotted]) fun next => ?_
  refine ensures_simpleTypeName (by simp [dotted]) fun right front second rightType => ?_
  refine ⟨?_, ⟨.qualifiedName, rfl, rfl⟩, fun front second ps leaves => leaves⟩
  simp [Kind.Whole, isType, rightType]

theorem keeps_ranks : ranks.Ensures (fun _ w => Construct.ranks.Leaves v w.parts) v := by
  simp only [ranks, atRank, ensures_bind, ensures_atKind, ensures_secondIs, ensures_pure, ensures_ite,
    ensures_node, ensures_inner]
  refine ⟨fun ranked => ?_, fun none => ?_⟩
  · simp only [Bool.and_eq_true, beq_iff_eq] at ranked
    refine ensures_bump (by simp [ranked]) fun second =>
      ensures_bump (by simp [ranked]) fun second => ?_
    refine ⟨trivial, trivial, fun front second ps leaves => ?_⟩
    obtain ⟨more, rfl, -⟩ := leaves
    exact ⟨.node .arrayRankSpecifier :: more, by simp, by simp⟩
  · refine ⟨[], by simp, fun bracket closed => ?_⟩
    simp [bracket, closed] at none

theorem keeps_typeArguments :
    typeArguments.Ensures (fun _ w => Construct.typeArguments.Leaves v w.parts) v := by
  refine ensures_ite.mpr ⟨fun _ => ensures_bind.mpr ?_, fun _ => trivial⟩
  refine ensures_type fun k front second isType => ?_
  have lists : Construct.typeArguments.Lists HasType := by
    refine ⟨fun _ => trivial, fun _ _ => Iff.rfl, ?_⟩
    rintro more others ⟨k, isType, member⟩
    exact ⟨k, isType, List.mem_append_left others member⟩
  exact ensures_commaRest lists ⟨k, isType, by simp⟩

end Types

end Parse
end SharpRefactor
