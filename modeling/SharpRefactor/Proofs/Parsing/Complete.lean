import SharpRefactor.Proofs.Parsing.Lossless
import SharpRefactor.Proofs.Parsing.Makes

/-!
Nodes that are never without a part. The parser goes on whatever is missing, but an argument always
holds an expression, if only a malformed one, and the name of an alias always holds its identifier:
each of them is begun only where a token for it stands.
-/

namespace SharpRefactor

/-- What a node of some kinds always has among its children. -/
def Kind.Complete : Kind → Forest → Prop
  | .argument, ts => ∃ t ∈ ts, t.isNode
  | .nameEquals, ts =>
    ∀ us, .node .identifierName us ∈ ts → ∃ token, .leaf token ∈ us ∧ token.kind = .identifier
  | _, _ => True

inductive Tree.Complete : Tree → Prop where
  | leaf (token : Token) : Complete (.leaf token)
  | node {k : Kind} {ts : Forest} (own : k.Complete ts) (inside : ∀ t ∈ ts, t.Complete) :
      Complete (.node k ts)

def Kind.isLoose (k : Kind) : Bool := k != .argument && k != .nameEquals

theorem Kind.complete_of_isLoose {k : Kind} (loose : k.isLoose) (ts : Forest) : k.Complete ts := by
  cases k <;> first | exact trivial | cases loose

namespace Parse

def IsLoose : {α : Type} → Parse α → Prop
  | _, andThen p f => p.IsLoose ∧ ∀ a, (f a).IsLoose
  | _, group p => p.IsLoose
  | _, wrap k p => k.isLoose ∧ p.IsLoose
  | _, _ => True

@[simp] theorem isLoose_iff {α : Type} {p : Parse α} :
    p.IsLoose ↔ p.Makes (Kind.isLoose ·) fun _ => True := by
  induction p with
  | andThen p f ihp ihf => exact and_congr ihp (forall_congr' ihf)
  | group p ih => exact ih
  | wrap k p ih => exact and_congr_right fun _ => ih
  | _ => exact Iff.rfl

end Parse

theorem Construct.rule_isLoose {c : Construct} (notArguments : c ≠ .arguments)
    (notUsings : c ≠ .usings) :
    c.rule.IsLoose := by
  refine Parse.isLoose_iff.mpr (rule_makes c ?_ fun _ _ => trivial)
  cases c <;> simp_all [builds, Kind.isLoose]

/-! ### Levels with nodes -/

namespace ParseState

def HasNode (s : ParseState) : Prop := ∃ t ∈ s.level, t.isNode

theorem mem_level_takeWhile {s : ParseState} {t : Tree} (p : Kind → Bool) (member : t ∈ s.level) :
    t ∈ (s.takeWhile p).level :=
  List.mem_append_right _ member

theorem mem_level_takeOne {s : ParseState} {t : Tree} (member : t ∈ s.level) : t ∈ s.takeOne.level := by
  unfold takeOne
  split
  · exact member
  · exact List.mem_cons_of_mem _ member

/-- Only tokens are moved to the level. -/
theorem node_mem_takeWhile {s : ParseState} {p : Kind → Bool} {k : Kind} {us : Forest}
    (member : .node k us ∈ (s.takeWhile p).level) : .node k us ∈ s.level := by
  rcases List.mem_append.mp member with moved | old
  · obtain ⟨token, -, leaf⟩ := List.mem_map.mp (List.mem_reverse.mp moved)
    cases leaf
  · exact old

theorem node_mem_takeOne {s : ParseState} {k : Kind} {us : Forest}
    (member : .node k us ∈ s.takeOne.level) : .node k us ∈ s.level := by
  unfold takeOne at member
  split at member
  · exact member
  · rcases List.mem_cons.mp member with leaf | old
    · cases leaf
    · exact old

end ParseState

namespace Parse

variable {read : Construct → ParseState → ParseState} {α β : Type}

/-- A node on the level stays there, or it goes into another one. -/
theorem run_hasNode (keeps : ∀ c s, s.HasNode → (read c s).HasNode) (p : Parse α) {s : ParseState}
    (some : s.HasNode) : (p.run read s).2.HasNode := by
  have moved : ∀ s : ParseState, s.HasNode → ∀ f, (s.takeWhile f).HasNode :=
    fun s ⟨t, member, node⟩ f => ⟨t, ParseState.mem_level_takeWhile f member, node⟩
  induction p generalizing s with
  | andThen p f ihp ihf => exact ihf _ (ihp some)
  | current | skip | fail => exact moved s some _
  | bump =>
      obtain ⟨t, member, node⟩ := moved s some Kind.isTrivia
      exact ⟨t, ParseState.mem_level_takeOne member, node⟩
  | group p ih =>
      obtain ⟨t, member, node⟩ := moved s some Kind.isTrivia
      exact ⟨t, List.mem_append_right _ member, node⟩
  | wrap k p ih => exact ⟨_, List.mem_singleton_self _, rfl⟩
  | inner c => exact keeps c s some
  | _ => exact some

end Parse

theorem Construct.read_hasNode (depth : Nat) (c : Construct) (s : ParseState) (some : s.HasNode) :
    (c.read depth s).HasNode := by
  induction depth generalizing c s with
  | zero => exact some
  | succ depth ih => exact Parse.run_hasNode (fun c s => ih c s) c.rule some

namespace Parse

def MakesNode (read : Construct → ParseState → ParseState) {α : Type} (p : Parse α) : Prop :=
  ∀ s, (p.run read s).2.HasNode

section Making

variable {read : Construct → ParseState → ParseState} {α β : Type}

theorem makesNode_wrap (k : Kind) (p : Parse α) : MakesNode read (wrap k p) := fun _ =>
  ⟨_, List.mem_singleton_self _, rfl⟩

theorem makesNode_group {p : Parse α} (inside : MakesNode read p) : MakesNode read (group p) := by
  intro s
  obtain ⟨t, member, node⟩ := inside s.trivia.opened
  exact ⟨t, List.mem_append_left _ member, node⟩

theorem makesNode_node (k : Kind) (p : Parse α) : MakesNode read (node k p) :=
  makesNode_group (makesNode_wrap k p)

theorem makesNode_second {p : Parse α} {f : α → Parse β} (second : ∀ a, MakesNode read (f a)) :
    MakesNode read (p >>= f) := fun _ => second _ _

theorem makesNode_ite {c : Prop} [Decidable c] {p q : Parse α} (yes : MakesNode read p)
    (no : MakesNode read q) : MakesNode read (if c then p else q) := by
  split
  · exact yes
  · exact no

theorem makesNode_nameExpression : MakesNode read nameExpression :=
  makesNode_second fun _ => makesNode_ite (makesNode_node _ _) (makesNode_node _ _)

/-- Whatever stands there, an operand is made of it. -/
theorem makesNode_operand : MakesNode read operand := by
  refine makesNode_second fun k => ?_
  refine makesNode_ite (makesNode_node _ _) (makesNode_ite (makesNode_node _ _) ?_)
  split
  · exact makesNode_node _ _
  · exact makesNode_node _ _
  · exact makesNode_node _ _
  · exact makesNode_second fun _ => makesNode_ite (makesNode_node _ _) makesNode_nameExpression
  · exact makesNode_second fun _ => makesNode_ite (makesNode_node _ _) (makesNode_node _ _)
  · exact makesNode_node _ _

theorem makesNode_unary (keeps : ∀ c s, s.HasNode → (read c s).HasNode) : MakesNode read unary := by
  have operand : MakesNode read (operand >>= fun _ => inner .suffixes) :=
    fun s => keeps .suffixes _ (makesNode_operand s)
  refine makesNode_group (makesNode_second fun k => makesNode_ite (makesNode_node _ _) ?_)
  exact makesNode_second fun cast => makesNode_ite (makesNode_node _ _) operand

end Making
end Parse

/-- An expression is never nothing, if only it is read. -/
theorem Construct.expression_hasNode {depth power : Nat} {s : ParseState}
    (light : (expression power).weight s < depth) : ((expression power).read depth s).HasNode := by
  obtain ⟨depth, rfl⟩ : ∃ d, depth = d + 2 := ⟨depth - 2, by
    simp only [weight, rank] at light
    omega⟩
  have keeps := read_hasNode depth
  obtain ⟨t, member, node⟩ := read_hasNode (depth + 1) (.operators power) _
    (Parse.makesNode_unary keeps s.trivia.opened)
  exact ⟨t, List.mem_append_left _ member, node⟩

/-! ### What is read is complete -/

def ParseState.Complete (s : ParseState) : Prop := ∀ t ∈ s.level, t.Complete

namespace ParseState.Complete

variable {s s' : ParseState}

theorem takeWhile (h : s.Complete) (p : Kind → Bool) : (s.takeWhile p).Complete :=
  ParseState.forall_level_takeWhile .leaf h p

theorem takeOne (h : s.Complete) : s.takeOne.Complete :=
  ParseState.forall_level_takeOne .leaf h

theorem opened : s.opened.Complete := fun _ member => nomatch member

theorem closed (inner : s'.Complete) (outer : s.Complete) : (s'.closed s.level).Complete :=
  List.forall_mem_append.mpr ⟨inner, outer⟩

theorem wrapped {k : Kind} (h : s.Complete) (own : k.Complete s.level.reverse) :
    (s.wrapped k).Complete := by
  intro t member
  rw [List.mem_singleton.mp member]
  exact .node own fun u inside => h u (List.mem_reverse.mp inside)

end ParseState.Complete

namespace Parse

def Completes (read : Construct → ParseState → ParseState) {α : Type} (p : Parse α) (s : ParseState) :
    Prop :=
  s.Complete → (p.run read s).2.Complete

section Completing

variable {read : Construct → ParseState → ParseState} {bound : Nat} {α β : Type} {s : ParseState}

theorem completes_bind {p : Parse α} {f : α → Parse β} (first : p.Completes read s)
    (second : (f (p.run read s).1).Completes read (p.run read s).2) : (p >>= f).Completes read s :=
  fun complete => second (first complete)

theorem completes_node {k : Kind} {p : Parse α} (inside : p.Completes read s.trivia.opened)
    (own : k.Complete (p.run read s.trivia.opened).2.level.reverse) :
    (node k p).Completes read s :=
  fun complete => .closed (.wrapped (inside .opened) own) (complete.takeWhile _)

theorem completes_of_isLoose
    (inside : ∀ c s, c.weight s < bound → s.Complete → (read c s).Complete) {p : Parse α}
    (loose : p.IsLoose) (fits : p.Fits read bound s) : p.Completes read s := by
  induction p generalizing s with
  | andThen p f ihp ihf => exact completes_bind (ihp loose.1 fits.1) (ihf _ (loose.2 _) fits.2)
  | current | skip | fail => exact fun complete => complete.takeWhile _
  | bump => exact fun complete => (complete.takeWhile _).takeOne
  | group p ih => exact fun complete => .closed (ih loose fits .opened) (complete.takeWhile _)
  | wrap k p ih =>
      exact fun complete => (ih loose.2 fits complete).wrapped (Kind.complete_of_isLoose loose.1 _)
  | inner c => exact inside c s fits
  | _ => exact fun complete => complete

/-- An argument holds its expression. -/
theorem completes_argument
    (inside : ∀ c s, c.weight s < bound → s.Complete → (read c s).Complete)
    (expressions : ∀ power s, (Construct.expression power).weight s < bound →
      (read (.expression power) s).HasNode)
    (fits : (node .argument (inner (.expression 0))).Fits read bound s) :
    (node .argument (inner (.expression 0))).Completes read s := by
  refine completes_node (inside _ _ fits) ?_
  obtain ⟨t, member, node⟩ := expressions 0 _ fits
  exact ⟨t, List.mem_reverse.mpr member, node⟩

theorem completes_arguments
    (inside : ∀ c s, c.weight s < bound → s.Complete → (read c s).Complete)
    (expressions : ∀ power s, (Construct.expression power).weight s < bound →
      (read (.expression power) s).HasNode)
    (fits : arguments.Fits read bound s) : arguments.Completes read s := by
  obtain ⟨first, second, rest⟩ := fits
  refine completes_bind (completes_of_isLoose inside (by simp) first)
    (completes_bind (completes_of_isLoose inside (by simp) second) ?_)
  dsimp only at rest ⊢
  split at rest
  · next more =>
    rw [if_pos more]
    exact completes_bind (completes_argument inside expressions rest.1)
      (completes_of_isLoose inside (by simp) rest.2)
  · next none =>
    rw [if_neg none]
    exact fun complete => complete

theorem expect_found {k : Kind} {what : Expected} (found : s.upcoming = k) :
    ((expect k what).run read s).2 = s.trivia.trivia.takeOne := by
  simp [expect, found]

theorem takeOne_front {k : Kind} (front : s.front = k) (real : k ≠ .eof) :
    ∃ token, .leaf token ∈ s.takeOne.level ∧ token.kind = k := by
  unfold ParseState.takeOne
  unfold ParseState.front at front
  split
  · next none =>
    rw [none] at front
    exact absurd front.symm real
  · next t ts some =>
    rw [some] at front
    exact ⟨t, List.mem_cons_self, front⟩

/-- The name of an alias holds its identifier, where one stands. -/
theorem completes_nameEquals (named : s.upcoming = .identifier) :
    (node .nameEquals (identifierName >>= fun _ => bump)).Completes read s := by
  have nothing : ∀ (c : Construct) (s : ParseState), c.weight s < 0 → s.Complete →
      (read c s).Complete := fun _ _ light => nomatch light
  refine completes_node (completes_of_isLoose nothing (by simp [Kind.isLoose])
    (by simp [identifierName]))
    fun us member => ?_
  have kept := ParseState.node_mem_takeWhile
    (ParseState.node_mem_takeOne (List.mem_reverse.mp member))
  rcases List.mem_append.mp kept with own | before
  · obtain ⟨-, rfl⟩ := Tree.node.inj (List.mem_singleton.mp own)
    rw [expect_found (by simpa using named)]
    obtain ⟨token, moved, kind⟩ := takeOne_front (k := .identifier)
      (s := s.trivia.opened.trivia.opened.trivia.trivia) (by simpa using named) (by simp)
    exact ⟨token, List.mem_reverse.mpr moved, kind⟩
  · cases ParseState.node_mem_takeWhile before

theorem completes_usingDirective
    (inside : ∀ c s, c.weight s < bound → s.Complete → (read c s).Complete)
    (fits : usingDirective.Fits read bound s) : usingDirective.Completes read s := by
  obtain ⟨first, second, third, rest⟩ := fits
  refine completes_node ?_ trivial
  refine completes_bind (completes_of_isLoose inside (by simp) first)
    (completes_bind (completes_of_isLoose inside (by simp) second)
      (completes_bind (completes_of_isLoose inside (by simp) third) ?_))
  dsimp only at rest ⊢
  split at rest
  · next named =>
    rw [if_pos named]
    refine completes_bind (completes_nameEquals ?_) (completes_of_isLoose inside (by simp) rest.2)
    simp only [Bool.and_eq_true] at named
    simpa using named.1
  · next plain =>
    rw [if_neg plain]
    exact completes_of_isLoose inside (by simp) rest

theorem completes_usings
    (inside : ∀ c s, c.weight s < bound → s.Complete → (read c s).Complete)
    (fits : usings.Fits read bound s) : usings.Completes read s := by
  obtain ⟨first, rest⟩ := fits
  refine completes_bind (completes_of_isLoose inside (by simp) first) ?_
  dsimp only at rest ⊢
  split at rest
  · next more =>
    rw [if_pos more]
    exact completes_bind (completes_usingDirective inside rest.1) (inside _ _ rest.2)
  · next none =>
    rw [if_neg none]
    exact fun complete => complete

end Completing
end Parse

theorem Construct.read_complete {depth : Nat} {c : Construct} {s : ParseState}
    (light : c.weight s < depth) (complete : s.Complete) : (c.read depth s).Complete := by
  generalize weight : c.weight s = n
  induction n using Nat.strongRecOn generalizing c s with
  | ind n ih =>
      subst weight
      have fits := rule_fits (reads (c.weight s) depth (Nat.le_of_lt light))
      have inside : ∀ (c' : Construct) (s' : ParseState), c'.weight s' < c.weight s →
          s'.Complete → (c'.read depth s').Complete :=
        fun c' s' lighter complete => ih _ lighter (Nat.lt_trans lighter light) complete rfl
      rw [read_rule light]
      by_cases arguments : c = .arguments
      · subst arguments
        exact Parse.completes_arguments inside
          (fun power s lighter => expression_hasNode (Nat.lt_trans lighter light)) fits complete
      by_cases usings : c = .usings
      · subst usings
        exact Parse.completes_usings inside fits complete
      · exact Parse.completes_of_isLoose inside (rule_isLoose arguments usings) fits complete

/-- In the tree of a text every node is complete. -/
theorem parse_complete (text : String) : (parse text).root.Complete := by
  let ts := (lex text).map Lexeme.token
  have light : (Construct.namespaceBody false).weight
      (ParseState.start ts).trivia < nestingBound ts := by
    have bound := (Construct.namespaceBody false).weight_lt (ParseState.start ts).trivia
    rwa [ParseState.left_trivia] at bound
  have start : (ParseState.start ts).Complete := fun _ member => nomatch member
  have read := Construct.read_complete light (start.takeWhile _)
  exact .node trivial fun t inside => (read.takeWhile _) t (List.mem_reverse.mp inside)

end SharpRefactor
