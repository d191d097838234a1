import SharpRefactor.Proofs.Parsing.Trivia
import SharpRefactor.Proofs.Parsing.Unbounded

/-!
What the rules leave behind where they do not object. A sketch keeps of a state the kinds of the
next two tokens and the kinds of the parts on the open level; `Parse.Ensures` is the weakest
precondition of a program over sketches, in which a construct met inside the program is known by its
contract alone and an objection ends the obligation. If every rule keeps the contract of its
construct, a run without objections leaves what its program ensures, and every node that it builds
has the parts of its kind.
-/

namespace SharpRefactor

inductive Part where
  | token (k : Kind)
  | node (k : Kind)
  deriving DecidableEq

def Tree.part? : Tree → Option Part
  | .leaf t => if t.isTrivia then none else some (.token t.kind)
  | .node k _ => some (.node k)

def Forest.parts (ts : Forest) : List Part := ts.filterMap Tree.part?

def nodeKinds (ps : List Part) : List Kind :=
  ps.filterMap fun
    | .token _ => none
    | .node k => some k

section NodeKinds

variable (ps : List Part) (k : Kind)

@[simp] theorem nodeKinds_nil : nodeKinds [] = [] := rfl

@[simp] theorem nodeKinds_token : nodeKinds (.token k :: ps) = nodeKinds ps := rfl

@[simp] theorem nodeKinds_node : nodeKinds (.node k :: ps) = k :: nodeKinds ps := rfl

@[simp] theorem nodeKinds_append (qs : List Part) :
    nodeKinds (ps ++ qs) = nodeKinds ps ++ nodeKinds qs :=
  List.filterMap_append

@[simp] theorem nodeKinds_tokens (ks : List Kind) : nodeKinds (ks.map .token) = [] := by
  simp [nodeKinds]

end NodeKinds

def HasType (ps : List Part) : Prop := ∃ k, k.isType ∧ .node k ∈ ps

/-- What nodes of the kinds have among their parts in a well-formed text. -/
def Kind.Whole (ps : List Part) : Kind → Prop
  | .usingDirective | .namespaceDeclaration | .typeArgumentList => HasType ps
  | .nameEquals => .node .identifierName ∈ ps
  | .classDeclaration | .structDeclaration | .interfaceDeclaration | .variableDeclarator
  | .parameter | .identifierName => .token .identifier ∈ ps
  | .delegateDeclaration => HasType ps ∧ .token .identifier ∈ ps ∧ .node .parameterList ∈ ps
  | .methodDeclaration =>
    HasType ps ∧ .token .identifier ∈ ps ∧ .node .parameterList ∈ ps ∧
      (.node .block ∉ ps ∨ .node .arrowExpressionClause ∉ ps)
  | .constructorDeclaration => .node .parameterList ∈ ps
  | .fieldDeclaration | .eventFieldDeclaration | .localDeclarationStatement =>
    .node .variableDeclaration ∈ ps
  | .propertyDeclaration | .eventDeclaration => HasType ps ∧ .token .identifier ∈ ps
  | .arrowExpressionClause | .expressionStatement | .argument | .parenthesizedExpression
  | .equalsValueClause => 1 ≤ (nodeKinds ps).length
  | .variableDeclaration => HasType ps ∧ .node .variableDeclarator ∈ ps
  | .genericName => .node .typeArgumentList ∈ ps
  | .qualifiedName => 2 ≤ ((nodeKinds ps).filter Kind.isType).length
  | .predefinedType => ∃ k, k.isPredefinedType ∧ .token k ∈ ps
  | .arrayType => HasType ps ∧ .node .arrayRankSpecifier ∈ ps
  | .memberAccessExpression => 2 ≤ (nodeKinds ps).length
  | .invocationExpression => 2 ≤ (nodeKinds ps).length ∧ .node .argumentList ∈ ps
  | .objectCreationExpression => HasType ps ∧ .node .argumentList ∈ ps
  | .anonymousMethodExpression => .node .block ∈ ps
  | .parenthesizedLambdaExpression => 2 ≤ (nodeKinds ps).length ∧ .node .parameterList ∈ ps
  | .simpleLambdaExpression => 2 ≤ (nodeKinds ps).length ∧ .node .parameter ∈ ps
  | .assignmentExpression =>
    2 ≤ (nodeKinds ps).length ∧ ∃ k, k.isAssignment ∧ .token k ∈ ps
  | .castExpression =>
    2 ≤ (nodeKinds ps).length ∧ ∃ k, k.isType ∧ (nodeKinds ps).head? = some k
  | .literalExpression => ∃ k, .token k ∈ ps
  | _ => True

inductive Tree.Whole : Tree → Prop where
  | leaf (token : Token) : Whole (.leaf token)
  | node {k : Kind} {ts : Forest} (own : k.Whole ts.parts) (inside : ∀ t ∈ ts, t.Whole) :
      Whole (.node k ts)

/-- What a contract sees of a state: the kinds of the next two tokens and the parts on the level. -/
structure Sketch where
  front : Kind
  second : Option Kind
  parts : List Part

namespace Construct

/-- What must stand on the open level for a construct to be read. -/
def Asks (ps : List Part) : Construct → Prop
  | .qualifiers => ∃ k, k.isType ∧ ps = [.node k]
  | .operators _ | .suffixes => ∃ k, ps = [.node k]
  | _ => True

/-- What stands on the open level after a construct has been read without objections. -/
def Leaves (v : Sketch) (ps : List Part) : Construct → Prop
  | .block => ps = v.parts ++ [.node .block]
  | .type => ∃ k, k.isType ∧ ps = v.parts ++ [.node k]
  | .expression _ | .unary => ∃ k, ps = v.parts ++ [.node k]
  | .qualifiers => ∃ k, k.isType ∧ ps = [.node k]
  | .operators _ | .suffixes => ∃ k, ps = [.node k]
  | .ranks => ∃ more, ps = v.parts ++ more ∧
    (v.front = .lBracket → v.second = some .rBracket → .node .arrayRankSpecifier ∈ more)
  | .typeArguments => ∃ more, ps = v.parts ++ more ∧ HasType more
  | .declarators => ∃ more, ps = v.parts ++ more ∧ .node .variableDeclarator ∈ more
  | _ => ∃ more, ps = v.parts ++ more

end Construct

namespace Parse

/-- What must hold of a state for a program that is run there without objections to end in a
postcondition, with every node that it builds whole. -/
def Ensures : {α : Type} → Parse α → (α → Sketch → Prop) → Sketch → Prop
  | _, done a, post, v => post a v
  | _, andThen p f, post, v => p.Ensures (fun a => (f a).Ensures post) v
  | _, current, post, v => post v.front v
  | _, nth? n, post, v => ∀ k, (n = 1 → k = v.second) → post k v
  | _, ahead _, post, v => ∀ b, post b v
  | _, bump, post, v => ∀ (second : Option Kind) (moved : List Kind),
      (v.front ≠ .eof → moved = [v.front]) →
      post () ⟨v.second.getD .eof, second, v.parts ++ moved.map .token⟩
  | _, skip _, post, v => ∀ (front : Kind) (second : Option Kind) (moved : List Kind),
      post () ⟨front, second, v.parts ++ moved.map .token⟩
  | _, fail _, _, _ => True
  | _, group p, post, v =>
      p.Ensures (fun a w => post a { w with parts := v.parts ++ w.parts }) { v with parts := [] }
  | _, wrap k p, post, v =>
      p.Ensures (fun a w => k.Whole w.parts ∧ post a { w with parts := [.node k] }) v
  | _, inner c, post, v =>
      c.Asks v.parts ∧ ∀ front second ps, c.Leaves v ps → post () ⟨front, second, ps⟩

end Parse

/-! ### Sketches of states -/

namespace Lookahead

theorem nth?_eq_getElem? (n : Nat) (ts : List Token) :
    nth? n ts = (bareTokens ts)[n]?.map Token.kind := by
  rw [← nth?_bare]
  have real : ∀ t ∈ bareTokens ts, t.isTrivia = false := fun t member => by
    simpa using (List.mem_filter.mp member).2
  generalize bareTokens ts = us at real
  induction us generalizing n with
  | nil => rfl
  | cons u us ih =>
      rw [List.forall_mem_cons] at real
      cases n with
      | zero => simp [nth?, real.1]
      | succ n => simpa [nth?, real.1] using ih n real.2

theorem nextKind_eq_head? (ts : List Token) :
    nextKind ts = ((bareTokens ts).head?.map Token.kind).getD .eof := by
  rw [← nextKind_bare]
  have real : ∀ t ∈ bareTokens ts, t.isTrivia = false := fun t member => by
    simpa using (List.mem_filter.mp member).2
  cases us : bareTokens ts with
  | nil => rfl
  | cons u us =>
      have first := real u (us ▸ List.mem_cons_self)
      rw [nextKind_cons (by simp [first])]
      rfl

end Lookahead

namespace Forest

@[simp] theorem parts_append (ts us : Forest) : (ts ++ us).parts = ts.parts ++ us.parts :=
  List.filterMap_append

theorem parts_bare (ts : Forest) : (Forest.bare ts).parts = ts.parts := by
  induction ts with
  | nil => rfl
  | cons t ts ih =>
      rw [Forest.bare, parts_append, ih]
      cases t with
      | leaf t => cases ht : t.isTrivia <;> simp [Tree.bare, parts, Tree.part?, ht]
      | node k us => rfl

theorem parts_leaves (ts : List Token) :
    Forest.parts (ts.map Tree.leaf) = ((bareTokens ts).map Token.kind).map Part.token := by
  induction ts with
  | nil => rfl
  | cons t ts ih =>
      cases ht : t.isTrivia with
      | true => simpa [parts, Tree.part?, ht, bareTokens_cons_trivia ht] using ih
      | false => simpa [parts, Tree.part?, ht, bareTokens_cons ht] using ih

end Forest

def BareState.sketch (b : BareState) : Sketch :=
  ⟨(b.tokens.head?.map Token.kind).getD .eof, b.tokens[1]?.map Token.kind,
    Forest.parts b.level.reverse⟩

namespace ParseState

def sketch (s : ParseState) : Sketch := s.bare.sketch

variable (s : ParseState)

@[simp] theorem sketch_front : s.sketch.front = s.upcoming :=
  (Lookahead.nextKind_eq_head? s.tokens).symm

@[simp] theorem sketch_second : s.sketch.second = Lookahead.nth? 1 s.tokens :=
  (Lookahead.nth?_eq_getElem? 1 s.tokens).symm

theorem sketch_parts : s.sketch.parts = Forest.parts s.level.reverse := by
  simp only [sketch, BareState.sketch, bare, ← Forest.bare_reverse, Forest.parts_bare]

@[simp] theorem sketch_trivia : s.trivia.sketch = s.sketch := by
  rw [sketch, bare_trivia, sketch]

@[simp] theorem sketch_opened : s.opened.sketch = { s.sketch with parts := [] } := rfl

theorem sketch_closed (siblings : List Tree) :
    (s.closed siblings).sketch =
      { s.sketch with parts := Forest.parts siblings.reverse ++ s.sketch.parts } := by
  rw [sketch, bare_closed, sketch, BareState.sketch]
  simp only [BareState.sketch, List.reverse_append, Forest.parts_append, ← Forest.bare_reverse,
    Forest.parts_bare]

@[simp] theorem sketch_wrapped (k : Kind) :
    (s.wrapped k).sketch = { s.sketch with parts := [.node k] } := by
  rw [sketch, bare_wrapped, sketch]
  rfl

/-- Moving a token brings the second one to the front. -/
theorem sketch_bump : ∃ (second : Option Kind) (moved : List Kind),
    (s.upcoming ≠ .eof → moved = [s.upcoming]) ∧
    s.trivia.takeOne.sketch =
      ⟨s.sketch.second.getD .eof, second, s.sketch.parts ++ moved.map .token⟩ := by
  have front := s.sketch_front
  rw [sketch, bare_bump, ← front, sketch]
  have real : ∀ t ∈ s.bare.tokens, t.isTrivia = false := fun t member => by
    simpa using (List.mem_filter.mp member).2
  generalize s.bare = b at real
  obtain ⟨tokens, level, errors⟩ := b
  cases tokens with
  | nil => exact ⟨none, [], by simp [BareState.sketch], by simp [BareState.sketch, BareState.takeOne]⟩
  | cons t ts =>
      refine ⟨ts[1]?.map Token.kind, [t.kind], by simp [BareState.sketch], ?_⟩
      have own := real t List.mem_cons_self
      simp [BareState.sketch, BareState.takeOne, Forest.parts, Tree.part?, own, List.head?_eq_getElem?]

theorem sketch_skip (p : Kind → Bool) :
    ∃ (front : Kind) (second : Option Kind) (moved : List Kind),
      (s.takeWhile fun k => k.isTrivia || p k).sketch =
        ⟨front, second, s.sketch.parts ++ moved.map .token⟩ := by
  rw [sketch, bare_skip, sketch]
  let moved := (bareTokens (s.bare.tokens.takeWhile (p ·.kind))).map Token.kind
  have parts : (s.bare.takeWhile p).sketch.parts = s.bare.sketch.parts ++ moved.map .token := by
    simp only [moved, BareState.sketch, BareState.takeWhile, List.reverse_append,
      List.reverse_reverse, Forest.parts_append, Forest.parts_leaves]
  exact ⟨(s.bare.takeWhile p).sketch.front, (s.bare.takeWhile p).sketch.second, moved,
    by rw [← parts]⟩

def Whole (s : ParseState) : Prop := ∀ t ∈ s.level, t.Whole

end ParseState

namespace ParseState.Whole

variable {s s' : ParseState}

theorem takeWhile (h : s.Whole) (p : Kind → Bool) : (s.takeWhile p).Whole :=
  ParseState.forall_level_takeWhile .leaf h p

theorem takeOne (h : s.Whole) : s.takeOne.Whole :=
  ParseState.forall_level_takeOne .leaf h

theorem opened : s.opened.Whole := fun _ member => nomatch member

theorem closed (inner : s'.Whole) (outer : s.Whole) : (s'.closed s.level).Whole :=
  List.forall_mem_append.mpr ⟨inner, outer⟩

theorem wrapped {k : Kind} (h : s.Whole) (own : k.Whole s.sketch.parts) : (s.wrapped k).Whole := by
  intro t member
  rw [List.mem_singleton.mp member]
  rw [s.sketch_parts] at own
  exact .node own fun u inside => h u (List.mem_reverse.mp inside)

end ParseState.Whole

/-! ### Runs without objections -/

namespace Parse

variable {α : Type} {p : Parse α} {s s' : ParseState} {a : α}

/-- Objections stay. -/
theorem Runs.errors_suffix (h : Runs p s a s') : s.errors <:+ s'.errors := by
  induction h with
  | andThen _ _ ihp ihf => exact ihp.trans ihf
  | bump s =>
      rw [ParseState.takeOne]
      split <;> exact List.suffix_rfl
  | fail e s => exact List.suffix_cons _ _
  | group _ ih => exact ih
  | wrap k _ ih => exact ih
  | inner _ ih => exact ih
  | _ => exact List.suffix_rfl

def RulesKeep : Prop :=
  ∀ (c : Construct) (v : Sketch), c.Asks v.parts →
    c.rule.Ensures (fun _ w => c.Leaves v w.parts) v

/-- A run without objections leaves what its program ensures. -/
theorem Runs.leaves (rules : RulesKeep) (h : Runs p s a s') {post : α → Sketch → Prop}
    (ensures : p.Ensures post s.sketch) (whole : s.Whole) (clean : s'.errors = []) :
    post a s'.sketch ∧ s'.Whole := by
  induction h with
  | done a s => exact ⟨ensures, whole⟩
  | andThen _ rest ihp ihf =>
      have before : _ = [] := List.suffix_nil.mp (clean ▸ rest.errors_suffix)
      obtain ⟨ensures, whole⟩ := ihp ensures whole before
      exact ihf ensures whole clean
  | current s =>
      refine ⟨?_, whole.takeWhile _⟩
      rw [s.front_trivia, s.sketch_trivia, ← s.sketch_front]
      exact ensures
  | nth? n s =>
      refine ⟨ensures _ fun second => ?_, whole⟩
      rw [second, s.sketch_second]
  | ahead question s => exact ⟨ensures _, whole⟩
  | bump s =>
      obtain ⟨second, moved, some, bumped⟩ := s.sketch_bump
      refine ⟨?_, (whole.takeWhile _).takeOne⟩
      rw [bumped]
      exact ensures second moved (by rwa [s.sketch_front])
  | skip p s =>
      obtain ⟨front, second, moved, skipped⟩ := s.sketch_skip p
      refine ⟨?_, whole.takeWhile _⟩
      rw [skipped]
      exact ensures front second moved
  | fail e s => cases clean
  | @group _ _ s s' _ _ ih =>
      rw [Ensures, ← s.sketch_trivia, ← ParseState.sketch_opened] at ensures
      obtain ⟨ensures, inside⟩ := ih ensures .opened clean
      refine ⟨?_, inside.closed (whole.takeWhile _)⟩
      rw [ParseState.sketch_closed, ← ParseState.sketch_parts]
      exact ensures
  | wrap k _ ih =>
      obtain ⟨⟨own, ensures⟩, inside⟩ := ih ensures whole clean
      refine ⟨?_, inside.wrapped own⟩
      rw [ParseState.sketch_wrapped]
      exact ensures
  | @inner c s s' _ ih =>
      obtain ⟨leaves, whole⟩ := ih (rules c s.sketch ensures.1) whole clean
      exact ⟨ensures.2 _ _ _ leaves, whole⟩

end Parse
end SharpRefactor
