import SharpRefactor.Proofs.Parsing.Makes
import SharpRefactor.Proofs.Parsing.Trivia
import SharpRefactor.Proofs.Parsing.Unbounded

/-!
How operators group. Every binary expression holds on its left only what binds at least as tightly
as its own operator and on its right only what binds more tightly, and what stands behind a sign or
in front of a dot, a call or a mark is never an operation that should have taken the operator in.
Nothing is asked of the text: the objections of the parser do not come into it.

A glance keeps of a state the kind of the next token and the operands on the open level.
`Parse.Settles` is the weakest precondition of a program over glances, and what carries the
operators is the token on which an inner reading stopped: it cannot be one that the reading would
have taken.
-/

namespace SharpRefactor

open Parse (bindingPower? assignmentPower isSign)

/-- The precedence of a binary operator: the power with which it binds what is on its left. -/
def Kind.precedence? (k : Kind) : Option Nat := (bindingPower? k).map Prod.fst

/-- What counts of a node as an operand: its kind and the precedence of the operator in it. -/
structure Operand where
  kind : Kind
  power : Option Nat
  deriving DecidableEq

namespace Operand

variable (x : Operand)

def Unary : Prop := x.kind ≠ .binaryExpression ∧ x.kind ≠ .assignmentExpression

def Primary : Prop := x.Unary ∧ x.kind ≠ .prefixUnaryExpression ∧ x.kind ≠ .castExpression

/-- Whether the operand holds together where operators of a power and above are taken. -/
def AtLeast (power : Nat) : Prop :=
  (x.kind = .binaryExpression → ∃ own, x.power = some own ∧ power ≤ own) ∧
    (x.kind = .assignmentExpression → power ≤ assignmentPower)

end Operand

/-- The operands that a node of a kind has, given the precedence of the operator in it. -/
def Kind.Grouped (power : Option Nat) (xs : List Operand) : Kind → Prop
  | .binaryExpression => ∃ own left right, power = some own ∧ xs = [left, right] ∧
      left.kind ≠ .assignmentExpression ∧ right.kind ≠ .assignmentExpression ∧
      (left.kind = .binaryExpression → ∃ inner, left.power = some inner ∧ own ≤ inner) ∧
      (right.kind = .binaryExpression → ∃ inner, right.power = some inner ∧ own < inner)
  | .assignmentExpression =>
      ∃ left right, xs = [left, right] ∧ left.kind ≠ .assignmentExpression
  | .prefixUnaryExpression | .castExpression => xs ≠ [] ∧ ∀ x ∈ xs, x.Unary
  | .memberAccessExpression | .invocationExpression | .postfixUnaryExpression =>
      ∃ x, xs.head? = some x ∧ x.Primary
  | _ => True

def Kind.isOperation : Kind → Bool
  | .binaryExpression | .assignmentExpression | .prefixUnaryExpression | .castExpression
  | .memberAccessExpression | .invocationExpression | .postfixUnaryExpression => true
  | _ => false

theorem Kind.grouped_of_not_isOperation {k : Kind} (plain : k.isOperation = false)
    (power : Option Nat) (xs : List Operand) : k.Grouped power xs := by
  cases k <;> first | exact trivial | cases plain

theorem Operand.primary_of_not_isOperation {k : Kind} (plain : k.isOperation = false)
    (power : Option Nat) : (Operand.mk k power).Primary := by
  refine ⟨⟨?_, ?_⟩, ?_, ?_⟩ <;> (rintro rfl; cases plain)

def Tree.precedence? : Tree → Option Nat
  | .leaf t => t.kind.precedence?
  | .node _ _ => none

def Forest.precedence? (ts : Forest) : Option Nat := ts.findSome? Tree.precedence?

def Tree.operand? : Tree → Option Operand
  | .leaf _ => none
  | .node k ts => some ⟨k, Forest.precedence? ts⟩

def Forest.operands (ts : Forest) : List Operand := ts.filterMap Tree.operand?

inductive Tree.Grouped : Tree → Prop where
  | leaf (token : Token) : Grouped (.leaf token)
  | node {k : Kind} {ts : Forest} (own : k.Grouped ts.precedence? ts.operands)
      (inside : ∀ t ∈ ts, t.Grouped) : Grouped (.node k ts)

/-- What the grouping sees of a state: the kind of the next token, the operands on the level, and
the precedence of the first operator there. -/
structure Glance where
  front : Kind
  operands : List Operand
  power : Option Nat

def Glance.push (v : Glance) (front : Kind) (x : Operand) : Glance :=
  ⟨front, v.operands ++ [x], v.power⟩

/-- The power with which an operator takes what is on its left. -/
def Kind.grip? (k : Kind) : Option Nat :=
  if k.isAssignment then some assignmentPower else k.precedence?

/-- Whether an expression of a power ends in front of a token. -/
def Kind.Ends (power : Nat) (k : Kind) : Prop := ∀ grip, k.grip? = some grip → grip < power

def Operand.Ready (power : Nat) (front : Kind) (x : Operand) : Prop :=
  x.AtLeast power ∧ ∀ grip, front.grip? = some grip → power ≤ grip →
    x.kind ≠ .assignmentExpression ∧ x.AtLeast grip

namespace Construct

def Wants (v : Glance) : Construct → Prop
  | .operators power => ∃ x, v = ⟨v.front, [x], none⟩ ∧ x.Ready power v.front
  | .suffixes => ∃ x, v = ⟨v.front, [x], none⟩ ∧ x.Primary
  | _ => True

def Gives (v w : Glance) : Construct → Prop
  | .expression power => ∃ x front, w = v.push front x ∧ x.AtLeast power ∧ front.Ends power
  | .operators power => ∃ x front, w = ⟨front, [x], none⟩ ∧ x.AtLeast power ∧ front.Ends power
  | .unary => ∃ x front, w = v.push front x ∧ x.Unary
  | .suffixes => ∃ x front, w = ⟨front, [x], none⟩ ∧ x.Primary
  | .type | .qualifiers | .ranks | .typeArguments =>
      (∀ x ∈ v.operands, x.Unary) → ∀ x ∈ w.operands, x.Unary
  | _ => True

end Construct

namespace Parse

/-- What must hold of a glance for a program that is run there to end in a postcondition, with every
node that it builds grouped. -/
def Settles : {α : Type} → Parse α → (α → Glance → Prop) → Glance → Prop
  | _, done a, post, v => post a v
  | _, andThen p f, post, v => p.Settles (fun a => (f a).Settles post) v
  | _, current, post, v => post v.front v
  | _, nth? _, post, v => ∀ k, post k v
  | _, ahead _, post, v => ∀ b, post b v
  | _, bump, post, v => ∀ front, post () ⟨front, v.operands, v.power.or v.front.precedence?⟩
  | _, skip _, post, v => ∀ front power, post () ⟨front, v.operands, power⟩
  | _, fail _, post, v => post () v
  | _, group p, post, v =>
      p.Settles (fun a w => post a ⟨w.front, v.operands ++ w.operands, v.power.or w.power⟩)
        ⟨v.front, [], none⟩
  | _, wrap k p, post, v =>
      p.Settles (fun a w => k.Grouped w.power w.operands ∧ post a ⟨w.front, [⟨k, w.power⟩], none⟩) v
  | _, inner c, post, v => c.Wants v ∧ ∀ w, c.Gives v w → post () w

end Parse

/-! ### Glances at states -/

namespace Forest

variable (ts us : Forest)

@[simp] theorem operands_append : (ts ++ us : Forest).operands = ts.operands ++ us.operands :=
  List.filterMap_append

@[simp] theorem precedence?_append :
    (ts ++ us : Forest).precedence? = ts.precedence?.or us.precedence? :=
  List.findSome?_append

@[simp] theorem operands_leaves (tokens : List Token) :
    Forest.operands (tokens.map Tree.leaf) = [] := by
  simp [operands, Tree.operand?]

theorem precedence?_leaves (tokens : List Token) :
    Forest.precedence? (tokens.map Tree.leaf) = tokens.findSome? (·.kind.precedence?) := by
  induction tokens with
  | nil => rfl
  | cons t ts ih => simp only [List.map_cons, precedence?, List.findSome?_cons] at ih ⊢; rw [ih]; rfl

end Forest

theorem Kind.precedence?_of_isTrivia {k : Kind} (trivia : k.isTrivia) : k.precedence? = none := by
  cases k <;> first | rfl | cases trivia

namespace ParseState

def glance (s : ParseState) : Glance :=
  ⟨s.upcoming, Forest.operands s.level.reverse, Forest.precedence? s.level.reverse⟩

variable (s : ParseState)

@[simp] theorem glance_opened : s.opened.glance = ⟨s.upcoming, [], none⟩ := rfl

@[simp] theorem glance_object (e : SyntaxError) : (s.object e).glance = s.glance := rfl

@[simp] theorem glance_wrapped (k : Kind) :
    (s.wrapped k).glance = ⟨s.upcoming, [⟨k, s.glance.power⟩], none⟩ := rfl

theorem glance_closed (siblings : List Tree) :
    (s.closed siblings).glance =
      ⟨s.upcoming, Forest.operands siblings.reverse ++ s.glance.operands,
        (Forest.precedence? siblings.reverse).or s.glance.power⟩ := by
  rw [glance, upcoming_closed]
  simp only [glance, closed, List.reverse_append, Forest.operands_append, Forest.precedence?_append]

theorem glance_takeWhile (p : Kind → Bool) :
    (s.takeWhile p).glance =
      ⟨(s.takeWhile p).upcoming, s.glance.operands,
        s.glance.power.or ((s.tokens.takeWhile (p ·.kind)).findSome? (·.kind.precedence?))⟩ := by
  simp only [glance, takeWhile, List.reverse_append, List.reverse_reverse, Forest.operands_append,
    Forest.precedence?_append, Forest.operands_leaves, Forest.precedence?_leaves, List.append_nil]

@[simp] theorem glance_trivia : s.trivia.glance = s.glance := by
  have none : (s.tokens.takeWhile (·.kind.isTrivia)).findSome? (·.kind.precedence?) = none := by
    refine List.findSome?_eq_none_iff.mpr fun t member => ?_
    exact Kind.precedence?_of_isTrivia (List.all_eq_true.mp List.all_takeWhile t member)
  rw [trivia, glance_takeWhile, none, Option.or_none, ← trivia, upcoming_trivia]
  rfl

theorem glance_takeOne :
    s.takeOne.glance =
      ⟨s.takeOne.upcoming, s.glance.operands, s.glance.power.or s.front.precedence?⟩ := by
  obtain ⟨tokens, level, offset, errors⟩ := s
  cases tokens with
  | nil => simp [takeOne, front, glance, Kind.precedence?, bindingPower?]
  | cons t ts => simp [takeOne, front, glance, Forest.operands, Forest.precedence?, Tree.operand?,
      Tree.precedence?, List.findSome?_append]

theorem glance_bump :
    s.trivia.takeOne.glance =
      ⟨s.trivia.takeOne.upcoming, s.glance.operands, s.glance.power.or s.upcoming.precedence?⟩ := by
  rw [glance_takeOne, glance_trivia, front_trivia]

def Grouped (s : ParseState) : Prop := ∀ t ∈ s.level, t.Grouped

theorem Grouped.takeWhile {s : ParseState} (h : s.Grouped) (p : Kind → Bool) :
    (s.takeWhile p).Grouped :=
  forall_level_takeWhile .leaf h p

theorem Grouped.wrapped {s : ParseState} {k : Kind} (h : s.Grouped)
    (own : k.Grouped s.glance.power s.glance.operands) : (s.wrapped k).Grouped :=
  List.forall_mem_singleton.mpr (.node own fun t inside => h t (List.mem_reverse.mp inside))

end ParseState

namespace Parse

variable {α β : Type} {p : Parse α} {v : Glance}

def RulesSettle : Prop :=
  ∀ (c : Construct) (v : Glance), c.Wants v → c.rule.Settles (fun _ w => c.Gives v w) v

/-- A run ends as its program settles. -/
theorem Runs.gives (rules : RulesSettle) {s s' : ParseState} {a : α} (h : Runs p s a s')
    {post : α → Glance → Prop} (settles : p.Settles post s.glance) (grouped : s.Grouped) :
    post a s'.glance ∧ s'.Grouped := by
  induction h with
  | done a s => exact ⟨settles, grouped⟩
  | andThen _ _ ihp ihf =>
      obtain ⟨settles, grouped⟩ := ihp settles grouped
      exact ihf settles grouped
  | current s =>
      rw [s.front_trivia, s.glance_trivia]
      exact ⟨settles, grouped.takeWhile _⟩
  | nth? n s => exact ⟨settles _, grouped⟩
  | ahead question s => exact ⟨settles _, grouped⟩
  | bump s =>
      rw [s.glance_bump]
      exact ⟨settles _, ParseState.forall_level_takeOne .leaf (grouped.takeWhile _)⟩
  | skip p s =>
      rw [s.glance_takeWhile]
      exact ⟨settles _ _, grouped.takeWhile _⟩
  | fail e s =>
      rw [ParseState.glance_object, s.glance_trivia]
      exact ⟨settles, grouped.takeWhile _⟩
  | @group _ _ s s' _ _ ih =>
      rw [Settles, ← s.glance_trivia] at settles
      obtain ⟨settles, inside⟩ := ih settles fun _ member => nomatch member
      rw [ParseState.glance_closed]
      exact ⟨settles, List.forall_mem_append.mpr ⟨inside, grouped.takeWhile _⟩⟩
  | wrap k _ ih =>
      obtain ⟨⟨own, settles⟩, inside⟩ := ih settles grouped
      rw [ParseState.glance_wrapped]
      exact ⟨settles, inside.wrapped own⟩
  | @inner c s s' _ ih =>
      obtain ⟨gives, grouped⟩ := ih (rules c s.glance settles.1) grouped
      exact ⟨settles.2 _ gives, grouped⟩

end Parse

end SharpRefactor
