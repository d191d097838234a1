import SharpRefactor.Proofs.Parsing.Trivia

/-!
The parser on bare tokens. Since trivia has no say in how a text is read, a reading can be followed
on states that hold no trivia and no places; there a program is evaluated token by token. At a depth
with room for all tokens that are left, reading a construct is following its rule.
-/

namespace SharpRefactor

theorem isTrivia_of_mem_bareTokens {t : Token} {ts : List Token} (h : t ∈ bareTokens ts) :
    t.isTrivia = false := by
  simpa using (List.mem_filter.mp h).2

theorem bareTokens_eq_self {ts : List Token} (solid : ∀ t ∈ ts, t.isTrivia = false) :
    bareTokens ts = ts := by
  simpa [bareTokens] using solid

theorem Forest.bare_eq_self {ts : Forest} (each : ∀ t ∈ ts, t.bare = [t]) : Forest.bare ts = ts := by
  induction ts with
  | nil => rfl
  | cons t ts ih =>
      rw [List.forall_mem_cons] at each
      rw [Forest.bare, each.1, ih each.2, List.singleton_append]

mutual

/-- Nothing is left to drop from a bare tree. -/
theorem Tree.bare_idem : ∀ (t : Tree), ∀ u ∈ t.bare, u.bare = [u]
  | .leaf token, u, member => by
      simp only [Tree.bare] at member
      split at member
      · cases member
      · next real =>
        obtain rfl := List.mem_singleton.mp member
        simp [Tree.bare, real]
  | .node k ts, u, member => by
      obtain rfl := List.mem_singleton.mp member
      rw [Tree.bare, Forest.bare_eq_self fun v inside => Forest.bare_idem ts v inside]

theorem Forest.bare_idem : ∀ (ts : Forest), ∀ u ∈ Forest.bare ts, u.bare = [u]
  | [], u, member => nomatch member
  | t :: ts, u, member => by
      rcases List.mem_append.mp member with first | later
      · exact Tree.bare_idem t u first
      · exact Forest.bare_idem ts u later

end

namespace BareState

def front (b : BareState) : Kind := Lookahead.nextKind b.tokens

/-- A reading that stands where a bare one does. -/
def reading (b : BareState) : ParseState :=
  ⟨b.tokens, b.level, 0, b.errors.map (⟨·, .empty 0⟩)⟩

structure Solid (b : BareState) : Prop where
  tokens : ∀ t ∈ b.tokens, t.isTrivia = false
  level : ∀ t ∈ b.level, t.bare = [t]

def object (e : SyntaxError) (b : BareState) : BareState := { b with errors := e :: b.errors }

def opened (b : BareState) : BareState := { b with level := [] }

def closed (b : BareState) (siblings : List Tree) : BareState :=
  { b with level := b.level ++ siblings }

def wrapped (k : Kind) (b : BareState) : BareState :=
  { b with level := [.node k b.level.reverse] }

theorem solid_bare (s : ParseState) : s.bare.Solid :=
  ⟨fun _ => isTrivia_of_mem_bareTokens, Forest.bare_idem s.level⟩

theorem Solid.bare_reading {b : BareState} (solid : b.Solid) : b.reading.bare = b := by
  obtain ⟨tokens, level, errors⟩ := b
  simp only [reading, ParseState.bare, bareTokens_eq_self solid.tokens,
    Forest.bare_eq_self solid.level, List.map_map, Function.comp_def, List.map_id']

end BareState

namespace Parse

def runBare (read : Construct → BareState → BareState) :
    {α : Type} → Parse α → BareState → α × BareState
  | _, done a, b => (a, b)
  | _, andThen p f, b => (f (p.runBare read b).1).runBare read (p.runBare read b).2
  | _, current, b => (b.front, b)
  | _, nth? n, b => (Lookahead.nth? n b.tokens, b)
  | _, ahead question, b => (question.ask b.tokens, b)
  | _, bump, b => ((), b.takeOne)
  | _, skip p, b => ((), b.takeWhile p)
  | _, fail error, b => ((), b.object error)
  | _, group p, b =>
    let (a, b') := p.runBare read b.opened
    (a, b'.closed b.level)
  | _, wrap k p, b =>
    let (a, b') := p.runBare read b
    (a, b'.wrapped k)
  | _, inner c, b => ((), read c b)

/-- A program does on the bare state what it does on the whole one. -/
theorem run_eq_runBare {read : Construct → ParseState → ParseState}
    {readBare : Construct → BareState → BareState}
    (same : ∀ c s, (read c s).bare = readBare c s.bare) {α : Type} (p : Parse α) (s : ParseState) :
    (p.run read s).1 = (p.runBare readBare s.bare).1 ∧
      (p.run read s).2.bare = (p.runBare readBare s.bare).2 := by
  induction p generalizing s with
  | done a => exact ⟨rfl, rfl⟩
  | andThen p f ihp ihf =>
      obtain ⟨value, state⟩ := ihp s
      simp only [run, runBare, ← value, ← state]
      exact ihf _ _
  | current => exact ⟨by rw [run_current, s.upcoming_bare]; rfl, s.bare_trivia⟩
  | nth? n => exact ⟨(Lookahead.nth?_bare n s.tokens).symm, rfl⟩
  | ahead question => exact ⟨(Lookahead.ask_bare s.tokens question).symm, rfl⟩
  | bump => exact ⟨rfl, s.bare_bump⟩
  | skip p => exact ⟨rfl, s.bare_skip p⟩
  | fail e => exact ⟨rfl, by rw [run_fail, ParseState.bare_object, s.bare_trivia]; rfl⟩
  | group p ih =>
      obtain ⟨value, state⟩ := ih s.trivia.opened
      rw [ParseState.bare_opened, s.bare_trivia] at value state
      refine ⟨value, ?_⟩
      rw [run_group, ParseState.bare_closed, state]
      have level : Forest.bare s.trivia.level = Forest.bare s.level :=
        congrArg BareState.level s.bare_trivia
      rw [level]
      rfl
  | wrap k p ih =>
      obtain ⟨value, state⟩ := ih s
      refine ⟨value, ?_⟩
      rw [run_wrap, ParseState.bare_wrapped, state]
      rfl
  | inner c => exact ⟨rfl, same c s⟩

end Parse

namespace Construct

def readBare (depth : Nat) (c : Construct) (b : BareState) : BareState :=
  (c.read depth b.reading).bare

theorem bare_read (depth : Nat) (c : Construct) (s : ParseState) :
    (c.read depth s).bare = c.readBare depth s.bare :=
  read_bare depth c (BareState.solid_bare s).bare_reading.symm

theorem readBare_solid (depth : Nat) (c : Construct) (b : BareState) :
    (c.readBare depth b).Solid :=
  BareState.solid_bare _

/-- Where there is room for the tokens left, reading a construct is following its rule. -/
theorem readBare_rule {depth : Nat} {c : Construct} {b : BareState} (solid : b.Solid)
    (room : 32 * (b.tokens.length + 1) ≤ depth) :
    c.readBare depth b = (c.rule.runBare (readBare depth) b).2 := by
  have light : c.weight b.reading < depth := by
    refine Nat.lt_of_lt_of_le (c.weight_lt b.reading) (Nat.le_trans ?_ room)
    have : b.reading.left ≤ b.tokens.length := List.countP_le_length
    omega
  rw [readBare, read_rule light, (Parse.run_eq_runBare (bare_read depth) c.rule b.reading).2]
  rw [solid.bare_reading]

theorem readBare_length_le (depth : Nat) (c : Construct) (b : BareState) :
    (c.readBare depth b).tokens.length ≤ b.tokens.length := by
  have falls := read_left_le depth c b.reading
  rw [readBare, ParseState.bare, bareTokens, ← List.countP_eq_length_filter]
  exact Nat.le_trans falls List.countP_le_length

/-- Objections are never taken back. -/
theorem read_errors {depth : Nat} {c : Construct} {s : ParseState}
    (none : (c.read depth s).errors = []) : s.errors = [] := by
  have kept : ∀ {α : Type} {read : Construct → ParseState → ParseState} (p : Parse α)
      (s : ParseState), (∀ c s, (read c s).errors = [] → s.errors = []) →
      (p.run read s).2.errors = [] → s.errors = [] := by
    intro α read p s inside
    induction p generalizing s with
    | andThen p f ihp ihf => exact fun none => ihp s (ihf _ _ none)
    | fail e => exact fun none => nomatch none
    | bump =>
        intro none
        have moved : s.trivia.takeOne.errors = s.errors := by
          unfold ParseState.takeOne
          split <;> rfl
        exact moved ▸ none
    | group p ih => exact fun none => ih s.trivia.opened none
    | wrap k p ih => exact ih s
    | inner c => exact inside c s
    | _ => exact id
  induction depth generalizing c s with
  | zero => exact none
  | succ depth ih => exact kept c.rule s (fun _ _ => ih) none

theorem readBare_errors {depth : Nat} {c : Construct} {b : BareState}
    (none : (c.readBare depth b).errors = []) : b.errors = [] := by
  have before := read_errors (List.map_eq_nil_iff.mp none)
  simpa [BareState.reading] using before

end Construct

theorem Parse.runBare_errors {depth : Nat} {α : Type} {p : Parse α} {b : BareState}
    (none : (p.runBare (Construct.readBare depth) b).2.errors = []) : b.errors = [] := by
  induction p generalizing b with
  | andThen p f ihp ihf => exact ihp (ihf _ none)
  | fail e => cases none
  | bump =>
      have moved : b.takeOne.errors = b.errors := by
        unfold BareState.takeOne
        split <;> rfl
      exact moved ▸ none
  | group p ih =>
      have before := ih none
      exact before
  | wrap k p ih => exact ih none
  | inner c => exact Construct.readBare_errors none
  | _ => exact none

/-! ### Evaluation -/

namespace Parse

section Evaluation

variable {read : Construct → BareState → BareState} {α β : Type} {b : BareState}

@[simp] theorem runBare_pure (a : α) : (pure a : Parse α).runBare read b = (a, b) := rfl

@[simp] theorem runBare_bind (p : Parse α) (f : α → Parse β) :
    (p >>= f).runBare read b = (f (p.runBare read b).1).runBare read (p.runBare read b).2 := rfl

theorem runBare_if {p : Parse α} {f : α → Bool} {x y : Parse β} :
    (p >>= fun a => if f a = true then x else y).runBare read b =
      if f (p.runBare read b).1 = true then x.runBare read (p.runBare read b).2
      else y.runBare read (p.runBare read b).2 := by
  rw [runBare_bind]
  split <;> rfl

@[simp] theorem runBare_current : current.runBare read b = (b.front, b) := rfl

@[simp] theorem runBare_nth? (n : Nat) :
    (nth? n).runBare read b = (Lookahead.nth? n b.tokens, b) := rfl

@[simp] theorem runBare_ahead (question : Lookahead.Question) :
    (ahead question).runBare read b = (question.ask b.tokens, b) := rfl

@[simp] theorem runBare_bump : bump.runBare read b = ((), b.takeOne) := rfl

@[simp] theorem runBare_fail (e : SyntaxError) : (fail e).runBare read b = ((), b.object e) := rfl

@[simp] theorem runBare_group (p : Parse α) :
    (group p).runBare read b =
      ((p.runBare read b.opened).1, (p.runBare read b.opened).2.closed b.level) := rfl

@[simp] theorem runBare_wrap (k : Kind) (p : Parse α) :
    (wrap k p).runBare read b = ((p.runBare read b).1, (p.runBare read b).2.wrapped k) := rfl

@[simp] theorem runBare_inner (c : Construct) : (inner c).runBare read b = ((), read c b) := rfl

@[simp] theorem runBare_atKind (k : Kind) : (atKind k).runBare read b = (b.front == k, b) := rfl

@[simp] theorem runBare_secondIs (k : Kind) :
    (secondIs k).runBare read b = (Lookahead.nth? 1 b.tokens == some k, b) := rfl

@[simp] theorem runBare_atIdentifier :
    atIdentifier.runBare read b = (b.front == .identifier, b) := rfl

@[simp] theorem runBare_atTypeStart :
    atTypeStart.runBare read b =
      (b.front == .identifier || b.front.isPredefinedType, b) := rfl

@[simp] theorem runBare_atRank :
    atRank.runBare read b =
      (b.front == .lBracket && Lookahead.nth? 1 b.tokens == some .rBracket, b) := rfl

@[simp] theorem runBare_missing (what : Expected) :
    (missing what).runBare read b = ((), b.object (.expected what)) := rfl

theorem runBare_node (k : Kind) (p : Parse α) :
    (node k p).runBare read b =
      ((p.runBare read b.opened).1, ((p.runBare read b.opened).2.wrapped k).closed b.level) := rfl

theorem runBare_require_found {k : Kind} {what : Expected} (found : b.front = k) :
    (require k what).runBare read b = ((), b.takeOne) := by
  simp [require, expect, found]

theorem runBare_require_absent {k : Kind} {what : Expected} (absent : b.front ≠ k) :
    (require k what).runBare read b = ((), b.object (.expected what)) := by
  simp [require, expect, absent]

end Evaluation
end Parse

end SharpRefactor
