import SharpRefactor.Proofs.Parsing.Depth

/-!
The parser on a builder with one stack of finished trees. A node is begun now, or back at a
checkpoint that has to be still valid, and is finished later; finishing without a begun node,
beginning at a stale checkpoint and reading on when the depth is used up all fail. No run of the
grammar fails, and the stack holds the trees of the open level on top of those of the levels around
it.
-/

namespace SharpRefactor

structure BuildState where
  /-- The reading; its level holds the finished trees of every level. -/
  reading : ParseState
  /-- The nodes begun and not finished, the last one first, each with the number of trees that were
  finished before its first child. -/
  begun : List (Kind × Nat)

namespace BuildState

def checkpoint (b : BuildState) : Nat := b.reading.level.length

def move (f : ParseState → ParseState) (b : BuildState) : BuildState :=
  { b with reading := f b.reading }

/-- Begins a node at a checkpoint, which has to be inside the node begun last. -/
def startNodeAt (checkpoint : Nat) (k : Kind) (b : BuildState) : Option BuildState :=
  if checkpoint ≤ b.checkpoint ∧ ∀ node ∈ b.begun.head?, node.2 ≤ checkpoint then
    some { b with begun := (k, checkpoint) :: b.begun }
  else none

def finishNode (b : BuildState) : Option BuildState :=
  match b.begun with
  | [] => none
  | (k, first) :: begun =>
    if first ≤ b.checkpoint then
      let stack := b.reading.level
      let children := (stack.take (b.checkpoint - first)).reverse
      let below := stack.drop (b.checkpoint - first)
      some ⟨{ b.reading with level := .node k children :: below }, begun⟩
    else none

def finish (b : BuildState) : Option Tree :=
  match b.begun, b.reading.level with
  | [], [.node k ts] => some (.node k ts)
  | _, _ => none

end BuildState

namespace Parse

/-- Runs a program on the builder; `checkpoint` is where its level begins. -/
def build (read : Construct → Nat → BuildState → Option BuildState) :
    {α : Type} → Parse α → Nat → BuildState → Option (α × BuildState)
  | _, done a, _, b => some (a, b)
  | _, andThen p f, checkpoint, b => do
    let (a, b) ← p.build read checkpoint b
    (f a).build read checkpoint b
  | _, current, _, b => some (b.reading.trivia.front, b.move .trivia)
  | _, nth? n, _, b => some (Lookahead.nth? n b.reading.tokens, b)
  | _, ahead question, _, b => some (question.ask b.reading.tokens, b)
  | _, bump, _, b => some ((), b.move fun s => s.trivia.takeOne)
  | _, skip p, _, b => some ((), b.move (.takeWhile fun k => k.isTrivia || p k))
  | _, fail e, _, b => some ((), b.move fun s => s.trivia.object e)
  | _, group p, _, b => p.build read (b.move .trivia).checkpoint (b.move .trivia)
  | _, wrap k p, checkpoint, b => do
    let b ← b.startNodeAt checkpoint k
    let (a, b) ← p.build read checkpoint b
    let b ← b.finishNode
    return (a, b)
  | _, inner c, checkpoint, b => do
    let b ← read c checkpoint b
    return ((), b)

end Parse

def Construct.build : Nat → Construct → Nat → BuildState → Option BuildState
  | 0, _, _, _ => none
  | depth + 1, c, checkpoint, b => do
    let (_, b) ← c.rule.build (Construct.build depth) checkpoint b
    return b

def buildFile (depth : Nat) (ts : List Token) : Option Tree := do
  let b : BuildState := ⟨.start ts, []⟩
  let b ← b.startNodeAt 0 .compilationUnit
  let b ← (Construct.namespaceBody false).build depth 0 (b.move .trivia)
  let b ← (b.move .trivia).finishNode
  b.finish

namespace ParseState

/-- The builder for a reading inside other levels, whose trees are `below`. -/
def onto (s : ParseState) (below : List Tree) (begun : List (Kind × Nat)) : BuildState :=
  ⟨{ s with level := s.level ++ below }, begun⟩

section Onto

variable (s : ParseState) (below : List Tree) (begun : List (Kind × Nat))

theorem takeWhile_onto (p : Kind → Bool) :
    (s.onto below begun).move (.takeWhile p) = (s.takeWhile p).onto below begun := by
  simp [onto, BuildState.move, takeWhile]

theorem trivia_onto : (s.onto below begun).move .trivia = s.trivia.onto below begun :=
  s.takeWhile_onto below begun _

theorem takeOne_onto : (s.onto below begun).move .takeOne = s.takeOne.onto below begun := by
  obtain ⟨tokens, level, offset, errors⟩ := s
  cases tokens <;> rfl

theorem object_onto (e : SyntaxError) :
    (s.onto below begun).move (.object e) = (s.object e).onto below begun := rfl

theorem startNodeAt_onto (valid : ∀ node ∈ begun.head?, node.2 ≤ below.length) (k : Kind) :
    (s.onto below begun).startNodeAt below.length k =
      some (s.onto below ((k, below.length) :: begun)) := by
  have here : below.length ≤ (s.onto below begun).checkpoint := by
    simp [BuildState.checkpoint, onto]
  exact if_pos ⟨here, valid⟩

theorem finishNode_onto (k : Kind) :
    (s.onto below ((k, below.length) :: begun)).finishNode =
      some ((s.wrapped k).onto below begun) := by
  simp [BuildState.finishNode, BuildState.checkpoint, onto, wrapped]

/-- A level that ends is on the stack already. -/
theorem closed_onto (siblings : List Tree) :
    s.onto (siblings ++ below) begun = (s.closed siblings).onto below begun := by
  simp [onto, closed]

theorem opened_onto : s.onto below begun = s.opened.onto (s.level ++ below) begun := by
  simp [onto, opened]

end Onto
end ParseState

namespace Parse

variable {read : Construct → ParseState → ParseState} {bound : Nat}
  {stack : Construct → Nat → BuildState → Option BuildState}

/-- A program does on the stack what it does on its level, if the constructs it meets do. -/
theorem build_eq_run
    (inside : ∀ c s below begun, c.weight s < bound →
      (∀ node ∈ begun.head?, node.2 ≤ below.length) →
      stack c below.length (s.onto below begun) = some ((read c s).onto below begun))
    {α : Type} (p : Parse α) (s : ParseState) (below : List Tree) (begun : List (Kind × Nat))
    (fits : p.Fits read bound s) (valid : ∀ node ∈ begun.head?, node.2 ≤ below.length) :
    p.build stack below.length (s.onto below begun) =
      some ((p.run read s).1, (p.run read s).2.onto below begun) := by
  induction p generalizing s below begun with
  | done a => rfl
  | andThen p f ihp ihf =>
      simp only [build, ihp s below begun fits.1 valid]
      exact ihf _ _ _ _ fits.2 valid
  | current =>
      simp only [build, s.trivia_onto below begun]
      rfl
  | nth? n => rfl
  | ahead question => rfl
  | bump =>
      have moved := s.trivia.takeOne_onto below begun
      rw [← s.trivia_onto below begun] at moved
      exact congrArg (fun b => some ((), b)) moved
  | skip p => exact congrArg (fun b => some ((), b)) (s.takeWhile_onto below begun _)
  | fail e =>
      have moved := s.trivia.object_onto below begun e
      rw [← s.trivia_onto below begun] at moved
      exact congrArg (fun b => some ((), b)) moved
  | group p ih =>
      have outside : ∀ node ∈ begun.head?, node.2 ≤ (s.trivia.level ++ below).length := by
        intro node h
        have := valid node h
        simp only [List.length_append]
        omega
      have inner := ih s.trivia.opened (s.trivia.level ++ below) begun fits outside
      simp only [build, s.trivia_onto below begun]
      rw [s.trivia.opened_onto below begun]
      rw [(p.run read s.trivia.opened).2.closed_onto below begun s.trivia.level] at inner
      exact inner
  | wrap k p ih =>
      have inner := ih s below ((k, below.length) :: begun) fits (by simp)
      simp only [build, s.startNodeAt_onto below begun valid k]
      simp only [bind, Option.bind, inner, ParseState.finishNode_onto]
      rfl
  | inner c => simp only [build, inside c s below begun fits valid, run]; rfl

end Parse

namespace Construct

/-- Read deep enough, a construct does on the stack what it does on its level. -/
theorem build_eq_read {depth : Nat} {c : Construct} {s : ParseState} (deep : c.weight s < depth)
    (below : List Tree) (begun : List (Kind × Nat))
    (valid : ∀ node ∈ begun.head?, node.2 ≤ below.length) :
    c.build depth below.length (s.onto below begun) = some ((c.read depth s).onto below begun) := by
  induction depth generalizing c s below begun with
  | zero => omega
  | succ depth ih =>
      have fits := rule_fits (reads (c.weight s) depth (by omega))
      have inside : ∀ (c' : Construct) (s' : ParseState) (below : List Tree)
          (begun : List (Kind × Nat)), c'.weight s' < c.weight s →
          (∀ node ∈ begun.head?, node.2 ≤ below.length) →
          c'.build depth below.length (s'.onto below begun) =
            some ((c'.read depth s').onto below begun) :=
        fun c' s' below begun light valid => ih (by omega) below begun valid
      have run := Parse.build_eq_run inside c.rule s below begun fits valid
      simp only [build, run]
      rfl

end Construct

/-- No step of the builder fails for a file, and what it builds is what the rules read. -/
theorem buildFile_eq {depth : Nat} {ts : List Token} (deep : nestingBound ts ≤ depth) :
    buildFile depth ts = some (.node .compilationUnit (readFile ts).level.reverse) := by
  have few : (ParseState.start ts).trivia.left = Lookahead.significant ts :=
    ParseState.left_trivia _
  have light : (Construct.namespaceBody false).weight (ParseState.start ts).trivia <
      nestingBound ts := by
    have := (Construct.namespaceBody false).weight_lt (ParseState.start ts).trivia
    rwa [few] at this
  have body := Construct.build_eq_read (Nat.lt_of_lt_of_le light deep) [] [(.compilationUnit, 0)]
    (by simp)
  rw [Construct.read_deeper (Nat.lt_of_lt_of_le light deep) light] at body
  have begins := (ParseState.start ts).startNodeAt_onto [] [] (by simp) .compilationUnit
  have ends := (readFile ts).finishNode_onto [] [] .compilationUnit
  show (do
    let b ← ((ParseState.start ts).onto [] []).startNodeAt 0 .compilationUnit
    let b ← (Construct.namespaceBody false).build depth 0 (b.move .trivia)
    let b ← (b.move .trivia).finishNode
    b.finish) = _
  simp only [List.length_nil] at begins body ends
  simp only [begins, Option.bind_eq_bind, Option.bind_some, body, ParseState.trivia_onto]
  rw [← readFile, ends]
  simp [BuildState.finish, ParseState.onto, ParseState.wrapped]

end SharpRefactor
