import SharpRefactor.Proofs.Parsing.Levels
import SharpRefactor.Proofs.Parsing.Makes
import SharpRefactor.Proofs.Parsing.Unbounded

/-!
What a program of the parser builds out of what it sees. A sight keeps of a state the kind of the
next token and the nodes on the open level; `Parse.Shows` is the weakest precondition of a program
over sights. A pledge says what reading a construct makes of a sight and what holds of the children
of each node. If the rules keep the pledge, every run does, whatever it objects to.
-/

namespace SharpRefactor

def Forest.nodes (ts : Forest) : Forest := ts.filter Tree.isNode

namespace Forest

@[simp] theorem nodes_append (ts us : Forest) : (ts ++ us : Forest).nodes = ts.nodes ++ us.nodes :=
  List.filter_append ..

@[simp] theorem nodes_leaves (tokens : List Token) : Forest.nodes (tokens.map Tree.leaf) = [] := by
  simp [nodes, Tree.isNode]

theorem mem_nodes {ts : Forest} {t : Tree} : t ∈ ts.nodes ↔ t ∈ ts ∧ t.isNode := List.mem_filter

end Forest

/-- The kind of the next token and the nodes on the open level. -/
structure Sight where
  front : Kind
  nodes : Forest

def Sight.push (v : Sight) (front : Kind) (x : Tree) : Sight := ⟨front, v.nodes ++ [x]⟩

/-- What every node is like, and what comes of reading a construct. -/
structure Pledge where
  own : Kind → Forest → Prop
  gives : Construct → Sight → Sight → Prop

namespace Parse

/-- What must hold of a sight for a program that is run there to end in a postcondition, with every
node that it builds as pledged. -/
def Shows (π : Pledge) : {α : Type} → Parse α → (α → Sight → Prop) → Sight → Prop
  | _, done a, post, v => post a v
  | _, andThen p f, post, v => p.Shows π (fun a => (f a).Shows π post) v
  | _, current, post, v => post v.front v
  | _, nth? _, post, v => ∀ k, post k v
  | _, ahead _, post, v => ∀ b, post b v
  | _, bump, post, v => ∀ front, post () ⟨front, v.nodes⟩
  | _, skip _, post, v => ∀ front, post () ⟨front, v.nodes⟩
  | _, fail _, post, v => post () v
  | _, group p, post, v => p.Shows π (fun a w => post a ⟨w.front, v.nodes ++ w.nodes⟩) ⟨v.front, []⟩
  | _, wrap k p, post, v =>
      p.Shows π (fun a w => ∀ ts : Forest, ts.nodes = w.nodes →
        π.own k ts ∧ post a ⟨w.front, [.node k ts]⟩) v
  | _, inner c, post, v => ∀ w, π.gives c v w → post () w

end Parse

/-! ### Sights of states -/

namespace ParseState

def sight (s : ParseState) : Sight := ⟨s.upcoming, Forest.nodes s.level.reverse⟩

variable (s : ParseState)

@[simp] theorem sight_object (e : SyntaxError) : (s.object e).sight = s.sight := rfl

theorem sight_closed (siblings : List Tree) :
    (s.closed siblings).sight = ⟨s.upcoming, Forest.nodes siblings.reverse ++ s.sight.nodes⟩ := by
  rw [sight, upcoming_closed]
  simp only [sight, closed, List.reverse_append, Forest.nodes_append]

theorem sight_takeWhile (p : Kind → Bool) :
    (s.takeWhile p).sight = ⟨(s.takeWhile p).upcoming, s.sight.nodes⟩ := by
  simp only [sight, takeWhile, List.reverse_append, List.reverse_reverse, Forest.nodes_append,
    Forest.nodes_leaves, List.append_nil]

@[simp] theorem sight_trivia : s.trivia.sight = s.sight := by
  rw [trivia, sight_takeWhile, ← trivia, upcoming_trivia]
  rfl

theorem sight_bump : s.trivia.takeOne.sight = ⟨s.trivia.takeOne.upcoming, s.sight.nodes⟩ := by
  rw [← s.sight_trivia]
  obtain ⟨tokens, level, offset, errors⟩ := s.trivia
  cases tokens <;> simp [takeOne, sight, Forest.nodes, Tree.isNode]

end ParseState

namespace Parse

variable {π : Pledge} {α β : Type} {p : Parse α} {post : α → Sight → Prop} {v : Sight}

def RulesShow (π : Pledge) : Prop :=
  ∀ (c : Construct) (v : Sight), c.rule.Shows π (fun _ w => π.gives c v w) v

/-- A run ends as its program shows. -/
theorem Runs.shows (rules : RulesShow π) {s s' : ParseState} {a : α} (h : Runs p s a s')
    (shows : p.Shows π post s.sight) (every : s.Every π.own) : post a s'.sight ∧ s'.Every π.own := by
  induction h with
  | done a s => exact ⟨shows, every⟩
  | andThen _ _ ihp ihf =>
      obtain ⟨shows, every⟩ := ihp shows every
      exact ihf shows every
  | current s =>
      rw [s.front_trivia, s.sight_trivia]
      exact ⟨shows, every.trivia⟩
  | nth? n s => exact ⟨shows _, every⟩
  | ahead question s => exact ⟨shows _, every⟩
  | bump s =>
      rw [s.sight_bump]
      exact ⟨shows _, every.trivia.takeOne⟩
  | skip p s =>
      rw [s.sight_takeWhile]
      exact ⟨shows _, every.takeWhile _⟩
  | fail e s =>
      rw [ParseState.sight_object, s.sight_trivia]
      exact ⟨shows, every.trivia⟩
  | group _ ih =>
      rw [Shows, ← ParseState.sight_trivia] at shows
      obtain ⟨shows, inside⟩ := ih shows (ParseState.every_opened _)
      rw [ParseState.sight_closed]
      exact ⟨shows, inside.closed every.trivia⟩
  | wrap k _ ih =>
      obtain ⟨shows, inside⟩ := ih shows every
      obtain ⟨own, shows⟩ := shows _ rfl
      exact ⟨shows, inside.wrapped own⟩
  | @inner c s s' _ ih =>
      obtain ⟨gives, every⟩ := ih (rules c s.sight) every
      exact ⟨shows _ gives, every⟩

/-! ### Forms of programs -/

theorem shows_bind {f : α → Parse β} {post : β → Sight → Prop} :
    (p >>= f).Shows π post v ↔ p.Shows π (fun a w => (f a).Shows π post w) v := Iff.rfl

theorem shows_current {post : Kind → Sight → Prop} : current.Shows π post v ↔ post v.front v := Iff.rfl

theorem shows_atKind {k : Kind} {post : Bool → Sight → Prop} :
    (atKind k).Shows π post v ↔ post (v.front == k) v := Iff.rfl

theorem shows_ite {c : Prop} [Decidable c] {q : Parse α} :
    (if c then p else q).Shows π post v ↔ (c → p.Shows π post v) ∧ (¬ c → q.Shows π post v) := by
  split <;> simp [*]

theorem shows_group :
    (group p).Shows π post v ↔
      p.Shows π (fun a w => post a ⟨w.front, v.nodes ++ w.nodes⟩) ⟨v.front, []⟩ := Iff.rfl

theorem shows_wrap {k : Kind} :
    (wrap k p).Shows π post v ↔ p.Shows π (fun a w => ∀ ts : Forest, ts.nodes = w.nodes →
      π.own k ts ∧ post a ⟨w.front, [.node k ts]⟩) v := Iff.rfl

theorem shows_node {k : Kind} :
    (node k p).Shows π post v ↔ p.Shows π (fun a w => ∀ ts : Forest, ts.nodes = w.nodes →
      π.own k ts ∧ post a (v.push w.front (.node k ts))) ⟨v.front, []⟩ := Iff.rfl

theorem shows_require {k : Kind} {what : Expected} {post : Unit → Sight → Prop}
    (rest : ∀ front, post () ⟨front, v.nodes⟩) : (require k what).Shows π post v := by
  refine shows_bind.mpr (shows_bind.mpr (shows_atKind.mpr (shows_ite.mpr ⟨fun _ => ?_, fun _ => ?_⟩)))
  · exact fun front => rest front
  · exact rest v.front

/-- A program of whose nodes nothing is asked shows whatever holds of every sight. -/
theorem shows_of_makes {met : Construct → Prop} (makes : p.Makes (fun k => ∀ ts, π.own k ts) met)
    (after : ∀ a w, post a w) : p.Shows π post v := by
  induction p generalizing v with
  | andThen p f ihp ihf => exact ihp makes.1 fun a w => ihf a (makes.2 a) after
  | nth? | ahead | bump | skip => exact fun _ => after _ _
  | group p ih => exact ih makes fun a w => after _ _
  | wrap k p ih => exact ih makes.2 fun a w ts _ => ⟨makes.1 ts, after _ _⟩
  | inner c => exact fun w _ => after _ _
  | _ => exact after _ _

theorem shows_node_of_makes {k : Kind} {met : Construct → Prop}
    (makes : (node k p).Makes (fun k => ∀ ts, π.own k ts) met)
    (rest : ∀ a front ts, post a (v.push front (.node k ts))) : (node k p).Shows π post v :=
  shows_node.mpr (shows_of_makes makes.2 fun a w ts _ => ⟨makes.1 ts, rest a w.front ts⟩)

end Parse
end SharpRefactor
