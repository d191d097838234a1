import SharpRefactor.Proofs.Parsing.Lossless

/-!
The grammar without a depth. `Construct.readAll` reads a construct as deep as its tokens ask for,
and `Parse.Runs` is the run of a program in which a construct met inside another one is read by its
own rule, however often. Nothing bounds a derivation of `Runs`, so that every program has one is the
end of every reading; `runs_iff` says that the readings to a depth come to the same.
-/

namespace SharpRefactor
namespace Construct

/-- Reads a construct as deep as it goes. -/
def readAll (c : Construct) (s : ParseState) : ParseState := c.read (c.weight s + 1) s

theorem read_eq_readAll {d : Nat} {c : Construct} {s : ParseState} (h : c.weight s < d) :
    c.read d s = c.readAll s :=
  read_deeper h (Nat.lt_succ_self _)

theorem readAll_reads (bound : Nat) : Parse.Reads readAll bound := by
  have below := reads bound bound (Nat.le_refl _)
  constructor
  · intro c s
    exact read_left_le _ c s
  · intro c s light begins
    rw [← read_eq_readAll light]
    exact below.moves c s light begins

/-- To read a construct is to follow its rule. -/
theorem readAll_eq (c : Construct) (s : ParseState) : c.readAll s = (c.rule.run readAll s).2 := by
  have agree : ∀ (c' : Construct) (s' : ParseState), c'.weight s' < c.weight s →
      c'.read (c.weight s) s' = c'.readAll s' := fun c' s' light => read_eq_readAll light
  have fits := rule_fits (reads (c.weight s) (c.weight s) (Nat.le_refl _))
  rw [readAll, read, Parse.run_congr agree c.rule s fits]

end Construct

namespace Parse

inductive Runs : {α : Type} → Parse α → ParseState → α → ParseState → Prop where
  | done {α : Type} (a : α) (s : ParseState) : Runs (.done a) s a s
  | andThen {α β : Type} {p : Parse α} {f : α → Parse β} {s s' s'' : ParseState} {a : α} {b : β} :
      Runs p s a s' → Runs (f a) s' b s'' → Runs (.andThen p f) s b s''
  | current (s : ParseState) : Runs .current s s.trivia.front s.trivia
  | nth? (n : Nat) (s : ParseState) : Runs (.nth? n) s (Lookahead.nth? n s.tokens) s
  | ahead (question : Lookahead.Question) (s : ParseState) :
      Runs (.ahead question) s (question.ask s.tokens) s
  | bump (s : ParseState) : Runs .bump s () s.trivia.takeOne
  | skip (p : Kind → Bool) (s : ParseState) :
      Runs (.skip p) s () (s.takeWhile fun k => k.isTrivia || p k)
  | fail (e : SyntaxError) (s : ParseState) : Runs (.fail e) s () (s.trivia.object e)
  | group {α : Type} {p : Parse α} {s s' : ParseState} {a : α} :
      Runs p s.trivia.opened a s' → Runs (.group p) s a (s'.closed s.trivia.level)
  | wrap {α : Type} {p : Parse α} {s s' : ParseState} {a : α} (k : Kind) :
      Runs p s a s' → Runs (.wrap k p) s a (s'.wrapped k)
  | inner {c : Construct} {s s' : ParseState} : Runs c.rule s () s' → Runs (.inner c) s () s'

variable {α : Type} {p : Parse α} {s s' : ParseState} {a : α}

theorem Runs.run_eq (h : Runs p s a s') : p.run Construct.readAll s = (a, s') := by
  induction h with
  | andThen _ _ ihp ihf => simp only [run, ihp, ihf]
  | group _ ih => simp only [run, ih]
  | wrap k _ ih => simp only [run, ih]
  | inner _ ih => rw [run, Construct.readAll_eq, ih]
  | _ => rfl

/-- A program runs if the constructs that it meets do. -/
theorem runs_of_fits {bound : Nat}
    (inside : ∀ c s, c.weight s < bound → Runs (inner c) s () (c.readAll s)) (p : Parse α)
    (s : ParseState) (fits : p.Fits Construct.readAll bound s) :
    Runs p s (p.run Construct.readAll s).1 (p.run Construct.readAll s).2 := by
  induction p generalizing s with
  | done a => exact .done a s
  | andThen p f ihp ihf => exact .andThen (ihp s fits.1) (ihf _ _ fits.2)
  | current => exact .current s
  | nth? n => exact .nth? n s
  | ahead question => exact .ahead question s
  | bump => exact .bump s
  | skip p => exact .skip p s
  | fail e => exact .fail e s
  | group p ih => exact .group (ih _ fits)
  | wrap k p ih => exact .wrap k (ih _ fits)
  | inner c => exact inside c s fits

theorem runs_inner (c : Construct) (s : ParseState) : Runs (inner c) s () (c.readAll s) := by
  induction h : c.weight s using Nat.strongRecOn generalizing c s with
  | ind weight ih =>
      have inside : ∀ c' s', c'.weight s' < c.weight s → Runs (inner c') s' () (c'.readAll s') :=
        fun c' s' light => ih _ (h ▸ light) c' s' rfl
      have fits := Construct.rule_fits (Construct.readAll_reads (c.weight s))
      rw [Construct.readAll_eq]
      exact .inner (runs_of_fits inside c.rule s fits)

/-- Every program comes to an end. -/
theorem runs_run (p : Parse α) (s : ParseState) :
    Runs p s (p.run Construct.readAll s).1 (p.run Construct.readAll s).2 := by
  have fits : p.Fits Construct.readAll (32 * (s.left + 1)) s :=
    fits_of_left (Construct.readAll_reads 0).falls p (Nat.le_refl _)
  exact runs_of_fits (fun c s _ => runs_inner c s) p s fits

theorem runs_iff : Runs p s a s' ↔ p.run Construct.readAll s = (a, s') := by
  constructor
  · exact Runs.run_eq
  · intro h
    have runs := runs_run p s
    rwa [h] at runs

def file : Parse Unit := do
  let _ ← current
  inner (.namespaceBody false)
  let _ ← current

/-- The parser's own reading of a file is the unbounded one. -/
theorem runs_file (ts : List Token) : Runs file (ParseState.start ts) () (readFile ts) := by
  have light : (Construct.namespaceBody false).weight (ParseState.start ts).trivia <
      nestingBound ts := by
    have few : (ParseState.start ts).trivia.left = Lookahead.significant ts :=
      ParseState.left_trivia _
    have := (Construct.namespaceBody false).weight_lt (ParseState.start ts).trivia
    rwa [few] at this
  refine runs_iff.mpr ?_
  simp only [file, run_bind, run_current, run_inner, run_pure, readFile,
    Construct.read_eq_readAll light]

end Parse
end SharpRefactor
