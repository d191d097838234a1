import Mathlib.Logic.Relation
import Mathlib.Order.WellFounded
import SharpRefactor.Proofs.Parsing.Trivia
import SharpRefactor.Proofs.Parsing.Unbounded

/-!
Reading makes progress. An activation is a program together with the state it was started in, and
`Begins` relates it to the activations that are started while it is open. No chain of activations is
endless, and a function of the grammar that is entered again while it is open has fewer tokens
before it than it had the first time. A loop, over the members of a namespace or a type, accessors,
statements, declarators, parameters, arguments, type arguments, base types, operators or suffixes,
is a construct that ends by reading itself, so its next round is one of these cases.
-/

namespace SharpRefactor

open Relation

structure Activation where
  {result : Type}
  program : Parse result
  state : ParseState

/-- An activation begins another one at first hand, and is open while the other one runs. -/
def Begins : Activation → Activation → Prop
  | ⟨.andThen p f, s⟩, b => b = ⟨p, s⟩ ∨ ∃ a s', p.Runs s a s' ∧ b = ⟨f a, s'⟩
  | ⟨.group p, s⟩, b => b = ⟨p, s.trivia.opened⟩
  | ⟨.wrap _ p, s⟩, b => b = ⟨p, s⟩
  | ⟨.inner c, s⟩, b => b = ⟨c.rule, s⟩
  | _, _ => False

/-- Two programs are one function with other arguments, if they differ in the kinds of the nodes
they build and in the wording of their objections only, as those for a class and for a structure
do. -/
def Parse.Alike : {α : Type} → Parse α → Parse α → Prop
  | _, andThen p f, q => ∃ p' f', q = andThen p' f' ∧ p.Alike p' ∧ ∀ a, (f a).Alike (f' a)
  | _, group p, q => ∃ p', q = group p' ∧ p.Alike p'
  | _, wrap _ p, q => ∃ k' p', q = wrap k' p' ∧ p.Alike p'
  | _, fail _, q => ∃ e', q = fail e'
  | _, p, q => q = p

def Construct.plain : Construct → Construct
  | .namespaceBody _ => .namespaceBody false
  | .namespaceMembers _ => .namespaceMembers false
  | .expression _ => .expression 0
  | .operators _ => .operators 0
  | c => c

theorem Construct.rank_plain (front : Kind) (c : Construct) : c.plain.rank front = c.rank front := by
  cases c <;> rfl

namespace Parse

theorem Alike.refl {α : Type} (p : Parse α) : p.Alike p := by
  induction p with
  | andThen p f ihp ihf => exact ⟨p, f, rfl, ihp, ihf⟩
  | group p ih => exact ⟨p, rfl, ih⟩
  | wrap k p ih => exact ⟨k, p, rfl, ih⟩
  | fail e => exact ⟨e, rfl⟩
  | _ => rfl

theorem fits_mono {read : Construct → ParseState → ParseState} {bound bound' : Nat}
    (le : bound ≤ bound') {α : Type} (p : Parse α) (s : ParseState) (fits : p.Fits read bound s) :
    p.Fits read bound' s := by
  induction p generalizing s with
  | andThen p f ihp ihf => exact ⟨ihp s fits.1, ihf _ _ fits.2⟩
  | group p ih => exact ih _ fits
  | wrap k p ih => exact ih _ fits
  | inner c => exact Nat.lt_of_lt_of_le fits le
  | _ => trivial

/-- A run takes its tokens from the front. -/
theorem Runs.tokens_suffix {α : Type} {p : Parse α} {s s' : ParseState} {a : α}
    (h : Runs p s a s') : s'.tokens <:+ s.tokens := by
  induction h with
  | andThen _ _ ihp ihf => exact ihf.trans ihp
  | bump s =>
      have past : s.trivia.tokens <:+ s.tokens := List.dropWhile_suffix _
      rw [ParseState.takeOne]
      split
      · exact past
      · next h => exact (List.suffix_cons _ _).trans (h ▸ past)
  | group _ ih => exact ih.trans (List.dropWhile_suffix _)
  | wrap k _ ih => exact ih
  | inner _ ih => exact ih
  | current s => exact List.dropWhile_suffix _
  | skip p s => exact List.dropWhile_suffix _
  | fail e s => exact List.dropWhile_suffix _
  | _ => exact List.suffix_rfl

end Parse

/-- The tokens that matter are the same. -/
theorem bareTokens_of_suffix {us ts : List Token} (h : us <:+ ts)
    (same : Lookahead.significant us = Lookahead.significant ts) : bareTokens us = bareTokens ts := by
  have part : bareTokens us <:+ bareTokens ts := h.filter _
  refine part.eq_of_length ?_
  simpa only [bareTokens, Lookahead.significant, List.countP_eq_length_filter] using same

theorem bareTokens_trivia (s : ParseState) : bareTokens s.trivia.tokens = bareTokens s.tokens :=
  bareTokens_of_suffix (List.dropWhile_suffix _) s.left_trivia

theorem bareTokens_bump (s : ParseState) :
    bareTokens s.trivia.takeOne.tokens = (bareTokens s.tokens).tail := by
  have taken := congrArg BareState.tokens s.bare_bump
  simp only [ParseState.bare, BareState.takeOne] at taken
  rw [taken]
  cases bareTokens s.tokens <;> rfl

section SameTokens

variable {s t : ParseState} (same : bareTokens s.tokens = bareTokens t.tokens)

include same

theorem upcoming_congr : s.upcoming = t.upcoming := by
  rw [ParseState.upcoming, ParseState.upcoming, ← Lookahead.nextKind_bare, same,
    Lookahead.nextKind_bare]

theorem left_congr : s.left = t.left := by
  rw [ParseState.left, ParseState.left, ← Lookahead.significant_bare, same,
    Lookahead.significant_bare]

end SameTokens

namespace Parse

/-- The same function on the same significant tokens goes the same way. -/
theorem Runs.alike {α : Type} {p q : Parse α} {s s' t : ParseState} {a : α} (h : Runs p s a s')
    (like : Alike p q) (same : bareTokens s.tokens = bareTokens t.tokens) :
    ∃ t', Runs q t a t' ∧ bareTokens s'.tokens = bareTokens t'.tokens := by
  induction h generalizing t with
  | done a s =>
      cases like
      exact ⟨t, .done a t, same⟩
  | andThen _ _ ihp ihf =>
      obtain ⟨p', f', rfl, first, second⟩ := like
      obtain ⟨t', runs, same⟩ := ihp first same
      obtain ⟨t'', runs', same⟩ := ihf (second _) same
      exact ⟨t'', .andThen runs runs', same⟩
  | current s =>
      cases like
      have front : s.trivia.front = t.trivia.front := by
        rw [ParseState.front_trivia, ParseState.front_trivia, upcoming_congr same]
      refine ⟨t.trivia, front ▸ .current t, ?_⟩
      rw [bareTokens_trivia, bareTokens_trivia, same]
  | nth? n s =>
      cases like
      have ahead : Lookahead.nth? n s.tokens = Lookahead.nth? n t.tokens := by
        rw [← Lookahead.nth?_bare, same, Lookahead.nth?_bare]
      exact ⟨t, ahead ▸ .nth? n t, same⟩
  | ahead question s =>
      cases like
      have answer : question.ask s.tokens = question.ask t.tokens := by
        rw [← Lookahead.ask_bare, same, Lookahead.ask_bare]
      exact ⟨t, answer ▸ .ahead question t, same⟩
  | bump s =>
      cases like
      exact ⟨_, .bump t, by rw [bareTokens_bump, bareTokens_bump, same]⟩
  | skip p s =>
      cases like
      refine ⟨_, .skip p t, ?_⟩
      simp only [ParseState.takeWhile, dropWhile_bareTokens, same]
  | fail e s =>
      obtain ⟨e', rfl⟩ := like
      refine ⟨_, .fail e' t, ?_⟩
      simpa only [ParseState.object_tokens, bareTokens_trivia] using same
  | @group _ _ s _ _ _ ih =>
      obtain ⟨p', rfl, inside⟩ := like
      have opened : bareTokens s.trivia.opened.tokens = bareTokens t.trivia.opened.tokens := by
        simpa only [ParseState.opened_tokens, bareTokens_trivia] using same
      obtain ⟨t', runs, same⟩ := ih inside opened
      exact ⟨_, .group runs, same⟩
  | wrap k _ ih =>
      obtain ⟨k', p', rfl, inside⟩ := like
      obtain ⟨t', runs, same⟩ := ih inside same
      exact ⟨_, .wrap k' runs, same⟩
  | inner _ ih =>
      cases like
      obtain ⟨t', runs, same⟩ := ih (Alike.refl _) same
      exact ⟨t', .inner runs, same⟩

end Parse

namespace Activation

def Fits (bound : Nat) (a : Activation) : Prop :=
  a.program.Fits Construct.readAll bound a.state

/-- One function, with other arguments perhaps, before the same significant tokens. -/
inductive Repeats : Activation → Activation → Prop where
  | alike {α : Type} {p q : Parse α} {s t : ParseState} :
      p.Alike q → bareTokens s.tokens = bareTokens t.tokens → Repeats ⟨p, s⟩ ⟨q, t⟩

end Activation

namespace Begins

variable {a b : Activation}

theorem tokens_suffix (h : Begins a b) : b.state.tokens <:+ a.state.tokens := by
  obtain ⟨program, s⟩ := a
  cases program with
  | andThen p f =>
      rcases h with rfl | ⟨v, s', runs, rfl⟩
      · exact List.suffix_rfl
      · exact runs.tokens_suffix
  | group p =>
      cases h
      exact List.dropWhile_suffix _
  | wrap k p =>
      cases h
      exact List.suffix_rfl
  | inner c =>
      cases h
      exact List.suffix_rfl
  | _ => exact h.elim

theorem fits {bound : Nat} (h : Begins a b) (light : a.Fits bound) : b.Fits bound := by
  obtain ⟨program, s⟩ := a
  cases program with
  | andThen p f =>
      rcases h with rfl | ⟨v, s', runs, rfl⟩
      · exact light.1
      · have rest := light.2
        rwa [runs.run_eq] at rest
  | group p =>
      cases h
      exact light
  | wrap k p =>
      cases h
      exact light
  | inner c =>
      cases h
      have fits := Construct.rule_fits (Construct.readAll_reads (c.weight s))
      exact Parse.fits_mono (Nat.le_of_lt light) _ s fits
  | _ => exact h.elim

/-- What an activation begins, one that repeats it begins as well. -/
theorem repeats {a' : Activation} (h : Begins a b) (again : a.Repeats a') :
    ∃ b', Begins a' b' ∧ b.Repeats b' := by
  cases again with
  | @alike _ program q s t like same =>
      cases program with
      | andThen p f =>
          obtain ⟨p', f', rfl, first, second⟩ := like
          rcases h with rfl | ⟨v, s', runs, rfl⟩
          · exact ⟨_, .inl rfl, .alike first same⟩
          · obtain ⟨t', runs', same⟩ := runs.alike first same
            exact ⟨_, .inr ⟨v, t', runs', rfl⟩, .alike (second v) same⟩
      | group p =>
          obtain ⟨p', rfl, inside⟩ := like
          cases h
          refine ⟨_, rfl, .alike inside ?_⟩
          simpa only [ParseState.opened_tokens, bareTokens_trivia] using same
      | wrap k p =>
          obtain ⟨k', p', rfl, inside⟩ := like
          cases h
          exact ⟨_, rfl, .alike inside same⟩
      | inner c =>
          cases like
          cases h
          exact ⟨_, rfl, .alike (Parse.Alike.refl _) same⟩
      | _ => exact h.elim

end Begins

section Chains

variable {a b : Activation}

theorem tokens_suffix_of_open (h : TransGen Begins a b) : b.state.tokens <:+ a.state.tokens := by
  induction h with
  | single step => exact step.tokens_suffix
  | tail _ step ih => exact step.tokens_suffix.trans ih

theorem fits_of_open {bound : Nat} (h : ReflTransGen Begins a b) (light : a.Fits bound) :
    b.Fits bound := by
  induction h with
  | refl => exact light
  | tail _ step ih => exact step.fits ih

theorem repeats_of_open {a' : Activation} (h : TransGen Begins a b) (again : a.Repeats a') :
    ∃ b', TransGen Begins a' b' ∧ b.Repeats b' := by
  induction h with
  | single step =>
      obtain ⟨b', step', again⟩ := step.repeats again
      exact ⟨b', .single step', again⟩
  | tail _ step ih =>
      obtain ⟨b', chain, again⟩ := ih
      obtain ⟨c', step', again⟩ := step.repeats again
      exact ⟨c', .tail chain step', again⟩

/-- A construct met while another one is read is lighter than it. -/
theorem weight_lt_of_open {c d : Construct} {s t : ParseState}
    (h : TransGen Begins ⟨.inner c, s⟩ ⟨.inner d, t⟩) : d.weight t < c.weight s := by
  have rule : Activation.Fits (c.weight s) ⟨c.rule, s⟩ :=
    Construct.rule_fits (Construct.readAll_reads (c.weight s))
  obtain ⟨_, ⟨⟩, rest⟩ := TransGen.head'_iff.mp h
  exact fits_of_open rest rule

/-- An activation that keeps its constructs below a bound has no endless chain of others inside. -/
theorem acc_of_fits {bound : Nat} {α : Type} (p : Parse α) (s : ParseState)
    (fits : p.Fits Construct.readAll bound s) : Acc (fun b a => Begins a b) ⟨p, s⟩ := by
  induction bound using Nat.strongRecOn generalizing α p s with
  | ind bound lighter =>
      induction p generalizing s with
      | andThen p f ihp ihf =>
          refine Acc.intro _ fun b step => ?_
          rcases step with rfl | ⟨v, s', runs, rfl⟩
          · exact ihp s fits.1
          · have rest := fits.2
            rw [runs.run_eq] at rest
            exact ihf _ _ rest
      | group p ih =>
          refine Acc.intro _ fun b step => ?_
          cases step
          exact ih _ fits
      | wrap k p ih =>
          refine Acc.intro _ fun b step => ?_
          cases step
          exact ih _ fits
      | inner c =>
          refine Acc.intro _ fun b step => ?_
          cases step
          exact lighter (c.weight s) fits c.rule s
            (Construct.rule_fits (Construct.readAll_reads (c.weight s)))
      | _ => exact Acc.intro _ fun b step => step.elim

theorem begins_wellFounded : WellFounded fun b a => Begins a b :=
  ⟨fun a => acc_of_fits a.program a.state
    (Parse.fits_of_left (Construct.readAll_reads 0).falls a.program (Nat.le_refl _))⟩

/-- Nothing is open twice in one function before the same tokens: it would be open without end. -/
theorem not_repeats_of_open (h : TransGen Begins a b) : ¬ a.Repeats b := by
  induction a using begins_wellFounded.transGen.induction generalizing b with
  | h a ih =>
      intro again
      obtain ⟨b', chain, again'⟩ := repeats_of_open h again
      exact ih b (transGen_swap.mpr h) chain again'

end Chains

/-- A chain of activations that takes no significant token has the same ones before it at its
end. -/
theorem left_lt_of_open {a b : Activation} (h : TransGen Begins a b)
    (differ : bareTokens a.state.tokens ≠ bareTokens b.state.tokens) :
    b.state.left < a.state.left := by
  have suffix := tokens_suffix_of_open h
  have le : b.state.left ≤ a.state.left := suffix.sublist.countP_le
  refine Nat.lt_of_le_of_ne le fun same => differ ?_
  exact (bareTokens_of_suffix suffix same).symm

/-- A construct, a loop among them, is not read again before tokens have been taken, whatever its
argument. -/
theorem construct_left_lt {c d : Construct} {s t : ParseState} (same : c.plain = d.plain)
    (h : TransGen Begins ⟨.inner c, s⟩ ⟨.inner d, t⟩) : t.left < s.left := by
  refine left_lt_of_open h fun bare => ?_
  have lighter := weight_lt_of_open h
  rw [Construct.weight, Construct.weight, left_congr bare, upcoming_congr bare, ← d.rank_plain,
    ← c.rank_plain, same] at lighter
  exact Nat.lt_irrefl _ lighter

/-- The parser makes progress over every sequence of tokens. A construct that is read while it is
being read, as a loop is for its next round, and any other function that is entered while it is open
have lost tokens in between, a significant one among them; no activation has an endless chain of
others inside it, every program comes to one result, and a file is read to its last token. -/
theorem reading_progresses :
    (∀ {c d : Construct} {s t : ParseState}, c.plain = d.plain →
      TransGen Begins ⟨.inner c, s⟩ ⟨.inner d, t⟩ → t.tokens <:+ s.tokens ∧ t.left < s.left) ∧
    (∀ {α : Type} {p q : Parse α} {s t : ParseState}, p.Alike q →
      TransGen Begins ⟨p, s⟩ ⟨q, t⟩ → t.tokens <:+ s.tokens ∧ t.left < s.left) ∧
    (WellFounded fun b a => Begins a b) ∧
    (∀ {α : Type} (p : Parse α) (s : ParseState), ∃! r : α × ParseState, p.Runs s r.1 r.2) ∧
    ∀ ts : List Token, Parse.file.Runs (ParseState.start ts) () (readFile ts) ∧
      ((∀ t ∈ ts, t.kind ≠ .eof) → (readFile ts).tokens = []) := by
  refine ⟨?constructs, ?functions, begins_wellFounded, ?results, ?files⟩
  case constructs =>
    intro c d s t same chain
    exact ⟨tokens_suffix_of_open chain, construct_left_lt same chain⟩
  case functions =>
    intro α p q s t like chain
    refine ⟨tokens_suffix_of_open chain, left_lt_of_open chain fun same => ?_⟩
    exact not_repeats_of_open chain (.alike like same)
  case results =>
    intro α p s
    refine ⟨p.run Construct.readAll s, Parse.runs_run p s, ?_⟩
    rintro ⟨a, s'⟩ runs
    exact (Parse.Runs.run_eq runs).symm
  case files =>
    intro ts
    exact ⟨Parse.runs_file ts, readFile_tokens⟩

/-- A sign opens an operand. -/
theorem prefixed_of_unary {s : ParseState} (sign : Parse.isSign s.upcoming) :
    TransGen Begins ⟨.inner .unary, s⟩ ⟨Parse.prefixed, s.trivia.opened.trivia⟩ := by
  have head : Begins ⟨.inner .unary, s⟩ ⟨Parse.unary, s⟩ := rfl
  refine .tail (.tail (.single head) rfl) (.inr ⟨s.upcoming, s.trivia.opened.trivia, ?_, ?_⟩)
  · refine Parse.runs_iff.mpr ?_
    simp
  · simp only [sign, if_true]

/-- The operand after a sign is read past the sign. -/
theorem unary_of_prefixed (s : ParseState) :
    TransGen Begins ⟨Parse.prefixed, s⟩ ⟨.inner .unary, s.trivia.opened.trivia.takeOne⟩ :=
  .tail (.tail (.single rfl) rfl) (.inr ⟨(), _, .bump _, rfl⟩)

/-- The second of two signs opens an operand while that of the first one is open. -/
theorem reading_progresses_signs :
    let ts : List Token := [⟨.minus, "-"⟩, ⟨.minus, "-"⟩, ⟨.identifier, "a"⟩]
    let s := ParseState.start ts
    let first := s.trivia.opened.trivia
    let t := first.trivia.opened.trivia.takeOne
    let second := t.trivia.opened.trivia
    (TransGen Begins ⟨.inner .unary, s⟩ ⟨.inner .unary, t⟩ ∧ t.left < s.left) ∧
    (TransGen Begins ⟨Parse.prefixed, first⟩ ⟨Parse.prefixed, second⟩ ∧ second.left < first.left) ∧
    (∀ t ∈ ts, t.kind ≠ .eof) ∧ (readFile ts).tokens = [] := by
  intro ts s first t second
  have operand : TransGen Begins ⟨.inner .unary, s⟩ ⟨.inner .unary, t⟩ :=
    (prefixed_of_unary rfl).trans (unary_of_prefixed first)
  have sign : TransGen Begins ⟨Parse.prefixed, first⟩ ⟨Parse.prefixed, second⟩ :=
    (unary_of_prefixed first).trans (prefixed_of_unary rfl)
  have real : ∀ t ∈ ts, t.kind ≠ .eof := by decide
  obtain ⟨constructs, functions, _, _, files⟩ := reading_progresses
  exact ⟨⟨operand, (constructs rfl operand).2⟩,
    ⟨sign, (functions (Parse.Alike.refl _) sign).2⟩, real, (files ts).2 real⟩

end SharpRefactor
