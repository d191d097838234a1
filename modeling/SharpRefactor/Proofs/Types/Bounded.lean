import SharpRefactor.Proofs.Types.Bounded.Meanings
import SharpRefactor.Proofs.Types.Bounded.Targets

/-!
The bound on the steps of a judge. What an answer is made of only gets lost when the steps run out,
and the answer with it. But there is also what is tried and passed over: the initial value of a
local, the delegate around an untyped parameter, the other arguments of a call, the right operand of
a sum. If that gets lost the search goes on, and the next find may be another one. So fewer steps
give no other answer as long as they do not take away an answer to something that is tried.
-/

namespace SharpRefactor
namespace Table

variable {t : Table}

/-- With more steps a judge repeats its answer, unless they find something that was tried in
vain. -/
theorem judge_extended {more steps : Nat} {q : Query} (settled : q.isSettled t more steps) :
    (t.judge steps).Extended (t.judge (steps + more)) q := by
  induction steps generalizing q with
  | zero =>
      cases q with
      | meaning n => exact fun d found => nomatch found
      | target n => exact fun type found => nomatch found
  | succ steps ih =>
      simp only [Query.isSettled, Bool.and_eq_true, List.all_eq_true, Bool.or_eq_true,
        Bool.not_eq_true'] at settled
      obtain ⟨known, below⟩ := settled
      have needed : ∀ q' ∈ q.needs, (t.judge steps).Extended (t.judge (steps + more)) q' :=
        fun q' need => ih (below q' (List.mem_append_left _ need))
      have tried : ∀ q' ∈ q.tries t, (t.judge steps).Same (t.judge (steps + more)) q' := by
        intro q' member
        refine (ih (below q' (List.mem_append_right _ member))).same fun later => ?_
        rcases known q' member with never | now
        · rw [never] at later
          cases later
        · exact now
      rw [Nat.succ_add_eq_add_succ]
      cases q with
      | meaning n => exact fun d => denotesWith_extended needed tried
      | target n => exact fun type => targetWith_extended needed tried

/-- What a node denotes with fewer steps it denotes with more, wherever the further steps find
nothing of what was tried in vain. -/
theorem judge_denotes_of_isSettled (t : Table) (n : Node) (steps more : Nat) (d : Denotation)
    (settled : (Query.meaning n).isSettled t more steps)
    (found : (t.judge steps).denotes n = some d) : (t.judge (steps + more)).denotes n = some d :=
  judge_extended settled d found

/-- A local declared with `var` that hides a field, read two steps above its initial value. -/
theorem judge_denotes_of_isSettled_var :
    let root := Node.root (parse "class C\x7bstring x;void M()\x7bvar x=1;N((x));\x7d\x7d").root
    let n := (root.atOffset 37).parent?.getD root
    let t := ofRoot root
    let int : Denotation := .value (.system "Int32")
    n.kind = .parenthesizedExpression ∧ (Query.meaning n).isSettled t 46 3 ∧
      (t.judge 3).denotes n = some int ∧ t.denotes n = some int := by
  intro root n t int
  have known : n.kind = .parenthesizedExpression ∧ (Query.meaning n).isSettled t 46 3 ∧
      (t.judge 3).valueType n = some (.system "Int32") := by
    decide +kernel
  obtain ⟨kind, settled, typed⟩ := known
  have found := Judge.valueType_eq_some_iff.mp typed
  exact ⟨kind, settled, found, judge_denotes_of_isSettled t n 3 46 int settled found⟩

/-- So many parentheses that the steps run out at the initial value: the name means the field
again. -/
theorem judge_denotes_hidden_field :
    let text := "class C\x7bstring x;void M()\x7bvar x=1;N(" ++ "".pushn '(' 48 ++ "x" ++
      "".pushn ')' 48 ++ ");\x7d\x7d"
    let root := Node.root (parse text).root
    let n := root.atOffset 84
    let around := (n.ancestors[48]?).getD root
    let t := ofRoot root
    (parse text).errors = [] ∧ n.text = "x" ∧ around.kind = .parenthesizedExpression ∧
      (t.judge 1).denotes n = some (.value .string) ∧
      (t.judge maxDepth).denotes n = some (.value (.system "Int32")) ∧
      t.typeOf? around = some .string ∧ t.typeOf? n = some (.system "Int32") := by
  intro text root n around t
  have known : (parse text).errors = [] ∧ n.text = "x" ∧ around.kind = .parenthesizedExpression ∧
      (t.judge 1).valueType n = some .string ∧
      (t.judge maxDepth).valueType n = some (.system "Int32") ∧
      t.typeOf? around = some .string ∧ t.typeOf? n = some (.system "Int32") := by
    decide +kernel
  obtain ⟨free, name, kind, few, many, outer, inner⟩ := known
  exact ⟨free, name, kind, Judge.valueType_eq_some_iff.mp few, Judge.valueType_eq_some_iff.mp many,
    outer, inner⟩

end Table
end SharpRefactor
