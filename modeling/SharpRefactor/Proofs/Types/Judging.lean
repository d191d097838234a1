import SharpRefactor.Proofs.Types.Judging.Conversions

/-!
Types after an expression has given way to a function without a name. The nodes that are left denote
what they denoted and are asked for what they were asked for in the old tree, had the expression
been such a function there. So the new function has the type that its surroundings ask of a
function.
-/

namespace SharpRefactor
namespace Table

/-- The answers if a node were a function without a name, whatever stands there. -/
def judgeAs (t : Table) (node : Node) : Nat → Judge
  | 0 => ⟨fun _ => none, fun _ => none⟩
  | depth + 1 =>
    ⟨fun n => if n = node then some .function else t.denotesWith (t.judgeAs node depth) n,
      t.targetWith (t.judgeAs node depth)⟩

/-- The type that the surroundings of a node ask of a function without a name in its place. -/
def asked (t : Table) (node : Node) : Option Ty := (t.judgeAs node maxDepth).target node

end Table

/-- The new tree is judged like the old one with a function in the place of the exchanged node. -/
theorem Exchange.ForFunction.agree_judge {x : Exchange} (h : x.ForFunction) (t : Table)
    (depth : Nat) : x.Agree (t.judgeAs x.node depth) (t.judge depth) := by
  induction depth with
  | zero => exact ⟨fun _ => rfl, fun _ => rfl⟩
  | succ depth ih =>
      refine ⟨fun {n n'} pair => ?_, fun pair => h.targetWith_eq t ih pair⟩
      rcases pair.keeps_or_eq with kept | rfl
      · simp only [Table.judgeAs, if_neg kept.ne_node]
        exact h.denotesWith_eq t ih kept
      · have function : n'.kind = .anonymousMethodExpression := pair.kind_new.trans h.new
        simp [Table.judgeAs, Table.judge, Table.denotesWith, function]

namespace Table

/-- Where nothing may be asked of an expression, nothing is asked of it. -/
theorem targetWith_of_silent (t : Table) (j : Judge) {n p : Node} (up : n.parent? = some p)
    (silent : p.kind.asks = false) : t.targetWith j n = none := by
  obtain ⟨place, - | ⟨q, above⟩⟩ := n
  · cases up
  · cases up
    have alone : Node.unparenthesize place (q :: above) = ⟨place, q :: above⟩ := by
      have outside : q.kind ≠ .parenthesizedExpression := fun kind => by
        rw [show (⟨q, above⟩ : Node).kind = q.kind from rfl, kind] at silent
        cases silent
      simp [Node.unparenthesize, outside]
    rw [targetWith]
    simp only [alone, Node.parent?, Option.bind_eq_bind, Option.bind_some]
    generalize (⟨q, above⟩ : Node) = p at silent ⊢
    revert silent
    cases p.kind <;> intro silent <;> first | rfl | cases silent

theorem denotes_of_function (t : Table) {n : Node} (function : n.kind = .anonymousMethodExpression) :
    t.denotes n = some .function := by
  obtain ⟨depth, deep⟩ : ∃ depth, maxDepth = depth + 1 := ⟨48, rfl⟩
  rw [denotes, deep]
  change t.denotesWith (t.judge depth) n = _
  rw [denotesWith, function]

theorem target_of_silent (t : Table) {n p : Node} (up : n.parent? = some p)
    (silent : p.kind.asks = false) : t.target n = none := by
  rw [target]
  cases maxDepth with
  | zero => rfl
  | succ depth => exact t.targetWith_of_silent (t.judge depth) up silent

theorem asked_of_silent (t : Table) {n p : Node} (up : n.parent? = some p)
    (silent : p.kind.asks = false) : t.asked n = none := by
  rw [asked]
  cases maxDepth with
  | zero => rfl
  | succ depth => exact t.targetWith_of_silent (t.judgeAs n depth) up silent

end Table

/-- The function that has taken the place of an expression has the type that the surroundings of the
expression ask of a function there. -/
theorem Exchange.ToFunction.typeOf?_eq {x : Exchange} (h : x.ToFunction) {n' : Node}
    (pair : x.Pairs x.node n') :
    (Table.ofRoot (Node.root x.result)).typeOf? n' =
      ((Table.ofRoot (Node.root x.tree)).asked x.node).filter
        ((Table.ofRoot (Node.root x.tree)).converts .function) := by
  have function : n'.kind = .anonymousMethodExpression := pair.kind_new.trans h.new
  have own (t : Table) : t.typeOf? n' = (t.target n').filter (t.converts .function) := by
    have alone : n'.memberAccessOfName? = none := by simp [Node.memberAccessOfName?, function]
    simp only [Table.typeOf?, alone, Option.getD_none, t.denotes_of_function function]
  rw [own]
  by_cases asked : ∀ p, x.node.parent? = some p → p.kind.asks
  · have h : x.ForFunction := { h with asked }
    rw [h.ofRoot_eq, Table.target, (h.agree_judge _ _).target pair, Table.asked]
  · simp only [not_forall, Bool.not_eq_true] at asked
    obtain ⟨p, up, silent⟩ := asked
    have around := pair.parent?
    rw [up] at around
    generalize up' : n'.parent? = p' at around
    cases around with
    | some kept =>
        have new := Table.target_of_silent (Table.ofRoot (Node.root x.result)) up'
          (by rw [kept.kind_eq]; exact silent)
        have old := Table.asked_of_silent (Table.ofRoot (Node.root x.tree)) up silent
        rw [new, old, Option.filter_none, Option.filter_none]

end SharpRefactor
