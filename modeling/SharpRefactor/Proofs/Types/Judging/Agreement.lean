import SharpRefactor.Proofs.Types.Declarations
import SharpRefactor.Types.Evaluate

/-!
Judges that agree on the nodes that an exchange leaves, and what these nodes look like to them: their
tokens, their order, the parts of functions among them and the declarations around them.
-/

namespace SharpRefactor
namespace Exchange

structure Agree (x : Exchange) (j j' : Judge) : Prop where
  denotes : ∀ {n n' : Node}, x.Pairs n n' → j'.denotes n' = j.denotes n
  target : ∀ {n n' : Node}, x.Pairs n n' → j'.target n' = j.target n

variable {x : Exchange} {j j' : Judge} {n n' : Node}

theorem Agree.valueType (agree : x.Agree j j') (pair : x.Pairs n n') :
    j'.valueType n' = j.valueType n := by
  rw [Judge.valueType, Judge.valueType, agree.denotes pair]

namespace Keeps

variable (kept : x.Keeps n n')

include kept

theorem firstChild? : Option.Rel x.Pairs n.firstChild? n'.firstChild? := kept.children.head?

theorem secondChild? : Option.Rel x.Pairs n.secondChild? n'.secondChild? := kept.children.getElem? 1

theorem declares_eq (name : String) : n'.declares name = n.declares name := by
  rw [Node.declares, Node.declares, kept.sameTokens.declaredWord?_eq]

theorem sign?_eq : n'.sign? = n.sign? :=
  (kept.sameTokens.tokenWhere? (!·.isTrivia)).map_eq fun _ _ same => same.kind_eq

theorem isFirstChild_eq : n'.isFirstChild = n.isFirstChild :=
  (kept.pairs.parent?.bind fun _ _ own => own.firstChild?).any_eq fun _ _ pair => by
    rw [← pair.index_eq, ← kept.pairs.index_eq]

theorem isTypeSyntax_eq : n'.isTypeSyntax = n.isTypeSyntax := by
  have up := kept.pairs.parent?
  rw [Node.isTypeSyntax, Node.isTypeSyntax, kept.isFirstChild_eq]
  generalize n.parent? = p, n'.parent? = p' at up
  cases up with
  | none => rfl
  | some own => simp only [own.kind_eq]

theorem literalType_eq :
    n'.literal?.bind Node.literalTypeName? = n.literal?.bind Node.literalTypeName? :=
  (kept.sameTokens.tokenWhere? (!·.isTrivia)).bind_eq fun _ _ same => by
    rw [Node.literalTypeName?, Node.literalTypeName?, same.kind_eq, same.text_eq]

theorem accessorWord?_eq : n'.accessorWord? = n.accessorWord? := kept.sameTokens.firstIdentifier_text

end Keeps

/-- Corresponding expressions stand in corresponding parentheses. -/
theorem Pairs.unparenthesize (pair : x.Pairs n n') :
    x.Pairs (Node.unparenthesize n.place n.above) (Node.unparenthesize n'.place n'.above) := by
  obtain ⟨way, at_⟩ := pair
  induction at_ with
  | root => exact ⟨_, .root⟩
  | @child way m m' n n' i parents outside old new ih =>
      have own : x.Pairs n n' := ⟨_, .child parents outside old new⟩
      obtain ⟨t, -, -, rfl⟩ := Node.child?_eq_some.mp old
      obtain ⟨t', -, -, rfl⟩ := Node.child?_eq_some.mp new
      have kept : x.Keeps m m' := ⟨way, outside, parents⟩
      have kind : m'.place.kind = m.place.kind := kept.kind_eq
      simp only [Node.below, Node.unparenthesize, kind]
      split
      · exact ih
      · exact own

namespace ForFunction

variable (h : x.ForFunction)

include h

/-- Offsets of nodes that are left are in the order they were in. -/
theorem stop_le_start_iff {m m' : Node} (first : x.Pairs m m') (second : x.Pairs n n') :
    m'.stop ≤ n'.start ↔ m.stop ≤ n.start := by
  obtain ⟨_, first⟩ := first
  obtain ⟨_, second⟩ := second
  exact (first.shifts.2.le_iff h.real h.real' second.shifts.1).symm

theorem contains_start_eq {m m' : Node} (first : x.Pairs m m') (second : x.Pairs n n') :
    m'.range.contains n'.start = m.range.contains n.start := by
  have stop := h.stop_le_start_iff first second
  obtain ⟨_, first⟩ := first
  obtain ⟨_, second⟩ := second
  have start := first.shifts.1.le_iff h.real h.real' second.shifts.1
  rw [Bool.eq_iff_iff]
  change (decide (m'.start ≤ n'.start) && decide (n'.start < m'.stop)) = true ↔
    (decide (m.start ≤ n.start) && decide (n.start < m.stop)) = true
  simp only [Bool.and_eq_true, decide_eq_true_eq]
  omega

omit h in
theorem isSecond_eq {m m' : Node} (kept : x.Keeps m m') (pair : x.Pairs n n') :
    Table.isSecond m' n' = Table.isSecond m n :=
  kept.secondChild?.any_eq fun _ _ own => by rw [← own.index_eq, ← pair.index_eq]

/-- The parts of a function without a name. -/
theorem functionParts? (kept : x.Keeps n n') :
    Option.Rel (fun (f f' : List Node × Node) =>
      List.Forall₂ (fun m m' => x.Keeps m m' ∧ m.kind = .parameter) f.1 f'.1 ∧ x.Pairs f.2 f'.2)
      n.functionParts? n'.functionParts? := by
  rw [Node.functionParts?, Node.functionParts?, kept.kind_eq]
  split
  · exact kept.secondChild?.map fun _ _ body => ⟨(h.mirror.childOf? kept rfl).toList, body⟩
  · exact (h.mirror.childOf? kept (k := .parameterList) rfl).bind fun _ _ list =>
      kept.secondChild?.bind fun _ _ body => .some ⟨h.mirror.childrenOf list.1 rfl, body⟩
  · have parameters : List.Forall₂ (fun m m' => x.Keeps m m' ∧ m.kind = .parameter)
        ((n.parameterList?.map Node.parameters).getD [])
        ((n'.parameterList?.map Node.parameters).getD []) := by
      have lists : Option.Rel (fun m m' => x.Keeps m m' ∧ m.kind = .parameterList)
        n.parameterList? n'.parameterList? := h.mirror.childOf? kept rfl
      generalize n.parameterList? = l, n'.parameterList? = l' at lists
      cases lists with
      | none => exact .nil
      | some list => exact h.mirror.childrenOf list.1 rfl
    exact (h.mirror.childOf? kept (k := .block) rfl).map fun _ _ body => ⟨parameters, body.1.pairs⟩
  · exact .none

/-- What an accessor belongs to asks nothing of an expression. -/
theorem grandparent? (pair : x.Pairs n n') :
    Option.Rel (fun m m' => x.Keeps m m' ∧
      (n.kind = .accessorDeclaration → m.kind.asks = false)) n.grandparent? n'.grandparent? := by
  refine (h.parent? pair).bind fun list list' own => (h.parent? own.1.pairs).imp fun own' => ?_
  refine ⟨own'.1, fun accessor => ?_⟩
  obtain ⟨-, admits⟩ := own
  obtain ⟨-, admits'⟩ := own'
  rw [accessor] at admits
  rw [Kind.eq_accessorList_of_admits admits] at admits'
  rcases Kind.declares_of_admits admits' with owner | owner <;> rw [owner] <;> rfl

/-- The type in a cast is left, since no expression stands in its place. -/
theorem castType? (kept : x.Keeps n n') (cast : n.kind = .castExpression) :
    Option.Rel x.Keeps (n.firstChild?.filter (·.kind.isType))
      (n'.firstChild?.filter (·.kind.isType)) := by
  have first := kept.firstChild?
  cases old : n.firstChild? with
  | none =>
      rw [old] at first
      generalize n'.firstChild? = c' at first
      cases first
      exact .none
  | some c =>
      rw [old] at first
      generalize n'.firstChild? = c' at first
      cases first with
      | some pair =>
        rcases pair.keeps_or_eq with own | rfl
        · rw [Option.filter_some, Option.filter_some, own.kind_eq]
          split
          · exact .some own
          · exact .none
        · have new : (x.graft.kind).isType = false := h.new_eq rfl
          have access : x.node.kind.isType = false := by
            rcases h.old with name | access
            · have up : x.node.parent? = some n :=
                Node.parent?_of_mem_children (List.mem_of_head? old)
              have typed : x.node.isTypeSyntax = true := by
                simp [Node.isTypeSyntax, Node.isFirstChild, up, cast, old]
              rw [h.read name] at typed
              cases typed
            · rw [access]
              rfl
          rw [Option.filter_some, Option.filter_some, pair.kind_new, new, access]
          exact .none

end ForFunction

end Exchange
end SharpRefactor
