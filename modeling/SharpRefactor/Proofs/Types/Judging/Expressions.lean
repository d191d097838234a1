import SharpRefactor.Proofs.Types.Judging.Agreement

/-!
What the nodes that an exchange leaves denote. Judges that agree find the same locals, types and
members for their names, and the same meanings for the expressions over these.
-/

namespace SharpRefactor
namespace Exchange.ForFunction

variable {x : Exchange} {j j' : Judge} {n n' : Node}
variable (h : x.ForFunction)

include h

section Answers

variable (t : Table) (agree : x.Agree j j')

include agree

/-! ### Names -/

theorem localType?_eq (name : String) (kept : x.Keeps n n') :
    t.localType? j' name n' = t.localType? j name n := by
  refine (h.mirror.childOf? kept (k := .variableDeclaration) rfl).bind_eq fun d d' own => ?_
  have silent : d.kind.asks = false := by rw [own.2]; rfl
  have declarators := h.mirror.childrenOf own.1 (k := .variableDeclarator) rfl
  refine (declarators.find? fun _ _ own => (own.1.declares_eq name).symm).bind_eq fun v v' own' => ?_
  rw [h.mirror.declaredType?_eq own.1 silent, h.around_eq kept.pairs]
  refine Option.bind_congr fun type _ => ?_
  cases t.resolve (Scope.around n) type with
  | some resolved => rfl
  | none =>
      dsimp only
      split
      · refine (h.mirror.childOf? own'.1 (k := .equalsValueClause) rfl).bind_eq fun _ _ clause => ?_
        exact clause.1.firstChild?.bind_eq fun _ _ pair => agree.valueType pair
      · rfl

theorem functionParameter?_eq (name : String) {m m' : Node} (read : x.Pairs m m')
    (kept : x.Keeps n n') :
    t.functionParameter? j' name m'.start n' = t.functionParameter? j name m.start n := by
  refine (h.functionParts? kept).bind_eq fun f f' own => ?_
  obtain ⟨parameters, body⟩ := f
  obtain ⟨parameters', body'⟩ := f'
  obtain ⟨lists, bodies⟩ := own
  dsimp only
  rw [h.contains_start_eq bodies read]
  split
  · rfl
  have index := lists.findIdx?_eq (p := (·.declares name)) (q := (·.declares name))
    fun _ _ own => own.1.declares_eq name
  rw [index]
  refine Option.bind_congr fun i _ => (lists.getElem? i).bind_eq fun p p' own => ?_
  have silent : p.kind.asks = false := by rw [own.2]; rfl
  rw [h.mirror.declaredType?_eq own.1 silent, h.around_eq kept.pairs, agree.target kept.pairs]

omit agree in
theorem accessorValue?_eq (kept : x.Keeps n n') (accessor : n.kind = .accessorDeclaration) :
    t.accessorValue? n' = t.accessorValue? n := by
  rw [Table.accessorValue?, Table.accessorValue?, kept.accessorWord?_eq]
  refine Option.bind_congr fun word _ => ?_
  split
  · rfl
  refine (h.grandparent? kept.pairs).bind_eq fun owner owner' own => ?_
  have silent : owner.kind.asks = false := own.2 accessor
  rw [h.mirror.declaredType?_eq own.1 silent, h.around_eq own.1.pairs]

omit agree in
/-- The declarations that end before a node. -/
theorem earlierLocals {m m' : Node} (read : x.Pairs m m') (kept : x.Keeps n n') :
    List.Forall₂ x.Keeps (Table.earlierLocals m.start n) (Table.earlierLocals m'.start n') := by
  have cut (offset : Nat) (b : Node) : Table.earlierLocals offset b =
      ((b.childrenOf .localDeclarationStatement).filter (·.stop ≤ offset)).reverse := by
    rw [Node.childrenOf, List.filter_filter, Table.earlierLocals]
    simp only [Bool.and_comm]
  rw [cut, cut]
  have declarations := h.mirror.childrenOf kept (k := .localDeclarationStatement) rfl
  have earlier := declarations.filter (p := (·.stop ≤ m.start)) (q := (·.stop ≤ m'.start))
    fun _ _ own => by simp [h.stop_le_start_iff own.1.pairs read]
  exact List.rel_reverse (earlier.imp fun _ _ own => own.1)

theorem localIn_eq (name : String) {m m' : Node} (read : x.Pairs m m') {l l' : List Node}
    (around : List.Forall₂ x.Keeps l l') :
    t.localIn j' name m'.start l' = t.localIn j name m.start l := by
  induction around with
  | nil => rfl
  | @cons a a' _ _ kept _ ih =>
      rw [Table.localIn, Table.localIn, kept.kind_eq, ih]
      split
      case h_5 | h_6 =>
        have lists : Option.Rel (fun l l' => x.Keeps l l' ∧ l.kind = .parameterList)
          a.parameterList? a'.parameterList? := h.mirror.childOf? kept rfl
        generalize a.parameterList? = list, a'.parameterList? = list' at lists
        cases lists with
        | none => rfl
        | @some list list' own =>
            have found : Option.Rel (fun p p' => x.Keeps p p' ∧ p.kind = .parameter)
                (list.parameters.find? (·.declares name)) (list'.parameters.find? (·.declares name)) :=
              (h.mirror.childrenOf own.1 (k := .parameter) rfl).find?
                fun _ _ own => (own.1.declares_eq name).symm
            dsimp only
            generalize list.parameters.find? (·.declares name) = p,
              list'.parameters.find? (·.declares name) = p' at found
            cases found with
            | none => rfl
            | @some p p' own =>
                have silent : p.kind.asks = false := by rw [own.2]; rfl
                dsimp only
                rw [h.mirror.declaredType?_eq own.1 silent, h.around_eq kept.pairs]
      · have locals := (h.earlierLocals read kept).findSome?_eq fun _ _ own =>
          h.localType?_eq t agree name own
        rw [locals]
      · rw [h.functionParameter?_eq t agree name read kept]
      · rw [h.functionParameter?_eq t agree name read kept]
      · rw [h.functionParameter?_eq t agree name read kept]
      · next accessor => rw [h.accessorValue?_eq t kept accessor]
      · rfl
      · rfl
      · rfl
      · rfl

theorem localOf?_eq (name : String) (pair : x.Pairs n n') :
    t.localOf? j' n' name = t.localOf? j n name :=
  h.localIn_eq t agree name pair pair.around

omit agree in
theorem resolveNode_eq (kept : x.Keeps n n') : t.resolveNode n' = t.resolveNode n := by
  rw [Table.resolveNode, Table.resolveNode, h.typeSyntax_eq kept, h.around_eq kept.pairs]

omit agree in
theorem castType?_eq (kept : x.Keeps n n') (cast : n.kind = .castExpression) :
    ((n'.firstChild?.filter (·.kind.isType)).bind fun type => t.resolve (.around n') type.typeSyntax) =
      (n.firstChild?.filter (·.kind.isType)).bind fun type => t.resolve (.around n) type.typeSyntax :=
  (h.castType? kept cast).bind_eq fun _ _ own => by
    rw [h.typeSyntax_eq own, h.around_eq kept.pairs]

omit agree in
theorem simpleName?_eq (kept : x.Keeps n n') : t.simpleName? n' = t.simpleName? n := by
  rw [Table.simpleName?, Table.simpleName?, h.typeSyntax_eq kept, h.around_eq kept.pairs]

theorem denotesName_eq (kept : x.Keeps n n') : t.denotesName j' n' = t.denotesName j n := by
  simp only [Table.denotesName, h.simpleName?_eq t kept, h.localOf?_eq t agree _ kept.pairs,
    h.around_eq kept.pairs]

/-! ### Expressions -/

theorem denotesAccess_eq (kept : x.Keeps n n') (access : n.kind = .memberAccessExpression) :
    t.denotesAccess j' n' = t.denotesAccess j n := by
  have silent : n.kind.asks = false := by rw [access]; rfl
  have children := h.children kept silent
  refine children.head?.bind_eq fun receiver receiver' own => ?_
  refine (children.getElem? 1).bind_eq fun member member' own' => ?_
  rw [h.simpleName?_eq t own', agree.denotes own.pairs]

omit agree in
theorem argumentExpressions (kept : x.Keeps n n') :
    List.Forall₂ x.Pairs n.argumentExpressions n'.argumentExpressions :=
  List.rel_filterMap (fun _ _ own => own.1.firstChild?) (h.mirror.childrenOf kept (k := .argument) rfl)

theorem denotesCall_eq (kept : x.Keeps n n') : t.denotesCall j' n' = t.denotesCall j n := by
  refine (h.mirror.childOf? kept (k := .argumentList) rfl).bind_eq fun list list' own => ?_
  refine kept.firstChild?.bind_eq fun callee callee' own' => ?_
  have types : list'.argumentExpressions.map j'.valueType = list.argumentExpressions.map j.valueType :=
    (h.argumentExpressions own.1).map_eq fun _ _ pair => agree.valueType pair
  rw [agree.denotes own', types]

omit h in
theorem binaryType?_eq (kept : x.Keeps n n') : Table.binaryType? j' n' = Table.binaryType? j n := by
  have left : n'.firstChild?.bind j'.valueType = n.firstChild?.bind j.valueType :=
    kept.firstChild?.bind_eq fun _ _ pair => agree.valueType pair
  have right : n'.secondChild?.bind j'.valueType = n.secondChild?.bind j.valueType :=
    kept.secondChild?.bind_eq fun _ _ pair => agree.valueType pair
  rw [Table.binaryType?, Table.binaryType?, kept.sign?_eq, left, right]

theorem denotesWith_eq (kept : x.Keeps n n') : t.denotesWith j' n' = t.denotesWith j n := by
  have value : n'.firstChild?.bind j'.valueType = n.firstChild?.bind j.valueType :=
    kept.firstChild?.bind_eq fun _ _ pair => agree.valueType pair
  have name :
      (if n'.isTypeSyntax then (t.resolveNode n').map Denotation.type else t.denotesName j' n') =
      if n.isTypeSyntax then (t.resolveNode n).map .type else t.denotesName j n := by
    rw [kept.isTypeSyntax_eq, h.resolveNode_eq t kept, h.denotesName_eq t agree kept]
  rw [Table.denotesWith, Table.denotesWith, kept.kind_eq]
  split
  · rw [kept.literalType_eq]
  · rw [h.around_eq kept.pairs]
  · exact name
  · exact name
  · rw [h.resolveNode_eq t kept]
  · rw [h.resolveNode_eq t kept]
  · rw [h.resolveNode_eq t kept]
  · next access => exact h.denotesAccess_eq t agree kept access
  · exact h.denotesCall_eq t agree kept
  · next creation =>
      have silent : n.kind.asks = false := by rw [creation]; rfl
      rw [h.mirror.declaredType?_eq kept silent, h.around_eq kept.pairs]
  · next cast => rw [h.castType?_eq t kept cast]
  · exact kept.firstChild?.bind_eq fun _ _ pair => agree.denotes pair
  · rw [value]
  · rw [value]
  · rw [binaryType?_eq agree kept]
  · rw [kept.sign?_eq, value]
  · rfl
  · rfl
  · rfl
  · rfl

end Answers

end Exchange.ForFunction
end SharpRefactor
