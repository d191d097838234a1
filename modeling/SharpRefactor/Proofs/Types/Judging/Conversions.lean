import SharpRefactor.Proofs.Types.Judging.Expressions

/-!
What the nodes that an exchange leaves are asked for: by the declarations, arguments, assignments and
functions that they stand in.
-/

namespace SharpRefactor
namespace Exchange.ForFunction

variable {x : Exchange} {j j' : Judge} {n n' : Node}
variable (h : x.ForFunction)

include h

section Answers

variable (t : Table) (agree : x.Agree j j')

include agree

omit agree in
theorem initializerTarget?_eq (kept : x.Keeps n n') :
    t.initializerTarget? n' = t.initializerTarget? n := by
  refine kept.pairs.parent?.bind_eq fun owner owner' own => ?_
  rw [own.kind_eq, h.around_eq own.pairs]
  dsimp only
  split
  · refine own.pairs.parent?.bind_eq fun d d' own' => ?_
    rw [own'.kind_eq]
    split
    · next declaration =>
        have silent : d.kind.asks = false := by rw [beq_iff_eq.mp declaration]; rfl
        rw [h.mirror.declaredType?_eq own' silent]
    · rfl
  · next parameter => rw [h.mirror.declaredType?_eq own (by rw [parameter]; rfl)]
  · next property => rw [h.mirror.declaredType?_eq own (by rw [property]; rfl)]
  · rfl

omit h in
theorem argumentTargets_eq (g : MethodGroup) {l l' : List Node} (pairs : List.Forall₂ x.Pairs l l')
    (i : Nat) : Table.argumentTargets j' g l' i = Table.argumentTargets j g l i := by
  have types : l'.map j'.valueType = l.map j.valueType :=
    pairs.map_eq fun _ _ pair => agree.valueType pair
  -- What is observed of the arguments is read off the list of their types.
  have observed (j : Judge) (l : List Node) (ps : List Parameter) :
      ((ps.zip l).zipIdx.filterMap fun e =>
        if e.2 = i then none else (j.valueType e.1.2).map (e.1.1.type, ·)) =
      (ps.zip (l.map j.valueType)).zipIdx.filterMap fun e =>
        if e.2 = i then none else e.1.2.map (e.1.1.type, ·) := by
    rw [List.zip_map_right, List.zipIdx_map, List.filterMap_map]
    rfl
  simp only [Table.argumentTargets, observed, types, pairs.length_eq]

omit h in
theorem groupTarget?_eq (g : MethodGroup) {l l' : List Node} (pairs : List.Forall₂ x.Pairs l l')
    (i : Nat) (pair : x.Pairs n n') :
    t.groupTarget? j' g l' i n' = t.groupTarget? j g l i n := by
  rw [Table.groupTarget?, Table.groupTarget?, argumentTargets_eq agree g pairs, agree.denotes pair]

theorem argumentTarget?_eq {m m' : Node} (kept : x.Keeps m m') (pair : x.Pairs n n') :
    t.argumentTarget? j' m' n' = t.argumentTarget? j m n := by
  refine kept.pairs.parent?.bind_eq fun list list' own => ?_
  have arguments := h.argumentExpressions own
  have place : list'.arguments.findIdx? (·.index == m'.index) =
      list.arguments.findIdx? (·.index == m.index) :=
    (h.mirror.childrenOf own (k := .argument) rfl).findIdx?_eq fun _ _ own => by
      rw [← own.1.pairs.index_eq, ← kept.pairs.index_eq]
  dsimp only
  rw [place]
  refine Option.bind_congr fun i _ => own.pairs.parent?.bind_eq fun owner owner' own' => ?_
  rw [own'.kind_eq]
  split
  · refine own'.firstChild?.bind_eq fun callee callee' pair' => ?_
    simp only [agree.denotes pair', groupTarget?_eq t agree _ arguments _ pair]
  · next creation =>
      have silent : owner.kind.asks = false := by rw [creation]; rfl
      rw [h.mirror.declaredType?_eq own' silent, h.around_eq own'.pairs, arguments.length_eq]
  · rfl

theorem returnIn_eq {l l' : List Node} (around : List.Forall₂ x.Keeps l l') :
    t.returnIn j' l' = t.returnIn j l := by
  induction around with
  | nil => rfl
  | @cons a a' _ _ kept _ ih =>
      rw [Table.returnIn, Table.returnIn, kept.kind_eq, ih]
      split
      · next method => rw [h.mirror.declaredType?_eq kept (by rw [method]; rfl), h.around_eq kept.pairs]
      · next property =>
        rw [h.mirror.declaredType?_eq kept (by rw [property]; rfl), h.around_eq kept.pairs]
      · rw [agree.target kept.pairs]
      · rw [agree.target kept.pairs]
      · rw [agree.target kept.pairs]
      · rw [kept.accessorWord?_eq]
      all_goals rfl

theorem targetWith_eq (pair : x.Pairs n n') : t.targetWith j' n' = t.targetWith j n := by
  have expression := pair.unparenthesize
  refine expression.parent?.bind_eq fun p p' kept => ?_
  have function : (j'.target p').bind t.signatureOf? = (j.target p).bind t.signatureOf? := by
    rw [agree.target kept.pairs]
  rw [kept.kind_eq, h.initializerTarget?_eq t kept, isSecond_eq kept expression,
    h.argumentTarget?_eq t agree kept expression, h.returnIn_eq t agree kept.ancestors, function]
  dsimp only
  split
  · rfl
  · split
    · exact kept.firstChild?.bind_eq fun _ _ own => by rw [agree.valueType own]
    · rfl
  · rfl
  · rfl
  · rfl
  · rfl
  · rfl
  · next cast => rw [h.castType?_eq t kept cast]
  · rfl

end Answers

end Exchange.ForFunction
end SharpRefactor
