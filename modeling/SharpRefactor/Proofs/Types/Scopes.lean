import SharpRefactor.Proofs.Types.Mirrors

/-!
What a tree declares does not depend on its expressions. When an expression gives way to a function
without a name where its surroundings may ask for a type, every node that is left has the scope it
had, and the table of the file is the same.
-/

namespace SharpRefactor

def Kind.composesTypes : Kind → Bool
  | .genericName | .typeArgumentList | .qualifiedName | .arrayType => true
  | _ => false

namespace Forest

theorem filterMap_token?_modify {ts : Forest} {i : Nat} {f : Tree → Tree}
    (same : ∀ t, ts[i]? = some t → (f t).token? = t.token?) :
    (ts.modify i f).filterMap Tree.token? = ts.filterMap Tree.token? := by
  induction ts generalizing i with
  | nil => simp
  | cons t ts ih =>
      cases i with
      | zero => simp [List.modify_zero_cons, List.filterMap_cons, same t rfl]
      | succ i =>
          rw [List.modify_succ_cons, List.filterMap_cons, List.filterMap_cons, ih same]

theorem typeSyntax_modify {ts : Forest} {i : Nat} {f : Tree → Tree}
    (same : ∀ t, ts[i]? = some t →
      (f t).isNode = t.isNode ∧ (f t).kind = t.kind ∧ (f t).typeSyntax = t.typeSyntax) :
    Forest.typeSyntax (ts.modify i f) = Forest.typeSyntax ts := by
  induction ts generalizing i with
  | nil => simp
  | cons t ts ih =>
      cases i with
      | zero =>
          obtain ⟨isNode, kind, type⟩ := same t rfl
          simp [List.modify_zero_cons, Forest.typeSyntax, isNode, kind, type]
      | succ i => simp [List.modify_succ_cons, Forest.typeSyntax, ih same]

theorem argumentSyntax_modify {ts : Forest} {i : Nat} {f : Tree → Tree}
    (same : ∀ t, ts[i]? = some t → (f t).isNode = t.isNode ∧ (f t).kind = t.kind ∧
      (t.kind = .typeArgumentList →
        Forest.typeSyntax (f t).children = Forest.typeSyntax t.children)) :
    Forest.argumentSyntax (ts.modify i f) = Forest.argumentSyntax ts := by
  induction ts generalizing i with
  | nil => simp
  | cons t ts ih =>
      cases i with
      | zero =>
          obtain ⟨isNode, kind, inside⟩ := same t rfl
          rw [List.modify_zero_cons]
          cases t with
          | leaf token =>
              cases new : f (.leaf token) with
              | leaf token' => rfl
              | node k us => rw [new] at isNode; cases isNode
          | node k us =>
              cases new : f (.node k us) with
              | leaf token => rw [new] at isNode; cases isNode
              | node k' us' =>
                  rw [new] at kind inside
                  obtain rfl : k' = k := kind
                  simp only [Forest.argumentSyntax]
                  split
                  · next list => exact inside list
                  · rfl
      | succ i =>
          rw [List.modify_succ_cons]
          cases t with
          | leaf token => simp [Forest.argumentSyntax, ih same]
          | node k us => simp [Forest.argumentSyntax, ih same]

theorem nameText_congr {ts us : Forest}
    (tokens : ts.filterMap Tree.token? = us.filterMap Tree.token?) :
    Forest.nameText ts = Forest.nameText us := by
  rw [nameText, nameText, tokenWhere?, tokenWhere?, tokens]

theorem countP_modify {ts : Forest} {i : Nat} {f : Tree → Tree} {p : Tree → Bool}
    (same : ∀ t, ts[i]? = some t → p (f t) = p t) : (ts.modify i f).countP p = ts.countP p := by
  induction ts generalizing i with
  | nil => simp
  | cons t ts ih =>
      cases i with
      | zero => rw [List.modify_zero_cons, List.countP_cons, List.countP_cons, same t rfl]
      | succ i => rw [List.modify_succ_cons, List.countP_cons, List.countP_cons, ih same]

end Forest

namespace Tree

/-- What is no composed type is spelled by its tokens alone. -/
theorem typeSyntax_of_tokens {k : Kind} {ts us : Forest} (simple : k.composesTypes = false)
    (tokens : ts.filterMap token? = us.filterMap token?) :
    (Tree.node k ts).typeSyntax = (Tree.node k us).typeSyntax := by
  simp only [Tree.typeSyntax]
  split
  · rw [Forest.tokenWhere?, Forest.tokenWhere?, tokens]
  · rw [Forest.nameText_congr tokens]
  · cases simple
  · cases simple
  · cases simple
  · rfl

theorem typeSyntax_congr {k : Kind} {ts us : Forest}
    (tokens : ts.filterMap token? = us.filterMap token?)
    (types : Forest.typeSyntax ts = Forest.typeSyntax us)
    (arguments : Forest.argumentSyntax ts = Forest.argumentSyntax us)
    (ranks : ts.countP (fun t => t.isNode && t.kind == .arrayRankSpecifier) =
      us.countP (fun t => t.isNode && t.kind == .arrayRankSpecifier)) :
    (Tree.node k ts).typeSyntax = (Tree.node k us).typeSyntax := by
  simp only [Tree.typeSyntax, Forest.tokenWhere?, Forest.nameText_congr tokens, tokens, types,
    arguments, ranks]

theorem get?_dropLast {t u parent : Tree} {i j : Nat} {is : List Nat}
    (found : t.children[i]? = some u) (up : u.get? (j :: is).dropLast = some parent) :
    t.get? (i :: j :: is).dropLast = some parent := by
  rw [List.dropLast_cons_cons, get?_cons]
  exact Option.bind_eq_some_iff.mpr ⟨u, found, up⟩

/-- A type is spelled as before when something in it is exchanged that is not itself a part of its
spelling. -/
theorem typeSyntax_splice {graft t target : Tree} {is : List Nat} (isNode : graft.isNode)
    (led : t.get? is = some target) (real : target.isNode) (below : is ≠ [])
    (apart : ∀ parent, t.get? is.dropLast = some parent → parent.kind.composesTypes = false) :
    (graft.splice is t).typeSyntax = t.typeSyntax := by
  induction length : is.length using Nat.strongRecOn generalizing is t with
  | ind n ih =>
    obtain - | ⟨i, is⟩ := is
    · exact absurd rfl below
    obtain ⟨u, found, rest⟩ := Option.bind_eq_some_iff.mp led
    cases t with
    | leaf token => cases found
    | node k ts =>
      have found : ts[i]? = some u := found
      rw [splice_cons]
      obtain - | ⟨j, is⟩ := is
      · cases rest
        refine typeSyntax_of_tokens (apart _ rfl) (Forest.filterMap_token?_modify fun t same => ?_)
        obtain rfl : target = t := Option.some.inj (found.symm.trans same)
        exact (token?_of_isNode isNode).trans (token?_of_isNode real).symm
      · cases u with
        | leaf token => cases rest
        | node k' us =>
          obtain ⟨v, found', rest'⟩ := Option.bind_eq_some_iff.mp rest
          have found' : us[j]? = some v := found'
          have apart' := fun parent up => apart parent (get?_dropLast (t := .node k ts) found up)
          have own : (graft.splice (j :: is) (Tree.node k' us)).typeSyntax =
              (Tree.node k' us).typeSyntax :=
            ih _ (by simp at length ⊢; omega) rest (by simp) apart' rfl
          have kept : ∀ w, ts[i]? = some w → w = Tree.node k' us :=
            fun w same => Option.some.inj (same.symm.trans found)
          refine typeSyntax_congr (Forest.filterMap_token?_modify fun w same => ?_)
            (Forest.typeSyntax_modify fun w same => ?_) (Forest.argumentSyntax_modify fun w same => ?_)
            (Forest.countP_modify fun w same => ?_)
          · rw [kept w same]
            rfl
          · rw [kept w same]
            exact ⟨rfl, rfl, own⟩
          · rw [kept w same]
            refine ⟨rfl, rfl, fun list => ?_⟩
            obtain rfl : k' = .typeArgumentList := list
            obtain - | ⟨l, is⟩ := is
            · cases apart' _ rfl
            · refine Forest.typeSyntax_modify fun w same => ?_
              obtain rfl : v = w := Option.some.inj (found'.symm.trans same)
              have apart'' := fun parent up =>
                apart' parent (get?_dropLast (t := .node .typeArgumentList us) found' up)
              refine ⟨?_, ?_, ih _ (by simp at length ⊢; omega) rest' (by simp) apart'' rfl⟩
              · cases v <;> rfl
              · cases v <;> rfl
          · rw [kept w same]
            rfl

end Tree

namespace Exchange

/-- The exchange of an expression for a function without a name. -/
structure ToFunction (x : Exchange) : Prop where
  old : x.node.kind = .identifierName ∨ x.node.kind = .memberAccessExpression
  read : x.node.kind = .identifierName → x.node.isTypeSyntax = false
  new : x.graft.kind = .anonymousMethodExpression
  nested : x.tree.Nested
  nested' : x.graft.Nested
  real : 0 < x.node.tree.size
  real' : 0 < x.graft.size

structure ForFunction (x : Exchange) : Prop extends x.ToFunction where
  asked : ∀ p, x.node.parent? = some p → p.kind.asks

variable {x : Exchange} {n n' : Node}

theorem Keeps.sameTokens (kept : x.Keeps n n') : n.SameTokens n' := ⟨kept.kind_eq, kept.tokens⟩

namespace ForFunction

variable (h : x.ForFunction)

include h

theorem old_eq {p : Kind → Bool} (name : p .identifierName = false)
    (access : p .memberAccessExpression = false) : p x.node.kind = false := by
  rcases h.old with kind | kind
  · rwa [kind]
  · rwa [kind]

theorem new_eq {p : Kind → Bool} (function : p .anonymousMethodExpression = false) :
    p x.graft.kind = false := by
  rwa [h.new]

/-- What is left of a tree spells the types that it spelled. -/
theorem typeSyntax_eq (kept : x.Keeps n n') : n'.typeSyntax = n.typeSyntax := by
  obtain ⟨way, outside, at_⟩ := kept
  change n'.tree.typeSyntax = n.tree.typeSyntax
  rw [at_.tree_eq]
  cases way with
  | none => rfl
  | some rest =>
      have below : rest ≠ [] := fun last => outside (congrArg some last)
      have led := at_.follow? rest rfl
      have real := (Node.isNode_of_follow? at_.isNode led)
      refine Tree.typeSyntax_splice x.isNode (Node.get?_of_follow? led) real below fun parent up => ?_
      obtain ⟨p, through, isParent⟩ := Node.parent?_of_follow? led below
      rw [Node.get?_of_follow? through] at up
      cases up
      have asks := h.asked p isParent
      change p.kind.composesTypes = false
      revert asks
      cases p.kind <;> intro asks <;> first | rfl | cases asks

/-- Where nothing may be asked of an expression, all children are left. -/
theorem children (kept : x.Keeps n n') (silent : n.kind.asks = false) :
    List.Forall₂ x.Keeps n.children n'.children := by
  refine kept.children_of_ne fun m member same => ?_
  subst same
  rw [h.asked n (Node.parent?_of_mem_children member)] at silent
  cases silent

/-- What the table is made of is read from the nodes that are left as it was. -/
theorem mirror : Node.Mirror x.Keeps where
  sameTokens := Keeps.sameTokens
  typeSyntax_eq := h.typeSyntax_eq
  childrenWhere {n n' p} kept keeps := by
    cases asks : n.kind.asks with
    | false =>
        exact (h.children kept asks).filter fun _ _ both => by rw [both.kind_eq]
    | true =>
        have other : ∀ k, k.isExchanged → p k = false := by
          intro k exchanged
          by_contra own
          have := keeps k (by simpa using own)
          simp [Kind.keeps, asks, exchanged] at this
        refine (kept.childrenWhere (p := p) ?_ ?_).imp fun _ _ own => own.1
        · exact h.old_eq (other _ rfl) (other _ rfl)
        · exact h.new_eq (other _ rfl)

/-- The nodes around a node of some kinds that the exchange has nothing to do with. -/
theorem ancestorsWhere (pairs : x.Pairs n n') (p : Kind → Bool) (name : p .identifierName = false)
    (access : p .memberAccessExpression = false) (function : p .anonymousMethodExpression = false) :
    List.Forall₂ (fun m m' => x.Keeps m m' ∧ p m.kind) (n.ancestors.filter (p ·.kind))
      (n'.ancestors.filter (p ·.kind)) :=
  keeps_filter (h.old_eq name access) (h.new_eq function) pairs.ancestors

theorem global_eq (pairs : x.Pairs n n') : Scope.global n' = Scope.global n := by
  have units := h.ancestorsWhere pairs (· == .compilationUnit) rfl rfl rfl
  have last := List.Forall₂.head? (List.rel_reverse units)
  rw [← List.getLast?_eq_head?_reverse, ← List.getLast?_eq_head?_reverse] at last
  rw [Scope.global, Scope.global]
  generalize (n.ancestors.filter (·.kind == .compilationUnit)).getLast? = unit,
    (n'.ancestors.filter (·.kind == .compilationUnit)).getLast? = unit' at last
  cases last with
  | none => rfl
  | some own => exact h.mirror.withUsings_eq own.1 ""

theorem namespacesAt_eq (pairs : x.Pairs n n') : Scope.namespacesAt n' = Scope.namespacesAt n := by
  have headers := h.ancestorsWhere pairs (· == .namespaceDeclaration) rfl rfl rfl
  rw [Scope.namespacesAt, Scope.namespacesAt, h.global_eq pairs]
  exact List.Forall₂.foldl_eq (List.rel_reverse headers)
    (fun spaces _ _ own => h.mirror.enter_eq own.1 spaces (by simpa using own.2)) _

theorem namespaceAt_eq (pairs : x.Pairs n n') : Scope.namespaceAt n' = Scope.namespaceAt n := by
  rw [Scope.namespaceAt, Scope.namespaceAt, h.namespacesAt_eq pairs]

/-! Types around a node. -/

theorem enclosingKey_eq (pairs : x.Pairs n n') :
    Node.enclosingKey n'.above = Node.enclosingKey n.above := by
  obtain ⟨way, at_⟩ := pairs
  induction at_ with
  | root => rfl
  | @child way m m' n n' i parents outside old new ih =>
      obtain ⟨t, -, -, rfl⟩ := Node.child?_eq_some.mp old
      obtain ⟨t', -, -, rfl⟩ := Node.child?_eq_some.mp new
      have kept : x.Keeps m m' := ⟨way, outside, parents⟩
      change (if m'.kind.isTypeDeclaration then some (Node.keyIn (Node.enclosingKey m'.above) m')
          else Node.enclosingKey m'.above) =
        if m.kind.isTypeDeclaration then some (Node.keyIn (Node.enclosingKey m.above) m)
          else Node.enclosingKey m.above
      rw [kept.kind_eq, ih, h.mirror.keyIn_eq kept _ (h.namespaceAt_eq kept.pairs)]

theorem typeKey?_eq (kept : x.Keeps n n') : n'.typeKey? = n.typeKey? := by
  rw [Node.typeKey?, Node.typeKey?, h.enclosingKey_eq kept.pairs,
    h.mirror.keyIn_eq kept _ (h.namespaceAt_eq kept.pairs)]

/-- Every node that is left has the scope it had. -/
theorem around_eq (pairs : x.Pairs n n') : Scope.around n' = Scope.around n := by
  have types := h.ancestorsWhere pairs Kind.isTypeDeclaration rfl rfl rfl
  have introducing := h.ancestorsWhere pairs
    (fun k => k.isTypeDeclaration || k == .delegateDeclaration || k == .methodDeclaration)
    rfl rfl rfl
  have keys := List.Forall₂.filterMap_eq types fun _ _ own => h.typeKey?_eq own.1
  have names := List.Forall₂.flatMap_eq introducing fun _ _ own => h.mirror.typeParameterNames_eq own.1
  rw [Scope.around, Scope.around, h.namespacesAt_eq pairs, keys]
  exact congrArg (Scope.mk _ _) names

end ForFunction

end Exchange

end SharpRefactor
