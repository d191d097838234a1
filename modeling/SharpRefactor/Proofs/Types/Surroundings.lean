import SharpRefactor.Proofs.Types.Declarations

/-!
What is around a declaration, as far as it is seen from inside. A file or a namespace shows what is
in it the names of its header and its directives, and nothing of its declarations; and one namespace
with a header of several names shows the same as several that are nested. So nodes of one tree have
the same scope, the same keys and the same contents wherever they stand in surroundings that are
alike in this way.
-/

theorem List.Forall₂.of_map_eq {α β γ : Type} {l : List α} {l' : List β} {f : α → γ} {g : β → γ}
    (same : l.map f = l'.map g) : List.Forall₂ (fun a b => f a = g b) l l' := by
  rwa [← List.forall₂_eq_eq_eq, List.forall₂_map_left_iff, List.forall₂_map_right_iff] at same

namespace SharpRefactor

def Kind.isSpace (k : Kind) : Bool := k == .compilationUnit || k == .namespaceDeclaration

namespace Tree

def isOutline (t : Tree) : Bool := t.isNode && t.kind.isOutline

/-- The same tree, or a file or a namespace with other declarations in it. -/
inductive SameHead : Tree → Tree → Prop where
  | refl (t : Tree) : SameHead t t
  | space {k : Kind} {ts us : Forest} (space : k.isSpace)
      (plain : us.filter (!·.isOutline) = ts.filter (!·.isOutline)) :
      SameHead (.node k ts) (.node k us)

namespace SameHead

variable {t u : Tree} (same : t.SameHead u)

include same

theorem kind_eq : u.kind = t.kind := by
  cases same <;> rfl

theorem typeSyntax_eq : u.typeSyntax = t.typeSyntax := by
  cases same with
  | refl => rfl
  | @space k ts us space plain => cases k <;> first | rfl | cases space

/-- The children that declare nothing. -/
theorem children_filter {p : Tree → Bool} (plain : ∀ c, p c → c.isOutline = false) :
    u.children.filter p = t.children.filter p := by
  cases same with
  | refl => rfl
  | @space k ts us space same =>
      have narrow : ∀ cs : Forest, cs.filter p = (cs.filter (!·.isOutline)).filter p := by
        intro cs
        rw [List.filter_filter]
        refine List.filter_congr fun c _ => ?_
        cases own : p c with
        | false => rfl
        | true => simp [plain c own]
      rw [children, children, narrow us, narrow ts, same]

theorem tokens_eq : u.children.filterMap token? = t.children.filterMap token? := by
  have leaves : ∀ cs : Forest, cs.filterMap token? = (cs.filter (!·.isNode)).filterMap token? := by
    intro cs
    rw [List.filterMap_filter]
    congr 1
    funext c
    cases c <;> rfl
  rw [leaves u.children, leaves t.children, same.children_filter]
  intro c leaf
  cases c with
  | leaf token => rfl
  | node k ts => cases leaf

/-- Apart from files and namespaces it is the same tree. -/
theorem eq_of_not_isSpace (other : t.kind.isSpace = false) : u = t := by
  cases same with
  | refl => rfl
  | @space k ts us space =>
      change k.isSpace = false at other
      rw [space] at other
      cases other

end SameHead
end Tree

namespace Node

variable {n n' : Node}

theorem map_tree_childrenWhere (n : Node) (p : Kind → Bool) :
    (n.children.filter (p ·.kind)).map tree = n.tree.children.filter fun t => t.isNode && p t.kind := by
  have swap : (fun t : Tree => t.isNode && p t.kind) = fun t => p t.kind && t.isNode := by
    funext t
    exact Bool.and_comm ..
  rw [swap, ← List.filter_filter, ← map_tree_children, List.filter_map]
  rfl

theorem above_of_mem_children {m : Node} (member : m ∈ n.children) :
    m.above = n.place :: n.above := by
  obtain ⟨p, -, made⟩ := List.mem_filterMap.mp member
  obtain ⟨-, made⟩ := Option.ite_none_right_eq_some.mp made
  cases made
  rfl

/-- Nodes that look the same, in surroundings that do. -/
def Looks (around : List Place → List Place → Prop) (n n' : Node) : Prop :=
  n.tree.SameHead n'.tree ∧ around n.above n'.above

theorem looks_mirror {around : List Place → List Place → Prop}
    (closed : ∀ {p q : Place} {ps qs : List Place}, p.tree.SameHead q.tree → around ps qs →
      around (p :: ps) (q :: qs)) : Mirror (Looks around) where
  sameTokens looks := by
    have same := looks.1.tokens_eq.symm
    rw [← map_token_tokens, ← map_token_tokens] at same
    exact ⟨looks.1.kind_eq, .of_map_eq same⟩
  typeSyntax_eq looks := looks.1.typeSyntax_eq
  childrenWhere {n n' p} looks keeps := by
    have plain : ∀ c : Tree, (c.isNode && p c.kind) → c.isOutline = false := by
      intro c own
      have plain := keeps _ (Bool.and_eq_true_iff.mp own).2
      simp only [Kind.keeps, Bool.and_eq_true, Bool.not_eq_true'] at plain
      simp [Tree.isOutline, plain.1]
    have same := (looks.1.children_filter plain).symm
    rw [← map_tree_childrenWhere, ← map_tree_childrenWhere] at same
    have same := List.Forall₂.of_map_eq same
    have inside : ∀ {m m' : Node}, m ∈ n.children → m' ∈ n'.children → around m.above m'.above := by
      intro m m' member member'
      rw [above_of_mem_children member, above_of_mem_children member']
      exact closed looks.1 looks.2
    refine List.forall₂_iff_get.mpr ⟨same.length_eq, fun i within within' => ⟨?_, inside ?_ ?_⟩⟩
    · exact (List.forall₂_iff_get.mp same).2 i within within' ▸ .refl _
    · exact (List.mem_filter.mp (List.get_mem _ _)).1
    · exact (List.mem_filter.mp (List.get_mem _ _)).1

/-- What is read from a node is read without what is around it. -/
theorem looks_anywhere : Mirror (Looks fun _ _ => True) := looks_mirror fun _ _ => trivial

end Node

/-- What is around something, the innermost first, where it looks alike. A namespace may stand for
two that are nested if it enters the same. -/
inductive AlikeAround : List Place → List Place → Prop where
  | nil : AlikeAround [] []
  | cons {p q : Place} {ps qs : List Place} (head : p.tree.SameHead q.tree) (rest : AlikeAround ps qs) :
      AlikeAround (p :: ps) (q :: qs)
  | split {p q r : Place} {ps qs : List Place}
      (joined : p.kind = .namespaceDeclaration) (inner : q.kind = .namespaceDeclaration)
      (outer : r.kind = .namespaceDeclaration)
      (enters : ∀ spaces, Scope.enter (Scope.enter spaces (.root r.tree)) (.root q.tree) =
        Scope.enter spaces (.root p.tree))
      (rest : AlikeAround ps qs) : AlikeAround (p :: ps) (q :: r :: qs)

namespace AlikeAround

theorem refl (ps : List Place) : AlikeAround ps ps := by
  induction ps with
  | nil => exact .nil
  | cons p ps ih => exact .cons (.refl p.tree) ih

theorem mirror : Node.Mirror (Node.Looks AlikeAround) := Node.looks_mirror .cons

end AlikeAround

namespace Node

def enclosing : List Place → List Node
  | [] => []
  | p :: ps => ⟨p, ps⟩ :: enclosing ps

theorem ancestors_eq_cons (n : Node) : n.ancestors = n :: enclosing n.above := by
  obtain ⟨p, above⟩ := n
  induction above generalizing p with
  | nil => rfl
  | cons q above ih => exact congrArg (List.cons _) (ih q)

theorem enter_eq_of_sameHead {n n' : Node} (same : n.tree.SameHead n'.tree)
    (spaces : List NamespaceScope) (header : n.kind = .namespaceDeclaration) :
    Scope.enter spaces n' = Scope.enter spaces n :=
  looks_anywhere.enter_eq ⟨same, trivial⟩ spaces header

end Node

namespace Scope

variable {p : Place} {ps : List Place} {spaces : List NamespaceScope}

def entered (spaces : List NamespaceScope) (ps : List Place) : List NamespaceScope :=
  ((Node.enclosing ps).filter (·.kind == .namespaceDeclaration)).reverse.foldl enter spaces

theorem entered_header (header : p.kind = .namespaceDeclaration) :
    entered spaces (p :: ps) = enter (entered spaces ps) (.root p.tree) := by
  have own : Node.kind ⟨p, ps⟩ = .namespaceDeclaration := header
  simp only [entered, Node.enclosing, List.filter_cons, own, beq_self_eq_true, if_true,
    List.reverse_cons, List.foldl_append, List.foldl_cons, List.foldl_nil]
  exact @Node.enter_eq_of_sameHead (.root p.tree) ⟨p, ps⟩ (.refl _) _ header

theorem entered_other (other : p.kind ≠ .namespaceDeclaration) :
    entered spaces (p :: ps) = entered spaces ps := by
  have own : (Node.kind ⟨p, ps⟩ == .namespaceDeclaration) = false := beq_false_of_ne other
  simp only [entered, Node.enclosing, List.filter_cons, own, if_neg Bool.false_ne_true]

end Scope

namespace AlikeAround

variable {ps qs : List Place} (alike : AlikeAround ps qs)

include alike

/-- Apart from the namespaces, the same nodes are around. -/
theorem enclosing_filter {p : Kind → Bool} (other : p .namespaceDeclaration = false) :
    List.Forall₂ (Node.Looks AlikeAround) ((Node.enclosing ps).filter (p ·.kind))
      ((Node.enclosing qs).filter (p ·.kind)) := by
  induction alike with
  | nil => exact .nil
  | @cons a b ps qs head rest ih =>
      have kind : Node.kind ⟨b, qs⟩ = Node.kind ⟨a, ps⟩ := head.kind_eq
      rw [Node.enclosing, Node.enclosing, List.filter_cons, List.filter_cons, kind]
      split
      · exact .cons ⟨head, rest⟩ ih
      · exact ih
  | @split a b c ps qs joined inner outer enters rest ih =>
      have skipped {d : Place} {ds : List Place} (header : d.kind = .namespaceDeclaration) :
          ¬ p (Node.kind ⟨d, ds⟩) := by
        rw [show Node.kind ⟨d, ds⟩ = _ from header, other]
        exact Bool.false_ne_true
      simp only [Node.enclosing, List.filter_cons, skipped joined, skipped inner, skipped outer]
      exact ih

/-- The headers enter the same, though there may be more of them. -/
theorem entered_eq (spaces : List NamespaceScope) :
    Scope.entered spaces qs = Scope.entered spaces ps := by
  induction alike with
  | nil => rfl
  | @cons a b ps qs head rest ih =>
      have kind : b.kind = a.kind := head.kind_eq
      by_cases header : a.kind = .namespaceDeclaration
      · rw [Scope.entered_header header, Scope.entered_header (kind.trans header), ih]
        exact @Node.enter_eq_of_sameHead (.root a.tree) (.root b.tree) head _ header
      · rw [Scope.entered_other header, Scope.entered_other (kind ▸ header), ih]
  | @split a b c ps qs joined inner outer enters rest ih =>
      rw [Scope.entered_header inner, Scope.entered_header outer, Scope.entered_header joined, ih,
        enters]

end AlikeAround

namespace Node.Looks

variable {n n' : Node} (looks : Looks AlikeAround n n')

include looks

theorem ancestors_filter {p : Kind → Bool} (other : p .namespaceDeclaration = false) :
    List.Forall₂ (Looks AlikeAround) (n.ancestors.filter (p ·.kind))
      (n'.ancestors.filter (p ·.kind)) := by
  have around := looks.2.enclosing_filter other
  rw [ancestors_eq_cons, ancestors_eq_cons, List.filter_cons, List.filter_cons,
    AlikeAround.mirror.kind_eq looks]
  split
  · exact .cons looks around
  · exact around

theorem global_eq : Scope.global n' = Scope.global n := by
  have units := looks.ancestors_filter (p := (· == .compilationUnit)) rfl
  have outermost := List.Forall₂.head? (List.rel_reverse units)
  rw [List.head?_reverse, List.head?_reverse] at outermost
  rw [Scope.global, Scope.global]
  generalize (n.ancestors.filter (·.kind == .compilationUnit)).getLast? = unit,
    (n'.ancestors.filter (·.kind == .compilationUnit)).getLast? = unit' at outermost
  cases outermost with
  | none => rfl
  | some own => exact AlikeAround.mirror.withUsings_eq own ""

theorem namespacesAt_eq : Scope.namespacesAt n' = Scope.namespacesAt n := by
  have entered := looks.2.entered_eq [Scope.global n]
  rw [Scope.namespacesAt, Scope.namespacesAt, looks.global_eq, ancestors_eq_cons, ancestors_eq_cons,
    List.filter_cons, List.filter_cons, AlikeAround.mirror.kind_eq looks]
  split
  · next header =>
    rw [List.reverse_cons, List.reverse_cons, List.foldl_append, List.foldl_append]
    exact (congrArg (Scope.enter · n') entered).trans
      (AlikeAround.mirror.enter_eq looks _ (beq_iff_eq.mp header))
  · exact entered

theorem namespaceAt_eq : Scope.namespaceAt n' = Scope.namespaceAt n := by
  rw [Scope.namespaceAt, Scope.namespaceAt, looks.namespacesAt_eq]

end Node.Looks

theorem AlikeAround.enclosingKey_eq {ps qs : List Place} (alike : AlikeAround ps qs) :
    Node.enclosingKey qs = Node.enclosingKey ps := by
  induction alike with
  | nil => rfl
  | @cons a b ps qs head rest ih =>
      have looks : Node.Looks AlikeAround ⟨a, ps⟩ ⟨b, qs⟩ := ⟨head, rest⟩
      have kind : b.kind = a.kind := head.kind_eq
      rw [Node.enclosingKey, Node.enclosingKey, kind, ih,
        AlikeAround.mirror.keyIn_eq looks _ looks.namespaceAt_eq]
  | @split a b c ps qs joined inner outer enters rest ih =>
      rw [Node.enclosingKey, Node.enclosingKey, Node.enclosingKey, joined, inner, outer]
      exact ih

namespace Node.Looks

variable {n n' : Node} (looks : Looks AlikeAround n n')

include looks

theorem typeKey?_eq : n'.typeKey? = n.typeKey? := by
  rw [typeKey?, typeKey?, looks.2.enclosingKey_eq,
    AlikeAround.mirror.keyIn_eq looks _ looks.namespaceAt_eq]

theorem around_eq : Scope.around n' = Scope.around n := by
  have types := (looks.ancestors_filter (p := Kind.isTypeDeclaration) rfl).filterMap_eq
    fun _ _ own => own.typeKey?_eq
  have parameters := (looks.ancestors_filter
      (p := fun k => k.isTypeDeclaration || k == .delegateDeclaration || k == .methodDeclaration) rfl
    ).flatMap_eq fun _ _ own => AlikeAround.mirror.typeParameterNames_eq own
  exact Scope.mk.injEq .. |>.mpr ⟨looks.namespacesAt_eq, types, parameters⟩

end Node.Looks

/-! ### What is read from the nodes of a tree -/

/-- The nodes of a tree look the same wherever it stands in surroundings that are alike. -/
theorem Tree.nodesAt_looks (t : Tree) {above above' : List Place} (alike : AlikeAround above above')
    (start start' index index' : Nat) :
    List.Forall₂ (Node.Looks AlikeAround) (t.nodesAt start index above)
      (t.nodesAt start' index' above') := by
  induction t using Tree.induct generalizing above above' start start' index index' with
  | leaf token => exact .nil
  | node k ts ih =>
      rw [nodesAt_node, nodesAt_node]
      refine .cons ⟨.refl _, alike⟩ ?_
      have alike : AlikeAround (⟨.node k ts, start, index⟩ :: above)
          (⟨.node k ts, start', index'⟩ :: above') := .cons (.refl _) alike
      -- the children are a list within the tree, which is itself part of what is around them
      generalize (⟨.node k ts, start, index⟩ : Place) :: above = above,
        (⟨.node k ts, start', index'⟩ : Place) :: above' = above' at alike
      suffices inner : ∀ start start' index index',
          List.Forall₂ (Node.Looks AlikeAround) (Forest.nodesAt ts start index above)
            (Forest.nodesAt ts start' index' above') from inner ..
      induction ts with
      | nil => exact fun _ _ _ _ => .nil
      | cons t ts ihs =>
          intro start start' index index'
          rw [Forest.nodesAt_cons, Forest.nodesAt_cons]
          exact List.rel_append (ih t List.mem_cons_self alike ..)
            (ihs (fun u member => ih u (List.mem_cons_of_mem t member)) ..)

def Node.Blind {α : Type} (f : Node → α) : Prop := ∀ n n', Looks AlikeAround n n' → f n' = f n

section Observing

variable {α : Type} {f : Node → List α} {above above' : List Place}

def Tree.observe (f : Node → List α) (above : List Place) (t : Tree) : List α :=
  (t.nodesAt 0 0 above).flatMap f

theorem Tree.observe_root (f : Node → List α) (t : Tree) :
    t.observe f [] = (Node.root t).descendants.flatMap f := rfl

theorem Node.Blind.nodesAt_flatMap (blind : Blind f) (t : Tree) (alike : AlikeAround above above')
    (start index : Nat) : (t.nodesAt start index above').flatMap f = t.observe f above :=
  (t.nodesAt_looks alike 0 start 0 index).flatMap_eq blind

theorem Node.Blind.observe_eq (blind : Blind f) (t : Tree) (alike : AlikeAround above above') :
    t.observe f above' = t.observe f above :=
  blind.nodesAt_flatMap t alike 0 0

theorem Node.Blind.observe_node (blind : Blind f) (k : Kind) (ts : Forest) (above : List Place) :
    (Tree.node k ts).observe f above = f ⟨⟨.node k ts, 0, 0⟩, above⟩ ++
      ts.flatMap (Tree.observe f (⟨.node k ts, 0, 0⟩ :: above)) := by
  have inner : ∀ (us : Forest) (above : List Place) (start index : Nat),
      (Forest.nodesAt us start index above).flatMap f = us.flatMap (Tree.observe f above) := by
    intro us above
    induction us with
    | nil => exact fun _ _ => rfl
    | cons u us ih =>
        intro start index
        rw [Forest.nodesAt_cons, List.flatMap_append, ih, List.flatMap_cons,
          blind.nodesAt_flatMap u (.refl above)]
  rw [Tree.observe, Tree.nodesAt_node, List.flatMap_cons, inner]

def Node.shown {α : Type} (g : Node → α) (n : Node) : List (Tree × List α) :=
  if n.declaredForm?.isSome then [(n.tree, n.descendants.map g)] else []

/-- The declared types in a node, each with what is read from the nodes in it. -/
def Node.declaredWith {α : Type} (g : Node → α) (n : Node) : List (Tree × List α) :=
  (n.descendants.filter (·.declaredForm?.isSome)).map fun d => (d.tree, d.descendants.map g)

theorem Tree.declaredWith_root {β : Type} (g : Node → β) (t : Tree) :
    (Node.root t).declaredWith g = t.observe (Node.shown g) [] := by
  rw [Node.declaredWith, observe_root]
  induction (Node.root t).descendants with
  | nil => rfl
  | cons n nodes ih =>
      rw [List.filter_cons, List.flatMap_cons, ← ih, Node.shown]
      split <;> rfl

theorem Node.isSpace_of_declaredForm? {n : Node} (declared : n.declaredForm?.isSome) :
    n.kind.isSpace = false := by
  rw [declaredForm?] at declared
  cases kind : n.kind <;> rw [kind] at declared <;> first | rfl | cases declared

theorem Node.Blind.shown {β : Type} {g : Node → β} (blind : Blind g) : Blind (Node.shown g) := by
  intro n n' looks
  rw [Node.shown, Node.shown, (AlikeAround.mirror.sameTokens looks).declaredForm?_eq]
  split
  · next declared =>
    have same := looks.1.eq_of_not_isSpace (isSpace_of_declaredForm? declared)
    have inside := n.tree.nodesAt_looks looks.2 n.start n'.start n.index n'.index
    rw [descendants, same, descendants, inside.map_eq blind]
  · rfl

/-- A change of a tree, or of a declaration that stands in it with nothing but namespaces in
between. -/
inductive Tree.Somewhere (R : Tree → Tree → Prop) : Tree → Tree → Prop where
  | here {t u : Tree} (changed : R t u) : Somewhere R t u
  | inside {k : Kind} {front rest : Forest} {t u : Tree} (space : k.isSpace)
      (changed : Somewhere R t u) :
      Somewhere R (.node k (front ++ t :: rest)) (.node k (front ++ u :: rest))

theorem Tree.isOutline_of_isSpace {k : Kind} (space : k.isSpace) (ts : Forest) :
    (Tree.node k ts).isOutline := by
  cases k <;> first | rfl | cases space

namespace Node.Blind

/-- What is read from the nodes of a tree is related as it is where the change is made, if the
relation goes along with what is read before and after. -/
theorem somewhere (blind : Blind f) {R : Tree → Tree → Prop} {S : List α → List α → Prop}
    (refl : ∀ l, S l l) (append : ∀ {a b c d}, S a b → S c d → S (a ++ c) (b ++ d))
    (outline : ∀ {t u}, R t u → t.isOutline ∧ u.isOutline)
    (changed : ∀ {t u} (above : List Place), R t u → S (t.observe f above) (u.observe f above))
    {t u : Tree} (step : t.Somewhere R u) (above : List Place) :
    S (t.observe f above) (u.observe f above) := by
  suffices both : t.isOutline ∧ u.isOutline ∧ ∀ above, S (t.observe f above) (u.observe f above) from
    both.2.2 above
  clear above
  induction step with
  | here step => exact ⟨(outline step).1, (outline step).2, fun above => changed above step⟩
  | @inside k front rest t u space _ ih =>
      refine ⟨Tree.isOutline_of_isSpace space _, Tree.isOutline_of_isSpace space _, fun above => ?_⟩
      have head : (Tree.node k (front ++ t :: rest)).SameHead (.node k (front ++ u :: rest)) :=
        .space space (by simp [ih.1, ih.2.1])
      have alike : AlikeAround (⟨.node k (front ++ t :: rest), 0, 0⟩ :: above)
          (⟨.node k (front ++ u :: rest), 0, 0⟩ :: above) := .cons head (.refl above)
      have own : f ⟨⟨.node k (front ++ u :: rest), 0, 0⟩, above⟩ =
          f ⟨⟨.node k (front ++ t :: rest), 0, 0⟩, above⟩ :=
        blind _ _ ⟨head, .refl above⟩
      have others (ts : Forest) := List.flatMap_congr fun t (_ : t ∈ ts) => blind.observe_eq t alike
      rw [blind.observe_node, blind.observe_node, own, List.flatMap_append, List.flatMap_append,
        List.flatMap_cons, List.flatMap_cons, others front, others rest, blind.observe_eq u alike]
      exact append (refl _) (append (refl _) (append (ih.2.2 _) (refl _)))

end Node.Blind
end Observing
end SharpRefactor
