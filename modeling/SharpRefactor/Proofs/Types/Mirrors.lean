import SharpRefactor.Proofs.Parsing.Nesting
import SharpRefactor.Proofs.Syntax.Exchange.Offsets
import SharpRefactor.Types.Declare

/-!
Nodes that say the same. Where a correspondence between nodes keeps their kinds, their tokens, the
types that they spell and most of their children, it keeps what declarations and directives are read
from; and if it keeps the scopes too, it keeps what declarations say about their types. What is
declared inside a node may change, and so may an expression that is asked for a type.
-/

namespace SharpRefactor

namespace Kind

/-- The nodes that may ask an expression in them for a type. -/
def asks : Kind → Bool
  | .equalsValueClause | .assignmentExpression | .argument | .returnStatement
  | .arrowExpressionClause | .simpleLambdaExpression | .parenthesizedLambdaExpression
  | .castExpression | .parenthesizedExpression => true
  | _ => false

/-- The kinds between which an expression is exchanged for a function without a name. -/
def isExchanged : Kind → Bool
  | .identifierName | .memberAccessExpression | .anonymousMethodExpression => true
  | _ => false

def isKept (k : Kind) : Bool := !k.isOutline && !k.isExchanged

def keeps (outer inner : Kind) : Bool := !inner.isOutline && !(outer.asks && inner.isExchanged)

theorem keeps_of_isKept {outer inner : Kind} (kept : inner.isKept) : outer.keeps inner := by
  simp only [isKept, Bool.and_eq_true, Bool.not_eq_true'] at kept
  simp [keeps, kept]

theorem keeps_of_silent {outer inner : Kind} (silent : outer.asks = false)
    (plain : inner.isOutline = false) : outer.keeps inner := by
  simp [keeps, silent, plain]

theorem isOutline_of_isType {k : Kind} (type : k.isType) : k.isOutline = false := by
  cases k <;> first | rfl | cases type

end Kind

def SameToken (t t' : PlacedToken) : Prop := t.token = t'.token

theorem SameToken.kind_eq {t t' : PlacedToken} (same : SameToken t t') : t'.kind = t.kind :=
  congrArg Token.kind (Eq.symm same)

theorem SameToken.text_eq {t t' : PlacedToken} (same : SameToken t t') : t'.text = t.text :=
  congrArg Token.text (Eq.symm same)

/-- A header enters the same as another one with the same directives. -/
theorem Scope.enterAll_congr {header header' : Node}
    (same : ∀ name, NamespaceScope.withUsings name header' = NamespaceScope.withUsings name header)
    (names : List String) (spaces : List NamespaceScope) :
    enterAll header' names spaces = enterAll header names spaces := by
  induction names generalizing spaces with
  | nil => rfl
  | cons name names ih =>
      cases names with
      | nil => rw [enterAll, enterAll, same]
      | cons next names => exact ih _

namespace Node

/-! ### Names that declarations give -/

structure SameTokens (n n' : Node) : Prop where
  kind_eq : n'.kind = n.kind
  tokens : List.Forall₂ SameToken n.tokens n'.tokens

namespace SameTokens

variable {n n' : Node} (same : n.SameTokens n')

include same

/-- The first token of some kind. -/
theorem tokenWhere? (p : Kind → Bool) :
    Option.Rel SameToken (n.tokens.find? (p ·.kind)) (n'.tokens.find? (p ·.kind)) :=
  List.Forall₂.find? same.tokens fun _ _ same => by rw [SameToken.kind_eq same]

theorem lastIdentifier? : Option.Rel SameToken n.lastIdentifier? n'.lastIdentifier? := by
  have names := List.Forall₂.filter (p := (·.kind == .identifier)) (q := (·.kind == .identifier))
    same.tokens fun _ _ same => by rw [SameToken.kind_eq same]
  rw [Node.lastIdentifier?, Node.lastIdentifier?, List.getLast?_eq_head?_reverse,
    List.getLast?_eq_head?_reverse]
  exact List.Forall₂.head? (List.rel_reverse names)

theorem declaredName? : Option.Rel SameToken n.declaredName? n'.declaredName? := by
  rw [Node.declaredName?, Node.declaredName?, same.kind_eq]
  split
  · exact same.tokenWhere? (· == .identifier)
  · exact same.lastIdentifier?

theorem declaredWord?_eq : n'.declaredWord? = n.declaredWord? :=
  same.declaredName?.map_eq fun _ _ same => by rw [same.text_eq]

theorem nameText_eq : n'.nameText = n.nameText :=
  congrArg (Option.getD · "") ((same.tokenWhere? (· == .identifier)).map_eq fun _ _ same => by
    rw [same.text_eq])

theorem firstIdentifier_text : n'.firstIdentifier?.map PlacedToken.text =
    n.firstIdentifier?.map PlacedToken.text :=
  (same.tokenWhere? (· == .identifier)).map_eq fun _ _ same => same.text_eq

theorem declaredForm?_eq : n'.declaredForm? = n.declaredForm? := by
  rw [declaredForm?, declaredForm?, same.kind_eq]

theorem isStatic_eq : n'.isStatic = n.isStatic := by
  have token := same.tokenWhere? (· == .staticKw)
  change (n'.tokens.find? (·.kind == .staticKw)).isSome = (n.tokens.find? (·.kind == .staticKw)).isSome
  generalize n.tokens.find? (·.kind == .staticKw) = a,
    n'.tokens.find? (·.kind == .staticKw) = b at token
  cases token <;> rfl

end SameTokens

/-- A correspondence of nodes that keeps what is read from them. -/
structure Mirror (R : Node → Node → Prop) : Prop where
  sameTokens : ∀ {n n'}, R n n' → n.SameTokens n'
  typeSyntax_eq : ∀ {n n'}, R n n' → n'.typeSyntax = n.typeSyntax
  childrenWhere : ∀ {n n' : Node} {p : Kind → Bool}, R n n' → (∀ k, p k → n.kind.keeps k) →
    List.Forall₂ R (n.children.filter (p ·.kind)) (n'.children.filter (p ·.kind))

namespace Mirror

variable {R : Node → Node → Prop} {n n' : Node} (mirror : Mirror R) (r : R n n')

include mirror r

theorem kind_eq : n'.kind = n.kind := (mirror.sameTokens r).kind_eq

theorem childrenOf {k : Kind} (kept : k.isKept) :
    List.Forall₂ (fun m m' => R m m' ∧ m.kind = k) (n.childrenOf k) (n'.childrenOf k) := by
  have same := mirror.childrenWhere (p := (· == k)) r fun k' own => by
    obtain rfl : k' = k := by simpa using own
    exact Kind.keeps_of_isKept kept
  refine ((List.forall₂_and_left _ _).mpr ⟨fun _ member => member, same⟩).imp ?_
  exact fun m m' own => ⟨own.2, by simpa using (List.mem_filter.mp own.1).2⟩

theorem childOf? {k : Kind} (kept : k.isKept) :
    Option.Rel (fun m m' => R m m' ∧ m.kind = k) (n.childOf? k) (n'.childOf? k) := by
  rw [Node.childOf?, Node.childOf?, childWhere?, childWhere?, ← List.head?_filter, ← List.head?_filter]
  exact (mirror.childrenOf r kept).head?

/-- The children that spell types, where none of them is asked for its type. -/
theorem typeChildren (silent : n.kind.asks = false) :
    List.Forall₂ R n.typeChildren n'.typeChildren :=
  mirror.childrenWhere r fun _ type => Kind.keeps_of_silent silent (Kind.isOutline_of_isType type)

theorem declaredType?_eq (silent : n.kind.asks = false) : n'.declaredType? = n.declaredType? := by
  rw [declaredType?, declaredType?, typeChild?, typeChild?, childWhere?, childWhere?,
    ← List.head?_filter, ← List.head?_filter]
  exact (mirror.typeChildren r silent).head?.map_eq fun _ _ both => mirror.typeSyntax_eq both

theorem typeParameterNames_eq : n'.typeParameterNames = n.typeParameterNames := by
  refine congrArg (Option.getD · []) ?_
  refine (mirror.childOf? r (k := .typeParameterList) rfl).map_eq fun _ _ list => ?_
  refine List.Forall₂.filterMap_eq (mirror.childrenOf list.1 (k := .typeParameter) rfl)
    fun _ _ own => (mirror.sameTokens own.1).firstIdentifier_text

/-! ### Directives -/

theorem alias? : Option.Rel R n.alias? n'.alias? := by
  refine (mirror.childOf? r (k := .nameEquals) rfl).bind fun m m' own => ?_
  have silent : m.kind.asks = false := by rw [own.2]; rfl
  rw [Node.childOf?, Node.childOf?, childWhere?, childWhere?, ← List.head?_filter, ← List.head?_filter]
  refine (mirror.childrenWhere own.1 (p := (· == .identifierName)) fun k name => ?_).head?
  obtain rfl : k = .identifierName := by simpa using name
  exact Kind.keeps_of_silent silent rfl

theorem direct_eq (s : NamespaceScope) (directive : n.kind = .usingDirective) :
    s.direct n' = s.direct n := by
  have silent : n.kind.asks = false := by rw [directive]; rfl
  have named := mirror.alias? r
  rw [NamespaceScope.direct, NamespaceScope.direct, mirror.declaredType?_eq r silent]
  cases n.declaredType? with
  | none => rfl
  | some target =>
      dsimp only
      generalize n.alias? = name, n'.alias? = name' at named
      cases named with
      | none => rfl
      | some own => simp only [(mirror.sameTokens own).nameText_eq]

theorem withUsings_eq (name : String) :
    NamespaceScope.withUsings name n' = NamespaceScope.withUsings name n :=
  List.Forall₂.foldl_eq (mirror.childrenOf r (k := .usingDirective) rfl)
    (fun s _ _ own => mirror.direct_eq own.1 s own.2) _

theorem enterAll_eq (names : List String) (spaces : List NamespaceScope) :
    Scope.enterAll n' names spaces = Scope.enterAll n names spaces :=
  Scope.enterAll_congr (mirror.withUsings_eq r) names spaces

theorem headerPath_eq (header : n.kind = .namespaceDeclaration) :
    Scope.headerPath n' = Scope.headerPath n := by
  rw [Scope.headerPath, Scope.headerPath, mirror.declaredType?_eq r (by rw [header]; rfl)]

theorem enter_eq (spaces : List NamespaceScope) (header : n.kind = .namespaceDeclaration) :
    Scope.enter spaces n' = Scope.enter spaces n := by
  rw [Scope.enter, Scope.enter, mirror.headerPath_eq r header, mirror.enterAll_eq r]

theorem keyIn_eq (outer : Option (Option TypeKey))
    (space : Scope.namespaceAt n' = Scope.namespaceAt n) :
    Node.keyIn outer n' = Node.keyIn outer n := by
  refine (mirror.sameTokens r).declaredName?.bind_eq fun token token' same => ?_
  rw [space, mirror.typeParameterNames_eq r, same.text_eq]

/-! ### Declarations -/

theorem parameters?_eq (t : Table) (s : Scope) : t.parameters? s n' = t.parameters? s n := by
  refine List.Forall₂.mapM_eq (mirror.childrenOf r (k := .parameter) rfl) fun p p' own => ?_
  have silent : p.kind.asks = false := by rw [own.2]; rfl
  rw [mirror.declaredType?_eq own.1 silent, (mirror.sameTokens own.1).declaredWord?_eq]

theorem signature?_eq (t : Table) (s : Scope) (silent : n.kind.asks = false) :
    t.signature? s n' = t.signature? s n := by
  have lists : Option.Rel (fun m m' => R m m' ∧ m.kind = .parameterList) n.parameterList?
    n'.parameterList? := mirror.childOf? r rfl
  rw [Table.signature?, Table.signature?, mirror.declaredType?_eq r silent]
  generalize n.parameterList? = list, n'.parameterList? = list' at lists
  cases lists with
  | none => rfl
  | some own => simp only [Option.bind_eq_bind, Option.bind_some, mirror.parameters?_eq own.1 t s]

theorem variableMembers_eq (t : Table) (s : Scope) (form : MemberForm) :
    t.variableMembers s form n' = t.variableMembers s form n := by
  have found : Option.Rel (fun m m' => R m m' ∧ m.kind = .variableDeclaration) n.variables?
    n'.variables? := mirror.childOf? r rfl
  rw [Table.variableMembers, Table.variableMembers, (mirror.sameTokens r).isStatic_eq]
  generalize n.variables? = d, n'.variables? = d' at found
  cases found with
  | none => rfl
  | @some d d' own =>
      have silent : d.kind.asks = false := by rw [own.2]; rfl
      simp only [mirror.declaredType?_eq own.1 silent]
      cases d.declaredType?.bind (t.resolve s) with
      | none => rfl
      | some type =>
          exact List.Forall₂.filterMap_eq (mirror.childrenOf own.1 (k := .variableDeclarator) rfl)
            fun _ _ own => by rw [(mirror.sameTokens own.1).declaredWord?_eq]

theorem property?_eq (t : Table) (s : Scope) (form : MemberForm) (silent : n.kind.asks = false) :
    t.property? s form n' = t.property? s form n := by
  rw [Table.property?, Table.property?, mirror.declaredType?_eq r silent,
    (mirror.sameTokens r).declaredWord?_eq, (mirror.sameTokens r).isStatic_eq]

theorem bases_eq (t : Table) (s : Scope) :
    (n'.childOf? .baseList).map (fun list =>
        list.typeChildren.filterMap fun b => t.resolve s b.typeSyntax) =
      (n.childOf? .baseList).map (fun list =>
        list.typeChildren.filterMap fun b => t.resolve s b.typeSyntax) := by
  refine (mirror.childOf? r rfl).map_eq fun list list' own => ?_
  have silent : list.kind.asks = false := by rw [own.2]; rfl
  exact List.Forall₂.filterMap_eq (mirror.typeChildren own.1 silent) fun _ _ both => by
    rw [mirror.typeSyntax_eq both]

variable (around : ∀ {n n'}, R n n' → Scope.around n' = Scope.around n)

include around

theorem method?_eq (t : Table) (silent : n.kind.asks = false) : t.method? n' = t.method? n := by
  rw [Table.method?, Table.method?, (mirror.sameTokens r).declaredWord?_eq, around r,
    mirror.signature?_eq r t _ silent, mirror.typeParameterNames_eq r,
      (mirror.sameTokens r).isStatic_eq]

theorem membersOf_eq (t : Table) : t.membersOf n' = t.membersOf n := by
  have silent {k : Kind} (quiet : k.asks = false) {m m' : Node} (own : R m m' ∧ m.kind = k) :
      m.kind.asks = false := own.2 ▸ quiet
  have methods := List.Forall₂.filterMap_eq (mirror.childrenOf r (k := .methodDeclaration) rfl)
    fun _ _ own => mirror.method?_eq own.1 around t (silent rfl own)
  have constructors := List.Forall₂.filterMap_eq
    (f := fun c => c.parameterList?.bind (t.parameters? (Scope.around n)))
    (g := fun c => c.parameterList?.bind (t.parameters? (Scope.around n)))
    (mirror.childrenOf r (k := .constructorDeclaration) rfl) fun _ _ own =>
      (mirror.childOf? own.1 (k := .parameterList) rfl).bind_eq fun _ _ list =>
        mirror.parameters?_eq list.1 t _
  have fields := List.Forall₂.flatMap_eq (mirror.childrenOf r (k := .fieldDeclaration) rfl)
    fun _ _ own => mirror.variableMembers_eq own.1 t (Scope.around n) .field
  have eventFields := List.Forall₂.flatMap_eq
    (mirror.childrenOf r (k := .eventFieldDeclaration) rfl)
    fun _ _ own => mirror.variableMembers_eq own.1 t (Scope.around n) .event
  have properties := List.Forall₂.filterMap_eq (mirror.childrenOf r (k := .propertyDeclaration) rfl)
    fun _ _ own => mirror.property?_eq own.1 t (Scope.around n) .property (silent rfl own)
  have events := List.Forall₂.filterMap_eq (mirror.childrenOf r (k := .eventDeclaration) rfl)
    fun _ _ own => mirror.property?_eq own.1 t (Scope.around n) .event (silent rfl own)
  simp only [Table.membersOf, around r, mirror.bases_eq r t _, methods, constructors, fields,
    eventFields, properties, events]

theorem contentsOf_eq (t : Table) : t.contentsOf n' = t.contentsOf n := by
  rw [Table.contentsOf, Table.contentsOf, mirror.kind_eq r, mirror.membersOf_eq r around t, around r]
  split
  · next delegate => rw [mirror.signature?_eq r t _ (by rw [delegate]; rfl)]
  · rfl

end Mirror
end Node
end SharpRefactor
