import SharpRefactor.Proofs.Parsing.Makes
import SharpRefactor.Proofs.Parsing.Run

/-!
Which kinds of nodes may stand directly in which, and levels of nodes of some kinds. A program whose
nodes may stand anywhere leaves such nodes on a level of such nodes.
-/

namespace SharpRefactor
namespace Kind

def isOutline : Kind → Bool
  | .compilationUnit | .namespaceDeclaration | .classDeclaration | .structDeclaration
  | .interfaceDeclaration | .delegateDeclaration => true
  | _ => false

def admits (outer inner : Kind) : Bool :=
  (!inner.isOutline || outer.isOutline) &&
    (inner != .accessorDeclaration || outer == .accessorList) &&
    (inner != .accessorList || outer == .propertyDeclaration || outer == .eventDeclaration)

def isFree (k : Kind) : Bool := !k.isOutline && k != .accessorDeclaration && k != .accessorList

theorem admits_of_isFree {outer inner : Kind} (free : inner.isFree) : outer.admits inner := by
  simp only [isFree, Bool.and_eq_true, Bool.not_eq_true', bne_iff_ne, ne_eq] at free
  simp [admits, free]

theorem isOutline_of_admits {outer inner : Kind} (admits : outer.admits inner)
    (outline : inner.isOutline) : outer.isOutline := by
  simp only [Kind.admits, Bool.and_eq_true, Bool.or_eq_true, Bool.not_eq_true'] at admits
  simpa [outline] using admits.1.1

theorem eq_accessorList_of_admits {outer : Kind} (admits : outer.admits .accessorDeclaration) :
    outer = .accessorList := by
  cases outer <;> first | rfl | cases admits

theorem declares_of_admits {outer : Kind} (admits : outer.admits .accessorList) :
    outer = .propertyDeclaration ∨ outer = .eventDeclaration := by
  cases outer <;> first | exact .inl rfl | exact .inr rfl | cases admits

/-- All kinds of the outline admit the same: what may stand anywhere, and one another. -/
theorem admits_of_isOutline {k : Kind} (outline : k.isOutline) :
    k.admits = Kind.compilationUnit.admits := by
  funext j
  cases k <;> cases outline <;> rfl

end Kind

inductive Tree.Nested : Tree → Prop where
  | leaf (token : Token) : Nested (.leaf token)
  | node {k : Kind} {ts : Forest} (inside : ∀ t ∈ ts, t.Nested)
      (admitted : ∀ t ∈ ts, t.isNode → k.admits t.kind) : Nested (.node k ts)

/-- Trees on one level, the nodes among them of some kinds. -/
def Level (p : Kind → Bool) (ts : List Tree) : Prop :=
  ∀ t ∈ ts, t.Nested ∧ (t.isNode → p t.kind)

namespace Level

variable {p q : Kind → Bool} {ts us : List Tree}

theorem nil : Level p [] := by simp [Level]

theorem append (first : Level p ts) (rest : Level p us) : Level p (ts ++ us) := by
  intro t member
  rcases List.mem_append.mp member with here | here
  · exact first t here
  · exact rest t here

theorem leaf (token : Token) : Level p [.leaf token] := by
  intro t member
  rw [List.mem_singleton.mp member]
  exact ⟨.leaf token, fun isNode => nomatch isNode⟩

theorem leaves (tokens : List Token) : Level p (tokens.map Tree.leaf) := by
  intro t member
  obtain ⟨token, -, rfl⟩ := List.mem_map.mp member
  exact ⟨.leaf token, fun isNode => nomatch isNode⟩

theorem reverse (level : Level p ts) : Level p ts.reverse :=
  fun t member => level t (List.mem_reverse.mp member)

theorem mono (wider : ∀ k, p k → q k) (level : Level p ts) : Level q ts :=
  fun t member => ⟨(level t member).1, fun isNode => wider _ ((level t member).2 isNode)⟩

theorem node {k : Kind} (level : Level k.admits ts) : (Tree.node k ts).Nested :=
  .node (fun t member => (level t member).1) fun t member => (level t member).2

theorem cons {t : Tree} (nested : t.Nested) (own : p t.kind) (level : Level p ts) :
    Level p (t :: ts) :=
  List.forall_mem_cons.mpr ⟨⟨nested, fun _ => own⟩, level⟩

theorem cons_leaf (token : Token) (level : Level p ts) : Level p (.leaf token :: ts) :=
  (leaf token).append level

theorem flatMap {f : Tree → List Tree} (each : ∀ t ∈ ts, Level p (f t)) :
    Level p (ts.flatMap f) := by
  intro u member
  obtain ⟨t, inside, member⟩ := List.mem_flatMap.mp member
  exact each t inside u member

/-- Trees that may stand anywhere may stand in every node. -/
theorem node_of_isFree {k : Kind} (level : Level Kind.isFree ts) : (Tree.node k ts).Nested :=
  (level.mono fun _ => Kind.admits_of_isFree).node

theorem takeWhile {s : ParseState} (level : Level p s.level) (f : Kind → Bool) :
    Level p (s.takeWhile f).level :=
  (leaves _).reverse.append level

theorem takeOne {s : ParseState} (level : Level p s.level) : Level p s.takeOne.level := by
  unfold ParseState.takeOne
  split
  · exact level
  · exact (leaf _).append level

end Level

namespace Parse

/-- A program that finds nodes of some kinds on its level leaves nodes of some kinds there. -/
def Fills (read : Construct → ParseState → ParseState) (before after : Kind → Bool) {α : Type}
    (p : Parse α) : Prop :=
  ∀ s, Level before s.level → Level after (p.run read s).2.level

namespace Fills

variable {read : Construct → ParseState → ParseState} {before between after : Kind → Bool}
  {α β : Type}

theorem pure (a : α) : (Pure.pure a : Parse α).Fills read after after := fun _ level => level

theorem bind {p : Parse α} {f : α → Parse β} (first : p.Fills read before between)
    (rest : ∀ a, (f a).Fills read between after) : (p >>= f).Fills read before after :=
  fun s level => rest _ _ (first s level)

theorem current : Parse.current.Fills read after after := fun _ level => level.takeWhile _

theorem nth? (n : Nat) : (Parse.nth? n).Fills read after after := fun _ level => level

theorem ahead (question : Lookahead.Question) : (Parse.ahead question).Fills read after after :=
  fun _ level => level

theorem bump : Parse.bump.Fills read after after := fun _ level => (level.takeWhile _).takeOne

theorem skip (f : Kind → Bool) : (Parse.skip f).Fills read after after :=
  fun _ level => level.takeWhile _

theorem fail (e : SyntaxError) : (Parse.fail e).Fills read after after :=
  fun _ level => level.takeWhile _

theorem group {p : Parse α} (inside : p.Fills read Kind.isFree after) :
    (Parse.group p).Fills read after after :=
  fun s level => (inside s.trivia.opened .nil).append (level.takeWhile _)

theorem wrap {k : Kind} {p : Parse α} (inside : p.Fills read before k.admits) (own : after k) :
    (Parse.wrap k p).Fills read before after := by
  intro s level t member
  rw [List.mem_singleton.mp member]
  exact ⟨(inside s level).reverse.node, fun _ => own⟩

/-- A node comes to what is on the level already. -/
theorem node {k : Kind} {p : Parse α} (inside : p.Fills read Kind.isFree k.admits) (own : after k) :
    (Parse.node k p).Fills read after after :=
  group (wrap inside own)

end Fills

end Parse

def Construct.isFree : Construct → Bool
  | .namespaceBody _ | .namespaceMembers _ | .members | .accessors => false
  | _ => true

namespace Parse

def IsFree : {α : Type} → Parse α → Prop
  | _, andThen p f => p.IsFree ∧ ∀ a, (f a).IsFree
  | _, group p => p.IsFree
  | _, wrap k p => k.isFree ∧ p.IsFree
  | _, inner c => c.isFree
  | _, _ => True

@[simp] theorem isFree_iff {α : Type} {p : Parse α} :
    p.IsFree ↔ p.Makes (Kind.isFree ·) (Construct.isFree ·) := by
  induction p with
  | andThen p f ihp ihf => exact and_congr ihp (forall_congr' ihf)
  | group p ih => exact ih
  | wrap k p ih => exact and_congr_right fun _ => ih
  | _ => exact Iff.rfl

end Parse

theorem Construct.rule_isFree {c : Construct} (free : c.isFree) : c.rule.IsFree := by
  refine Parse.isFree_iff.mpr (rule_makes c ?_ ?_)
  · cases c <;> simp_all [builds, Kind.isFree, Kind.isOutline, isFree]
  · cases c <;> simp_all [Meets, isFree]

def Construct.finds : Construct → Kind → Bool
  | .namespaceMembers _ | .members => Kind.compilationUnit.admits
  | .accessors => Kind.accessorList.admits
  | _ => Kind.isFree

def Construct.leaves : Construct → Kind → Bool
  | .namespaceBody _ | .namespaceMembers _ | .members => Kind.compilationUnit.admits
  | .accessors => Kind.accessorList.admits
  | _ => Kind.isFree

theorem Construct.finds_of_isFree {c : Construct} (free : c.isFree) : c.finds = Kind.isFree := by
  cases c <;> first | rfl | cases free

theorem Construct.leaves_of_isFree {c : Construct} (free : c.isFree) :
    c.leaves = Kind.isFree := by
  cases c <;> first | rfl | cases free

namespace Parse

def Nests (read : Construct → ParseState → ParseState) : Prop :=
  ∀ c, (inner c).Fills read c.finds c.leaves

section Filling

variable {read : Construct → ParseState → ParseState} {p : Kind → Bool} {α β : Type}

/-- A program whose nodes may stand anywhere leaves such nodes on a level of such nodes. -/
theorem fills_of_isFree (reads : Nests read) {q : Parse α} (free : q.IsFree) :
    q.Fills read Kind.isFree Kind.isFree := by
  induction q with
  | done a => exact .pure a
  | andThen q f ihq ihf => exact .bind (ihq free.1) fun a => ihf a (free.2 a)
  | current => exact .current
  | nth? n => exact .nth? n
  | ahead question => exact .ahead question
  | bump => exact .bump
  | skip f => exact .skip f
  | fail e => exact .fail e
  | group q ih =>
      intro s level
      exact (ih free _ .nil).append (level.takeWhile _)
  | wrap k q ih =>
      refine .wrap (fun s level => ?_) free.1
      exact (ih free.2 s level).mono fun j => Kind.admits_of_isFree
  | inner c =>
      have own := reads c
      rwa [Construct.finds_of_isFree free, Construct.leaves_of_isFree free] at own

theorem Fills.mono {before before' after after' : Kind → Bool} {q : Parse α}
    (fills : q.Fills read before after) (fewer : ∀ k, before' k → before k)
    (more : ∀ k, after k → after' k) : q.Fills read before' after' :=
  fun s level => (fills s (level.mono fewer)).mono more

/-- What may stand anywhere may stand in every node. -/
theorem fills_admits_of_isFree (reads : Nests read) {k : Kind} {q : Parse α} (free : q.IsFree) :
    q.Fills read Kind.isFree k.admits :=
  (fills_of_isFree reads free).mono (fun _ own => own) fun _ => Kind.admits_of_isFree

/-- A node whose parts may stand anywhere. -/
theorem fills_node (reads : Nests read) {k : Kind} {q : Parse α} (own : p k) (free : q.IsFree) :
    (node k q).Fills read p p :=
  .node (fills_admits_of_isFree reads free) own

end Filling

end Parse
end SharpRefactor
