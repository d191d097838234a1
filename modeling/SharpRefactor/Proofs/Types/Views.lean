import SharpRefactor.Proofs.Syntax.Extents
import SharpRefactor.Proofs.Types.Members
import SharpRefactor.Types.Evaluate

/-!
Views of a tree: which nodes are asked about, and which type parameters may occur in what is answered
at each of them. A view passes on what may occur at a node to the nodes inside it, unless those bring
type parameters of their own.
-/

namespace SharpRefactor

def Kind.introducesTypeParameters (k : Kind) : Bool :=
  k.isTypeDeclaration || k == .delegateDeclaration || k == .methodDeclaration

namespace Node

theorem childOf?_eq_some {n m : Node} {k : Kind} (found : n.childOf? k = some m) :
    m ∈ n.children ∧ m.kind = k :=
  ⟨List.mem_of_find?_eq_some found, by simpa using List.find?_some found⟩

theorem firstChild?_mem {n m : Node} (found : n.firstChild? = some m) : m ∈ n.children :=
  List.mem_of_head? found

theorem secondChild?_mem {n m : Node} (found : n.secondChild? = some m) : m ∈ n.children :=
  List.mem_of_getElem? found

theorem outward_induct {P : Node → Prop} {n : Node} (own : P n)
    (step : ∀ m p, P m → m.parent? = some p → P p) : ∀ a ∈ n.ancestors, P a := by
  obtain ⟨p, above⟩ := n
  induction above generalizing p with
  | nil => simpa [ancestors, outward] using own
  | cons q qs ih =>
      intro a member
      rcases List.mem_cons.mp member with rfl | outer
      · exact own
      · exact ih q (step _ _ own rfl) a outer

end Node

/-- Which nodes are asked about, and which type parameters may occur in the answers. -/
structure View where
  good : Node → Prop
  sees : Node → String → Prop

/-- What a view has to say at least, and how it passes on from a node to those inside. -/
structure View.Fits (v : View) (t : Table) (stray : String → Prop) : Prop where
  stray : ∀ n, v.good n → ∀ name, stray name → v.sees n name
  own : ∀ n, v.good n → ∀ name ∈ (Scope.around n).typeParameters, v.sees n name
  self : ∀ n, v.good n → ∀ k ∈ (Scope.around n).types, ∀ d, t.find? k = some d →
    ∀ name ∈ d.typeParameters, v.sees n name
  outward : ∀ n m, v.good n → n.parent? = some m → v.good m ∧ ∀ name, v.sees m name → v.sees n name
  inward : ∀ n m, v.good n → m ∈ n.children → v.good m
  inside : ∀ n m, v.good n → m ∈ n.children → m.introducesTypeParameters = false →
    ∀ name, v.sees m name → v.sees n name

def View.Passes (v : View) (m n : Node) : Prop := v.good m ∧ ∀ name, v.sees m name → v.sees n name

namespace View.Passes

variable {v : View} {t : Table} {stray : String → Prop} {l m n : Node}

theorem refl (good : v.good n) : v.Passes n n := ⟨good, fun _ seen => seen⟩

theorem trans (inner : v.Passes l m) (outer : v.Passes m n) : v.Passes l n :=
  ⟨inner.1, fun name seen => outer.2 name (inner.2 name seen)⟩

theorem parent (h : v.Passes m n) (fits : v.Fits t stray) (up : m.parent? = some l) :
    v.Passes l n :=
  trans (fits.outward m l h.1 up) h

theorem child (h : v.Passes m n) (fits : v.Fits t stray) (member : l ∈ m.children)
    (plain : l.introducesTypeParameters = false) : v.Passes l n :=
  trans ⟨fits.inward m l h.1 member, fits.inside m l h.1 member plain⟩ h

theorem ancestors (h : v.Passes m n) (fits : v.Fits t stray) : ∀ a ∈ m.ancestors, v.Passes a n :=
  Node.outward_induct h fun _ _ inner up => inner.parent fits up

theorem built {keys : TypeKey → Prop} {type : Ty} (h : v.Passes m n)
    (known : type.BuiltFrom keys (v.sees m)) : type.BuiltFrom keys (v.sees n) :=
  known.mono (fun _ key => key) h.2

/-- What the syntax around a node means. -/
theorem resolve {keys : TypeKey → Prop} {type : Ty} {syntax_ : TypeSyntax} (h : v.Passes m n)
    (fits : v.Fits t stray) (closed : t.Closed keys stray)
    (found : t.resolve (.around m) syntax_ = some type) : type.BuiltFrom keys (v.sees n) :=
  h.built ((closed.admits.resolve found).mono (fun _ key => key) (fits.own m h.1))

end View.Passes

def View.Reaches (v : View) (m n : Node) : Prop :=
  v.good m ∧ (m.introducesTypeParameters = false → ∀ name, v.sees m name → v.sees n name)

namespace View.Passes

variable {v : View} {t : Table} {stray : String → Prop} {l m n : Node}

theorem reaches (h : v.Passes m n) : v.Reaches m n := ⟨h.1, fun _ => h.2⟩

theorem reaches_child (h : v.Passes m n) (fits : v.Fits t stray) (member : l ∈ m.children) :
    v.Reaches l n :=
  ⟨fits.inward m l h.1 member, fun plain => (h.child fits member plain).2⟩

theorem childOf (h : v.Passes m n) (fits : v.Fits t stray) {k : Kind} (found : m.childOf? k = some l)
    (plain : k.introducesTypeParameters = false) : v.Passes l n := by
  obtain ⟨member, rfl⟩ := Node.childOf?_eq_some found
  exact h.child fits member plain

theorem childrenOf (h : v.Passes m n) (fits : v.Fits t stray) {k : Kind} (found : l ∈ m.childrenOf k)
    (plain : k.introducesTypeParameters = false) : v.Passes l n := by
  obtain ⟨member, same⟩ := List.mem_filter.mp found
  obtain rfl := beq_iff_eq.mp same
  exact h.child fits member plain

end View.Passes

structure Judge.Within (j : Judge) (v : View) (keys : TypeKey → Prop) : Prop where
  denotes : ∀ n, v.good n → ∀ d, j.denotes n = some d →
    n.introducesTypeParameters = false ∧ d.BuiltFrom keys (v.sees n)
  target : ∀ n, v.good n → ∀ type, j.target n = some type → type.BuiltFrom keys (v.sees n)

namespace Judge.Within

variable {j : Judge} {v : View} {keys : TypeKey → Prop} {m n : Node} {type : Ty}
  (within : j.Within v keys)

include within

theorem denotes_at {d : Denotation} (r : v.Reaches m n) (found : j.denotes m = some d) :
    d.BuiltFrom keys (v.sees n) := by
  obtain ⟨plain, built⟩ := within.denotes m r.1 d found
  exact built.mono (r.2 plain)

theorem valueType_at (r : v.Reaches m n) (found : j.valueType m = some type) :
    type.BuiltFrom keys (v.sees n) := by
  unfold Judge.valueType at found
  split at found
  · next value =>
      cases found
      exact within.denotes_at r value
  · cases found

theorem target_at (h : v.Passes m n) (found : j.target m = some type) :
    type.BuiltFrom keys (v.sees n) :=
  h.built (within.target m h.1 type found)

end Judge.Within

end SharpRefactor
