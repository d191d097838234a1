import SharpRefactor.Proofs.Syntax.Paths

/-!
Identities and the trees they stand for. A reading of identities gives each of them a tree. A
version is sound under a reading if all its parts have the identities of their trees; a new version
brings new identities, for which any sound reading can be continued, so versions of one identity
never differ.
-/

namespace SharpRefactor
namespace Identity

def serial : Identity → Nat
  | .made n _ | .alike n _ _ => n

abbrev Reading := Identity → Option Tree

/-- A reading continued by the identities of one step, whose result is `root`. -/
def Reading.continued (w : Reading) (n : Nat) (root : Tree) : Reading
  | .made m path => if m = n then root.get? path else w (.made m path)
  | .alike m place content => if m = n then some content else w (.alike m place content)

theorem Reading.continued_old (w : Reading) {n : Nat} (root : Tree) {i : Identity}
    (old : i.serial < n) : w.continued n root i = w i := by
  cases i with
  | made m path => exact if_neg (Nat.ne_of_lt old)
  | alike m place content => exact if_neg (Nat.ne_of_lt old)

/-- An identity that one step has given to the subtree `content` at `path`. -/
def GivenTo (n : Nat) (path : List Nat) (content : Tree) (i : Identity) : Prop :=
  i = .made n path ∨ ∃ place, i = .alike n place content

theorem ofRead_of_get? {n : Nat} {root u : Tree} (place : List Nat) {path : List Nat}
    (found : root.get? path = some u) :
    ofRead n root place path =
      if path ≠ place ∧ u.isSmall then .alike n place u else .made n path := by
  simp only [ofRead, found]

theorem ofRead_eq_or {n : Nat} {root u : Tree} (place : List Nat) {path : List Nat}
    (found : root.get? path = some u) :
    ofRead n root place path = .made n path ∨ ofRead n root place path = .alike n place u := by
  rw [ofRead_of_get? place found]
  split
  · exact .inr rfl
  · exact .inl rfl

theorem givenTo_ofRead {n : Nat} {root u : Tree} (place : List Nat) {path : List Nat}
    (found : root.get? path = some u) : GivenTo n path u (.ofRead n root place path) :=
  (ofRead_eq_or place found).imp_right fun alike => ⟨place, alike⟩

theorem givenTo_built {n : Nat} {root u : Tree} {path : List Nat}
    (found : root.get? path = some u) :
    GivenTo n path u ((Origin.built n root).identityAt path) := by
  rw [Origin.identityAt]
  split
  · exact givenTo_ofRead _ found
  · exact .inl rfl

end Identity

namespace Tree

theorem get?_append (is js : List Nat) (t : Tree) :
    t.get? (is ++ js) = (t.get? is).bind (get? js) := by
  induction is generalizing t with
  | nil => rfl
  | cons i is ih =>
      rw [List.cons_append, get?_cons, get?_cons, Option.bind_assoc]
      exact Option.bind_congr fun u _ => ih u

theorem get?_splice_below (graft : Tree) {at_ : List Nat} {t u : Tree} (h : t.get? at_ = some u)
    (is : List Nat) : (graft.splice at_ t).get? (at_ ++ is) = graft.get? is := by
  induction at_ generalizing t with
  | nil => rfl
  | cons i at_ ih =>
      obtain ⟨child, found, rest⟩ := Option.bind_eq_some_iff.mp h
      cases t with
      | leaf token => cases found
      | node k ts =>
          rw [List.cons_append, splice_cons, get?_cons, children, List.getElem?_modify,
            show ts[i]? = some child from found]
          simpa using ih rest

theorem get?_splice_aside (graft : Tree) {at_ is : List Nat} (below : ¬ at_ <+: is)
    (above : ¬ is <+: at_) (t : Tree) : (graft.splice at_ t).get? is = t.get? is := by
  induction at_ generalizing t is with
  | nil => exact absurd List.nil_prefix below
  | cons i at_ ih =>
      cases is with
      | nil => exact absurd List.nil_prefix above
      | cons j is =>
          cases t with
          | leaf token => rfl
          | node k ts =>
              rw [splice_cons, get?_cons, get?_cons, children, children, List.getElem?_modify]
              by_cases same : i = j
              · subst same
                rw [List.cons_prefix_cons] at below above
                cases ts[i]? with
                | none => rfl
                | some child => simpa using ih (by simpa using below) (by simpa using above) child
              · cases ts[j]? <;> simp [same]

theorem splice_isNode {graft t : Tree} {at_ : List Nat} (new : graft.isNode) (old : t.isNode) :
    (graft.splice at_ t).isNode := by
  cases at_ with
  | nil => exact new
  | cons i at_ =>
      cases t with
      | leaf token => cases old
      | node k ts => rfl

end Tree

open Identity

namespace SyntaxTree

/-- A version all of whose parts are the trees that their identities stand for, none of them made in
a step from `limit` on. -/
structure Sound (w : Reading) (limit : Nat) (t : SyntaxTree) : Prop where
  isNode : t.root.isNode
  parts : ∀ path u, t.root.get? path = some u →
    (t.origin.identityAt path).serial < limit ∧ w (t.origin.identityAt path) = some u

variable {w : Reading} {n : Nat} {s t : SyntaxTree}

theorem Sound.serial_lt (h : t.Sound w n) : t.identity.serial < n := (h.parts [] _ rfl).1

/-- An identity belongs to a single tree. -/
theorem Sound.root_eq (hs : s.Sound w n) (ht : t.Sound w n) (same : s.identity = t.identity) :
    s.root = t.root := by
  have first := (hs.parts [] _ rfl).2
  have second := (ht.parts [] _ rfl).2
  rw [show s.origin.identityAt [] = t.origin.identityAt [] from same, second] at first
  exact (Option.some.inj first).symm

theorem Sound.mono {m : Nat} (h : t.Sound w n) (le : n ≤ m) : t.Sound w m :=
  ⟨h.isNode, fun path u found =>
    ⟨Nat.lt_of_lt_of_le (h.parts path u found).1 le, (h.parts path u found).2⟩⟩

/-- What was sound stays sound. -/
theorem Sound.continued (h : t.Sound w n) (root : Tree) :
    t.Sound (w.continued n root) (n + 1) :=
  ⟨h.isNode, fun path u found => by
    obtain ⟨old, means⟩ := h.parts path u found
    exact ⟨Nat.lt_succ_of_lt old, (Reading.continued_old w root old).trans means⟩⟩

/-- A new version is sound if each part of it is new or has the identity of an old part. -/
theorem sound_new (isNode : t.root.isNode)
    (parts : ∀ path u, t.root.get? path = some u →
      GivenTo n path u (t.origin.identityAt path) ∨
        ((t.origin.identityAt path).serial < n ∧ w (t.origin.identityAt path) = some u)) :
    t.Sound (w.continued n t.root) (n + 1) := by
  refine ⟨isNode, fun path u found => ?_⟩
  rcases parts path u found with (made | ⟨place, alike⟩) | ⟨old, means⟩
  · rw [made]
    exact ⟨Nat.lt_succ_self n, (if_pos rfl).trans found⟩
  · rw [alike]
    exact ⟨Nat.lt_succ_self n, if_pos rfl⟩
  · exact ⟨Nat.lt_succ_of_lt old, (Reading.continued_old w _ old).trans means⟩

theorem sound_parsed (w : Reading) (n : Nat) {root : Tree} (isNode : root.isNode) :
    Sound (w.continued n root) (n + 1) ⟨root, .parsed n root⟩ :=
  sound_new (t := ⟨root, .parsed n root⟩) isNode fun _ _ found => .inl (givenTo_ofRead [] found)

theorem sound_built (w : Reading) (n : Nat) {root : Tree} (isNode : root.isNode) :
    Sound (w.continued n root) (n + 1) ⟨root, .built n root⟩ :=
  sound_new (t := ⟨root, .built n root⟩) isNode fun _ _ found => .inl (givenTo_built found)

/-- A version into which an old tree was put is sound if the rest of it is new or old. -/
theorem sound_spliced {base : Origin} {at_ : List Nat} {graft : SyntaxTree} (isNode : t.root.isNode)
    (origin : t.origin = .spliced n base at_ graft.origin) (sound : graft.Sound w n)
    (put : t.root.get? at_ = some graft.root)
    (rest : ∀ path u, t.root.get? path = some u → ¬ at_ <+: path → ¬ path <+: at_ →
      GivenTo n path u (base.identityAt path) ∨
        ((base.identityAt path).serial < n ∧ w (base.identityAt path) = some u)) :
    t.Sound (w.continued n t.root) (n + 1) := by
  refine sound_new isNode fun path u found => ?_
  rw [origin, Origin.identityAt]
  by_cases below : at_ <+: path
  · obtain ⟨js, rfl⟩ := below
    rw [Tree.get?_append, put] at found
    rw [if_pos (by simp), List.drop_left]
    exact .inr (sound.parts js u found)
  by_cases above : path <+: at_
  · rw [if_neg (by simpa using below), if_pos (by simpa using above)]
    exact .inl (.inl rfl)
  · rw [if_neg (by simpa using below), if_neg (by simpa using above)]
    exact rest path u found below above

/-- Replacing a node of a sound version by a sound tree makes a sound version. -/
theorem sound_replace {n : Nat} {at_ : List Nat} {old : Tree} {graft : SyntaxTree}
    (ht : t.Sound w n) (hg : graft.Sound w n) (led : t.root.get? at_ = some old) :
    let new : SyntaxTree := ⟨graft.root.splice at_ t.root, .spliced n t.origin at_ graft.origin⟩
    new.Sound (w.continued n new.root) (n + 1) := by
  intro new
  refine sound_spliced (Tree.splice_isNode hg.isNode ht.isNode) rfl hg ?_
    fun path u found below above => ?_
  · have put := Tree.get?_splice_below graft.root led []
    rwa [List.append_nil] at put
  · rw [show new.root.get? path = t.root.get? path from
      Tree.get?_splice_aside graft.root below above t.root] at found
    exact .inr (ht.parts path u found)

end SyntaxTree

structure Handle.TakenFrom (trees : List SyntaxTree) (h : Handle) : Prop where
  home : h.home ∈ trees
  inside : h.node ∈ h.home.rootNode.descendants

namespace Handle

variable {trees : List SyntaxTree} {h : Handle}

theorem TakenFrom.get? (taken : h.TakenFrom trees) :
    h.home.root.get? h.node.path = some h.node.tree :=
  Node.get?_of_follow? (Node.mem_descendants_root.mp taken.inside).2

theorem TakenFrom.isNode (taken : h.TakenFrom trees) : h.node.tree.isNode := by
  obtain ⟨own, led⟩ := Node.mem_descendants_root.mp taken.inside
  exact Node.isNode_of_follow? (n := .root h.home.root) own led

theorem TakenFrom.mono {more : List SyntaxTree} (taken : h.TakenFrom trees)
    (le : trees ⊆ more) : h.TakenFrom more :=
  ⟨le taken.home, taken.inside⟩

/-- What a node of a sound version holds is sound by itself. -/
theorem TakenFrom.subtree_sound {w : Reading} {n : Nat} (taken : h.TakenFrom trees)
    (sound : h.home.Sound w n) : h.subtree.Sound w n := by
  refine ⟨taken.isNode, fun path u found => ?_⟩
  have whole : h.home.root.get? (h.node.path ++ path) = some u := by
    rw [Tree.get?_append, taken.get?]
    exact found
  exact sound.parts _ u whole

end Handle
end SharpRefactor
