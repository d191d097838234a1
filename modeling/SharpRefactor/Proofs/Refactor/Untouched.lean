import SharpRefactor.Proofs.Refactor.History
import SharpRefactor.Proofs.Syntax.Extents

/-!
What the replacement of a node leaves alone. A way through the new version leads to the replacement,
past the nodes around it, or aside. Around it a node keeps its kind and the number of its children;
aside every part is the part it was, with the same identity. The version that is edited stays as it
is: a session holds it beside the new one.
-/

namespace SharpRefactor

/-- The nodes on the way to a spliced tree keep their kinds and the number of their children. -/
theorem Tree.get?_splice_around (graft : Tree) {at_ is : List Nat} {t u : Tree}
    (led : t.get? at_ = some u) (above : is <+: at_) (proper : is ≠ at_) :
    ∃ (k : Kind) (ts ts' : Forest), t.get? is = some (.node k ts) ∧
      (graft.splice at_ t).get? is = some (.node k ts') ∧ ts'.length = ts.length := by
  induction at_ generalizing t is with
  | nil => exact absurd (List.prefix_nil.mp above) proper
  | cons i at_ ih =>
      obtain ⟨child, found, rest⟩ := Option.bind_eq_some_iff.mp led
      cases t with
      | leaf token => cases found
      | node k ts =>
          cases is with
          | nil => exact ⟨k, ts, _, rfl, rfl, List.length_modify ..⟩
          | cons j is =>
              obtain ⟨rfl, further⟩ := List.cons_prefix_cons.mp above
              obtain ⟨k', us, us', old, new, count⟩ :=
                ih rest further fun same => proper (congrArg (j :: ·) same)
              have found : ts[j]? = some child := found
              refine ⟨k', us, us', ?_, ?_, count⟩
              · rw [get?_cons, children, found]
                exact old
              · rw [splice_cons, get?_cons, children, List.getElem?_modify, found]
                simpa using new

/-- A version in which a node has given way to another tree, and nothing else has changed. -/
structure SyntaxTree.Replaces (t : SyntaxTree) (n : Node) (graft new : SyntaxTree) : Prop where
  target : new.root.get? n.path = some graft.root
  around : ∀ is, is <+: n.path → is ≠ n.path → ∃ (k : Kind) (ts ts' : Forest),
    t.root.get? is = some (.node k ts) ∧ new.root.get? is = some (.node k ts') ∧
      ts'.length = ts.length
  aside : ∀ is, ¬ n.path <+: is → ¬ is <+: n.path →
    new.root.get? is = t.root.get? is ∧ new.origin.identityAt is = t.origin.identityAt is
  length : new.text.utf8ByteSize + n.text.utf8ByteSize =
    t.text.utf8ByteSize + graft.text.utf8ByteSize

namespace SyntaxTree

variable {t : SyntaxTree} {n : Node}

theorem replaces_splice (inside : n ∈ t.rootNode.descendants) (graft : SyntaxTree) (serial : Nat) :
    t.Replaces n graft ⟨graft.root.splice n.path t.root,
      .spliced serial t.origin n.path graft.origin⟩ := by
  have led : t.root.get? n.path = some n.tree :=
    Node.get?_of_follow? (Node.mem_descendants_root.mp inside).2
  refine ⟨?_, fun is above proper => Tree.get?_splice_around graft.root led above proper,
    fun is below above => ⟨Tree.get?_splice_aside graft.root below above t.root, ?_⟩, ?_⟩
  · have put := Tree.get?_splice_below graft.root led []
    rwa [List.append_nil] at put
  · rw [Origin.identityAt, if_neg (by simpa using below), if_neg (by simpa using above)]
  · have sizes := Tree.size_splice graft.root led
    simp only [Tree.size_eq] at sizes
    exact sizes

end SyntaxTree

/-- A replacement in a session: the version that is named keeps its place among the versions, and
the new one is held behind them. -/
theorem Session.replace_eq_ok {w : Identity.Reading} {s s' : Session} (h : s.Consistent w)
    {node : NodeRef} {g : GraftRef} {r : TreeRef} {i : Nat} {new : SyntaxTree}
    (ran : (Session.replace node g r).run s = .ok ((i, new), s')) :
    ∃ t, ∃ target : Handle, ∃ graft, s.trees[r.index]? = some t ∧ target.TakenFrom s.trees ∧
      t.Replaces target.node graft new ∧ s'.trees = s.trees ++ [new] ∧ i = s.trees.length := by
  simp only [Session.replace, Step.bind_eq_ok, Step.tree_eq_ok, Step.ofTree_eq_ok,
    Step.takeSerials_eq_ok, Step.addTree_eq_ok, Step.pure_eq_ok] at ran
  obtain ⟨target, _, named, graft, s₁, grafted, t, _, ⟨held, rfl⟩, _, _, ⟨rfl, rfl⟩, edited, _,
    ⟨replaced, rfl⟩, _, _, ⟨rfl, rfl⟩, answer, rfl⟩ := ran
  cases answer
  obtain ⟨taken, rfl⟩ := node_eq_ok h named
  obtain ⟨kept, -⟩ := graft_eq_ok h grafted
  rw [kept] at held
  obtain ⟨same, rfl⟩ := SyntaxTree.replace_eq_ok.mp replaced
  have inside : target.node ∈ t.rootNode.descendants := by
    have home := (h.trees _ taken.home).root_eq (h.trees t (List.mem_of_getElem? held)) same
    have own := taken.inside
    rwa [SyntaxTree.rootNode, home] at own
  exact ⟨t, target, graft, held, taken, SyntaxTree.replaces_splice inside graft _, by rw [kept],
    by rw [kept]⟩

/-- To replace a node of a version gives a version in which the replacement stands at the place of
the node and everything else is as it was. The old version is still there: a session that has made a
replacement holds every version that it held before, under its number. -/
theorem SyntaxTree.replace_replaces {t : SyntaxTree} {n : Node} (inside : n ∈ t.rootNode.descendants)
    (graft : SyntaxTree) (serial : Nat) :
    (∃ new, t.replace serial ⟨t, n⟩ graft = .ok new ∧ t.Replaces n graft new) ∧
    ∀ (w : Identity.Reading) (s s' : Session) (node : NodeRef) (g : GraftRef) (r : TreeRef) (i : Nat)
      (new : SyntaxTree), s.Consistent w → (Session.replace node g r).run s = .ok ((i, new), s') →
      s'.trees = s.trees ++ [new] ∧ i = s.trees.length ∧
      ∃ old, ∃ target : Handle, ∃ part, s.trees[r.index]? = some old ∧ target.TakenFrom s.trees ∧
        old.Replaces target.node part new := by
  refine ⟨⟨_, replace_own serial graft, replaces_splice inside graft serial⟩, ?_⟩
  intro w s s' node g r i new h ran
  obtain ⟨old, target, part, held, taken, replaces, kept, number⟩ := Session.replace_eq_ok h ran
  exact ⟨kept, number, old, target, part, held, taken, replaces⟩

/-- A name behind an argument that is missing gives way to a longer one, by itself and in a
session. -/
theorem SyntaxTree.replace_replaces_argument :
    let text := "class C\x7bvoid M()\x7bF(,x);\x7d\x7d"
    let t : SyntaxTree := ⟨(parse text).root, .parsed 0 (parse text).root⟩
    let n := t.rootNode.atOffset 20
    let name := Factory.identifierName "abc"
    let graft : SyntaxTree := ⟨name, .built 1 name⟩
    let s := Session.start .builtin text
    n ∈ t.rootNode.descendants ∧ n.text = "x" ∧
      (∃ new, t.replace 2 ⟨t, n⟩ graft = .ok new ∧ t.Replaces n graft new) ∧
      ∃ new s', (Session.replace ⟨0, 20, 0⟩ (.made (.identifierName "abc")) ⟨"tree", 0⟩).run s =
        .ok ((1, new), s') ∧ s'.trees = [t, new] := by
  intro text t n name graft s
  obtain ⟨inside, short, works⟩ : n ∈ t.rootNode.descendants ∧ n.text = "x" ∧
      ((Session.replace ⟨0, 20, 0⟩ (.made (.identifierName "abc"))
        ⟨"tree", 0⟩).run s).toOption.isSome := by
    decide +kernel
  obtain ⟨replaced, sessions⟩ := replace_replaces inside graft 2
  refine ⟨inside, short, replaced, ?_⟩
  cases ran : (Session.replace ⟨0, 20, 0⟩ (.made (.identifierName "abc")) ⟨"tree", 0⟩).run s with
  | error e =>
      rw [ran] at works
      cases works
  | ok answer =>
      obtain ⟨⟨i, new⟩, s'⟩ := answer
      obtain ⟨w, consistent⟩ := Session.start_consistent RuleSet.builtin_faithful text
      obtain ⟨kept, rfl, -⟩ := sessions w s s' _ _ _ i new consistent ran
      exact ⟨new, s', rfl, kept⟩

end SharpRefactor
