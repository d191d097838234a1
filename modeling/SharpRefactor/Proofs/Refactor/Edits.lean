import SharpRefactor.Proofs.Syntax.Paths
import SharpRefactor.Refactor.Commit

/-!
Edits in the tree and in the text. The tree rebuilds what is around a node, the text exchanges the
bytes of its range; both keep what stands before and after the node and put the replacement between.
An offer that is carried out in the version it was made for is such an edit, and it never fails once
it is built.
-/

namespace SharpRefactor

/-- A single edit of the middle part of a text. -/
theorem TextEdit.apply_middle (before middle after new : String) :
    TextEdit.apply (before ++ middle ++ after)
        [⟨.ofSize before.utf8ByteSize middle.utf8ByteSize, new⟩] =
      .ok (before ++ new ++ after) := by
  let range := TextRange.ofSize before.utf8ByteSize middle.utf8ByteSize
  let text := before.toList ++ middle.toList ++ after.toList
  have start : range.start = Text.byteLength before.toList := (Text.byteLength_toList before).symm
  have stop : range.stop = Text.byteLength (before.toList ++ middle.toList) := by
    rw [Text.byteLength_append, Text.byteLength_toList, Text.byteLength_toList]
    rfl
  have spelt : (before ++ middle ++ after).toList = text := by simp [text]
  have atStart : Text.isBoundary text range.start := by
    rw [start, show text = before.toList ++ (middle.toList ++ after.toList) by simp [text]]
    exact Text.isBoundary_byteLength ..
  have atStop : Text.isBoundary text range.stop := stop ▸ Text.isBoundary_byteLength ..
  have within : ¬ Text.byteLength text < range.stop := by
    rw [stop, Text.byteLength_append (before.toList ++ middle.toList)]
    omega
  have placed : misplaced? text ⟨range, new⟩ = none := by
    simp [misplaced?, within, atStart, atStop]
  have normal : normalize (before ++ middle ++ after) [⟨range, new⟩] = .ok [⟨range, new⟩] := by
    simp [normalize, sort, fault?, spelt, placed, clash?, merge, join]
  rw [apply, normal]
  change Except.ok (String.ofList (perform (before ++ middle ++ after).toList [⟨range, new⟩])) = _
  rw [spelt, perform, List.foldr_cons, List.foldr_nil]
  simp only [start, stop, text, Text.replaceBytes_middle, String.ofList_append, String.ofList_toList]

namespace SyntaxTree

variable {t : SyntaxTree} {n : Node}

/-- A node stands between two parts of the text, which stay when it is replaced. -/
theorem text_around (inside : n ∈ t.rootNode.descendants) :
    ∃ before after : String, t.text = before ++ n.text ++ after ∧
      n.range = .ofSize before.utf8ByteSize n.text.utf8ByteSize ∧
      ∀ graft : Tree, (graft.splice n.path t.root).text = before ++ graft.text ++ after := by
  have led := (Node.mem_descendants_root.mp inside).2
  obtain ⟨front, rest, cut, placed, spliced⟩ := Tree.tokens_splice led
  have spelt (u : Tree) (h : u.tokens = front ++ n.tree.tokens ++ rest) :
      u.text = tokensText front ++ n.text ++ tokensText rest := by
    rw [Tree.text, h, tokensText_append, tokensText_append]
    rfl
  refine ⟨tokensText front, tokensText rest, spelt t.root cut, ?_, fun graft => ?_⟩
  · have start : n.place.start = (tokensText front).utf8ByteSize := by
      have := placed
      rwa [show (Node.root t.root).start = 0 from rfl, Nat.zero_add] at this
    rw [Node.range, Place.range, start, Tree.size_eq]
    rfl
  · rw [Tree.text, show (graft.splice n.path t.root).tokens = _ from spliced graft,
      tokensText_append, tokensText_append]
    rfl

/-- A version accepts a node of its own identity. -/
theorem replace_eq_ok {serial : Nat} {h : Handle} {graft new : SyntaxTree} :
    t.replace serial h graft = .ok new ↔ h.home.identity = t.identity ∧
      new = ⟨graft.root.splice h.node.path t.root,
        .spliced serial t.origin h.node.path graft.origin⟩ := by
  by_cases own : h.home.identity = t.identity
  · simp only [replace, contains, own, beq_self_eq_true, Bool.not_true, Bool.false_eq_true, if_false,
      Except.ok.injEq, true_and]
    exact eq_comm
  · simp [replace, contains, own]

theorem replace_own (serial : Nat) (graft : SyntaxTree) :
    t.replace serial ⟨t, n⟩ graft = .ok ⟨graft.root.splice n.path t.root,
      .spliced serial t.origin n.path graft.origin⟩ :=
  replace_eq_ok.mpr ⟨rfl, rfl⟩

end SyntaxTree

theorem Handle.resolve_own {t : SyntaxTree} {n : Node} (inside : n ∈ t.rootNode.descendants) :
    Handle.resolve ⟨t, n⟩ t = .ok n := by
  have led : t.rootNode.follow? n.path = some n := (Node.mem_descendants_root.mp inside).2
  simp [Handle.resolve, led]

namespace Edit

/-- An edit is made in the version of its node. -/
theorem apply_own {t : SyntaxTree} {n : Node} (inside : n ∈ t.rootNode.descendants)
    (graft : SyntaxTree) (serial : Nat) :
    (Edit.mk ⟨t, n⟩ graft).apply serial t = .ok ⟨graft.root.splice n.path t.root,
      .spliced serial t.origin n.path graft.origin⟩ := by
  simp [apply, Handle.resolve_own inside, SyntaxTree.replace_own]

end Edit

namespace Offer

/-- To carry out an offer is to build its edit and to make it. -/
theorem commit_of_build {o : Offer} {c : Context} {r : Replacement}
    (built : (o.rule.build c o.found).result = .ok r) (t : SyntaxTree) (format : Formatter)
    (serial : Nat) :
    let edit : Edit := ⟨o.found.target, r.tree, originOf serial o.found.target r⟩
    let annotation := TextRange.ofSize edit.replacedRange.start r.tree.size
    (o.commit t c format serial).result =
      (edit.apply (serial + 1) t).map fun edited => ⟨format edited annotation, edit, annotation⟩ := by
  intro edit annotation
  have realized : (o.realize c serial).result = .ok edit := by
    simp [realize, built, edit]
  simp only [commit, Asking.result_bind, realized]
  cases edit.apply (serial + 1) t <;> rfl

end Offer

/-- An edit of a node does the same in the tree and in the text: exactly the bytes of the node are
replaced. What an offer makes in its own version is such an edit, and the range that goes to the
formatter holds the new text. -/
theorem apply_eq_textEdit {t : SyntaxTree} {n : Node} (inside : n ∈ t.rootNode.descendants) :
    ∃ before after : String, t.text = before ++ n.text ++ after ∧
      (∀ (graft : SyntaxTree) (serial : Nat),
        let e : Edit := ⟨⟨t, n⟩, graft⟩
        e.replacedRange = .ofSize before.utf8ByteSize n.text.utf8ByteSize ∧
          ∃ edited, e.apply serial t = .ok edited ∧
            TextEdit.apply t.text [e.toTextEdit] = .ok edited.text ∧
            edited.text = before ++ graft.text ++ after) ∧
      ∀ (o : Offer) (c : Context) (serial : Nat) (r : Replacement), o.found.target = ⟨t, n⟩ →
        (o.rule.build c o.found).result = .ok r →
        ∃ done, (o.commit t c .none serial).result = .ok done ∧
          done.tree.text = before ++ done.edit.newText ++ after ∧
          done.annotation = .ofSize before.utf8ByteSize done.edit.newText.utf8ByteSize := by
  obtain ⟨before, after, around, range, spliced⟩ := SyntaxTree.text_around inside
  refine ⟨before, after, around, fun graft serial => ⟨range, _, Edit.apply_own inside .., ?_, ?_⟩, ?_⟩
  · have new : (Edit.mk ⟨t, n⟩ graft).toTextEdit =
        ⟨.ofSize before.utf8ByteSize n.text.utf8ByteSize, graft.text⟩ := by
      rw [← range]
      rfl
    rw [new, around, TextEdit.apply_middle]
    exact congrArg Except.ok (spliced graft.root).symm
  · exact spliced graft.root
  · intro o c serial r target built
    have committed := Offer.commit_of_build built t .none serial
    rw [target] at committed
    rw [committed, Edit.apply_own inside]
    refine ⟨_, rfl, spliced r.tree, ?_⟩
    change TextRange.ofSize n.range.start r.tree.size = _
    rw [range, Tree.size_eq]
    rfl

/-- A name of two bytes makes way for a longer one, and for an anonymous method. -/
theorem apply_eq_textEdit_two_bytes :
    let root := (parse "using É;").root
    let t : SyntaxTree := ⟨root, .parsed 0 root⟩
    let n := t.rootNode.atOffset 6
    let name := Factory.identifierName "Abc"
    let e : Edit := ⟨⟨t, n⟩, ⟨name, .built 1 name⟩⟩
    let o : Offer := ⟨MethodGroup.rule, MethodGroup.rule.title, ⟨⟨t, n⟩, ⟨[], .void⟩⟩⟩
    let c : Context := ⟨.ofTree t, false, .project, false⟩
    n ∈ t.rootNode.descendants ∧ n.range = .ofSize 6 2 ∧
      (∃ edited, e.apply 2 t = .ok edited ∧
        TextEdit.apply t.text [e.toTextEdit] = .ok edited.text) ∧
      ∃ before after done, t.text = before ++ n.text ++ after ∧
        (o.commit t c .none 1).result = .ok done ∧
        done.tree.text = before ++ done.edit.newText ++ after := by
  intro root t n name e o c
  have inside : n ∈ t.rootNode.descendants := by decide +kernel
  obtain ⟨before, after, around, edits, offers⟩ := apply_eq_textEdit inside
  obtain ⟨_, edited, applied, agrees, _⟩ := edits ⟨name, .built 1 name⟩ 2
  have built : (o.rule.build c o.found).result = .ok ⟨AnonymousMethod.assemble ⟨[], .void⟩ n.tree [],
      some (AnonymousMethod.targetPath ⟨[], .void⟩)⟩ := rfl
  obtain ⟨done, committed, text, _⟩ := offers o c 1 _ rfl built
  exact ⟨inside, by decide +kernel, ⟨edited, applied, agrees⟩, before, after, done, around, committed,
    text⟩

end SharpRefactor
