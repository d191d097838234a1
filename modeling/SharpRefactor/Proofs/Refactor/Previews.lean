import SharpRefactor.Proofs.Refactor.History
import SharpRefactor.Proofs.Text.Splicing

/-!
Previews beside edits. To make an edit is a matter of identity, to show it is one of offsets: it is
made in the versions of its own identity, and it is shown wherever its range can be cut out of the
text. So what can be made is shown as it will be, but what is shown may be an edit of another
version.
-/

namespace SharpRefactor

/-- Whether the range that an edit replaces can be cut out of a text. -/
structure Edit.HasRoom (e : Edit) (text : String) : Prop where
  within : e.replacedRange.stop ≤ text.utf8ByteSize
  start : String.Pos.Raw.IsValid text ⟨e.replacedRange.start⟩
  stop : String.Pos.Raw.IsValid text ⟨e.replacedRange.stop⟩

namespace Edit

variable {e : Edit} {t : SyntaxTree} {text file : String}

theorem acceptable_iff_hasRoom : TextEdit.Acceptable text [e.toTextEdit] ↔ e.HasRoom text := by
  constructor
  · intro ok
    have member : e.toTextEdit ∈ [e.toTextEdit] := List.mem_singleton_self _
    obtain ⟨start, stop⟩ := ok.whole _ member
    exact ⟨ok.within _ member, start, stop⟩
  · intro room
    refine ⟨?_, ?_, List.pairwise_singleton .., List.pairwise_singleton ..⟩
    · exact List.forall_mem_singleton.mpr room.within
    · exact List.forall_mem_singleton.mpr ⟨room.start, room.stop⟩

/-- A preview knows of an edit only its range and its new text. -/
theorem preview_iff_hasRoom : (∃ shown, e.preview t file = .ok shown) ↔ e.HasRoom t.text := by
  rw [← acceptable_iff_hasRoom]
  constructor
  · rintro ⟨shown, previewed⟩
    cases done : TextEdit.apply t.text [e.toTextEdit] with
    | error cause => simp [preview, done] at previewed
    | ok new => exact TextEdit.acceptable_of_apply done
  · intro ok
    obtain ⟨new, walk⟩ := ok.splices
    rw [preview, TextEdit.apply_of_splices ok walk]
    exact ⟨_, rfl⟩

/-- In a version of its identity an edit is made, and its preview shows what it makes. -/
theorem preview_of_same {w : Identity.Reading} {n : Nat} {trees : List SyntaxTree}
    (taken : e.target.TakenFrom trees) (home : e.target.home.Sound w n) (sound : t.Sound w n)
    (same : e.target.home.identity = t.identity) (serial : Nat) (file : String) :
    ∃ edited, e.apply serial t = .ok edited ∧
      e.preview t file = .ok (Text.Diff.unified file t.text edited.text) := by
  have root := home.root_eq sound same
  have inside : e.target.node ∈ t.rootNode.descendants := by
    have own := taken.inside
    rwa [SyntaxTree.rootNode, root] at own
  obtain ⟨before, after, around, range, spliced⟩ := SyntaxTree.text_around inside
  have applied : e.apply serial t = .ok ⟨e.replacement.root.splice e.target.node.path t.root,
      .spliced serial t.origin e.target.node.path e.replacement.origin⟩ := by
    simp only [apply, Handle.resolve_of_eq taken home sound same, SyntaxTree.replace_own]
  refine ⟨_, applied, ?_⟩
  have placed : e.toTextEdit =
      ⟨.ofSize before.utf8ByteSize e.target.node.text.utf8ByteSize, e.newText⟩ := by
    rw [← range]
    rfl
  have made : TextEdit.apply t.text [e.toTextEdit] = .ok (before ++ e.newText ++ after) := by
    rw [placed, around, TextEdit.apply_middle]
  rw [preview, made]
  exact congrArg (fun new => Except.ok (Text.Diff.unified file t.text new))
    (spliced e.replacement.root).symm

end Edit

namespace Session

theorem after_consistent {rules : RuleSet} (faithful : ∀ r ∈ rules.rules, r.Faithful)
    (text : String) (actions : List Action) : ∃ w, ((start rules text).after actions).Consistent w := by
  obtain ⟨w₀, first⟩ := start_consistent faithful text
  exact (after_continues first actions).2

/-- In every session an edit is made in exactly the versions of its own identity, and it is shown in
exactly those in which its range has room. What is made is what was shown; the two come apart in the
other versions that happen to have room. -/
theorem after_previews (rules : RuleSet) (faithful : ∀ r ∈ rules.rules, r.Faithful) (text : String)
    (actions : List Action) :
    let s := (start rules text).after actions
    (∀ e ∈ s.edits, e.target.TakenFrom s.trees) ∧
      ∀ e : Edit, e.target.TakenFrom s.trees → ∀ t ∈ s.trees, ∀ (serial : Nat) (file : String),
        ((∃ edited, e.apply serial t = .ok edited) ↔ e.target.home.identity = t.identity) ∧
        ((∃ shown, e.preview t file = .ok shown) ↔ e.HasRoom t.text) ∧
        (∀ edited, e.apply serial t = .ok edited →
          e.preview t file = .ok (Text.Diff.unified file t.text edited.text)) ∧
        (((∃ shown, e.preview t file = .ok shown) ↔ ∃ edited, e.apply serial t = .ok edited) ↔
          e.target.home.identity = t.identity ∨ ¬ e.HasRoom t.text) := by
  intro s
  obtain ⟨w, h⟩ := after_consistent faithful text actions
  refine ⟨fun e built => (h.edits e built).1, fun e taken t member serial file => ?_⟩
  have home := h.trees _ taken.home
  have sound := h.trees t member
  have applies : (∃ edited, e.apply serial t = .ok edited) ↔
      e.target.home.identity = t.identity := by
    constructor
    · exact fun ⟨_, applied⟩ => (Edit.apply_eq_ok taken home sound applied).1
    · intro same
      obtain ⟨edited, applied, -⟩ := Edit.preview_of_same taken home sound same serial file
      exact ⟨edited, applied⟩
  have agrees : ∀ edited, e.apply serial t = .ok edited →
      e.preview t file = .ok (Text.Diff.unified file t.text edited.text) := by
    intro edited applied
    have same := (Edit.apply_eq_ok taken home sound applied).1
    obtain ⟨made, applied', shown⟩ := Edit.preview_of_same taken home sound same serial file
    rw [applied] at applied'
    rw [shown, Except.ok.inj applied']
  refine ⟨applies, Edit.preview_iff_hasRoom, agrees, ?_⟩
  have shows : e.target.home.identity = t.identity → e.HasRoom t.text := by
    intro same
    obtain ⟨_, -, shown⟩ := Edit.preview_of_same taken home sound same serial file
    exact Edit.preview_iff_hasRoom.mp ⟨_, shown⟩
  rw [applies, Edit.preview_iff_hasRoom]
  by_cases same : e.target.home.identity = t.identity <;> simp [same, shows]

/-- A session in which an edit was computed for a text that is then parsed a second time. -/
def rereadWithEdit : Session :=
  let own : ContextRef := ⟨⟨"resolver", 0⟩, .project, false⟩
  (start .builtin "class C\x7bdelegate void D();void F()\x7b\x7dD d=F;\x7d").after
    [.first own ⟨"tree", 0⟩ (.empty 40), .realize own 0, .reread ⟨"tree", 0⟩]

theorem after_previews_first_version :
    (∀ r ∈ RuleSet.builtin.rules, r.Faithful) ∧ rereadWithEdit.edits.length = 1 ∧
      ∀ e ∈ rereadWithEdit.edits, e.target.TakenFrom rereadWithEdit.trees ∧
        ∀ t ∈ rereadWithEdit.trees.take 1, ∃ edited, e.apply 2 t = .ok edited ∧
          e.preview t "F.cs" = .ok (Text.Diff.unified "F.cs" t.text edited.text) := by
  have made : rereadWithEdit.edits.length = 1 ∧ ∀ e ∈ rereadWithEdit.edits,
      ∀ t ∈ rereadWithEdit.trees.take 1, e.target.home.identity = t.identity := by
    decide +kernel
  obtain ⟨edits, same⟩ := made
  have previews := after_previews .builtin RuleSet.builtin_faithful
    "class C\x7bdelegate void D();void F()\x7b\x7dD d=F;\x7d"
    [.first ⟨⟨"resolver", 0⟩, .project, false⟩ ⟨"tree", 0⟩ (.empty 40),
      .realize ⟨⟨"resolver", 0⟩, .project, false⟩ 0, .reread ⟨"tree", 0⟩]
  refine ⟨RuleSet.builtin_faithful, edits, fun e built => ⟨previews.1 e built, fun t first => ?_⟩⟩
  obtain ⟨applies, -, agrees, -⟩ :=
    previews.2 e (previews.1 e built) t (List.mem_of_mem_take first) 2 "F.cs"
  obtain ⟨edited, applied⟩ := applies.mpr (same e built t first)
  exact ⟨edited, applied, agrees edited applied⟩

/-- The second parse of the same text turns the edit down, but shows it. -/
theorem preview_of_reread :
    ∃ e ∈ rereadWithEdit.edits, ∃ t ∈ rereadWithEdit.trees,
      (∀ serial, ∃ cause, e.apply serial t = .error cause) ∧
        ∃ shown, e.preview t "F.cs" = .ok shown := by
  have stale : ∃ e ∈ rereadWithEdit.edits, ∃ t ∈ rereadWithEdit.trees,
      e.target.home.identity ≠ t.identity ∧ e.replacedRange.stop ≤ t.text.utf8ByteSize ∧
        Text.isBoundary t.text.toList e.replacedRange.start = true ∧
        Text.isBoundary t.text.toList e.replacedRange.stop = true := by
    decide +kernel
  obtain ⟨e, built, t, member, other, within, start, stop⟩ := stale
  refine ⟨e, built, t, member, fun serial => ⟨_, (Handle.rejectedBy_of_ne other).apply serial _⟩, ?_⟩
  exact Edit.preview_iff_hasRoom.mpr
    ⟨within, Text.isBoundary_iff.mp start, Text.isBoundary_iff.mp stop⟩

end Session
end SharpRefactor
