import SharpRefactor.Proofs.Parsing.TypeName
import SharpRefactor.Proofs.Types.Named
import SharpRefactor.Types.Spelling

/-!
Writing types. Every type that is called by names can be written, since no name holds a comment;
what is written is an alias, a candidate that was seen to lead back to the type, or the full name
with its arguments written the same way.
-/

namespace SharpRefactor

/-- A text without the sign that every comment begins with. -/
def Uncommented (text : String) : Prop := '/' ∉ text.toList

theorem IsName.uncommented {w : String} (h : IsName w) : Uncommented w := fun member =>
  absurd (h.all '/' member) (by decide)

theorem IsWord.uncommented {w : String} (h : IsWord w) : Uncommented w := by
  rcases h with name | ⟨v, name, sign⟩
  · exact name.uncommented
  · rw [Uncommented, sign, List.mem_cons, not_or]
    exact ⟨by decide, name.uncommented⟩

namespace Uncommented

variable {a b : String}

theorem append (left : Uncommented a) (right : Uncommented b) : Uncommented (a ++ b) := by
  rw [Uncommented, String.toList_append, List.mem_append]
  exact not_or.mpr ⟨left, right⟩

theorem intercalate {separator : String} (between : Uncommented separator) {texts : List String}
    (each : ∀ text ∈ texts, Uncommented text) : Uncommented (String.intercalate separator texts) := by
  induction texts with
  | nil => simp [Uncommented]
  | cons a texts ih =>
      rw [List.forall_mem_cons] at each
      cases texts with
      | nil => simpa using each.1
      | cons b texts =>
          rw [String.intercalate_cons_cons]
          exact (each.1.append between).append (ih each.2)

theorem path {path : String} (h : IsPath path) : Uncommented path := by
  obtain ⟨names, each, rfl⟩ := h
  exact intercalate (by simp [Uncommented]) fun w member => (each w member).uncommented

theorem join {space name : String} (left : Uncommented space) (right : Uncommented name) :
    Uncommented (Dotted.join space name) := by
  unfold Dotted.join
  split
  · exact right
  · have text : s!"{space}.{name}" = space ++ "." ++ name := rfl
    rw [text]
    exact (left.append (by simp [Uncommented])).append right

theorem bracketed {texts : List String} (each : ∀ text ∈ texts, Uncommented text) :
    Uncommented (bracketed texts) := by
  unfold SharpRefactor.bracketed
  split
  · simp [Uncommented]
  · have comma : Uncommented ", " := by simp [Uncommented]
    have inside := comma.intercalate each
    exact (append (by simp [Uncommented]) inside).append (by simp [Uncommented])

end Uncommented

/-- Only types of the library that take no arguments have keywords. -/
theorem Ty.keyword?_eq_some {space name word : String} {args : List Ty}
    (found : (Ty.named space name args).keyword? = some word) :
    space = "System" ∧ args = [] ∧ ∃ entry ∈ predefined, entry.2.2 = name ∧ entry.2.1 = word := by
  unfold keyword? at found
  split at found
  · next void => cases void
  · next same =>
    cases same
    obtain ⟨entry, first, rfl⟩ := Option.map_eq_some_iff.mp found
    exact ⟨rfl, rfl, entry, List.mem_of_find?_eq_some first, by simpa using List.find?_some first, rfl⟩
  · cases found

namespace Table

variable {t : Table} {s : Scope} {type : Ty}

theorem bindsTo_ok (t : Table) (s : Scope) (type : Ty) {spelling : String}
    (plain : Uncommented spelling) :
    ∃ answer, t.bindsTo s type spelling = .ok answer := by
  unfold bindsTo
  split
  · exact ⟨_, rfl⟩
  · exact ⟨_, rfl⟩
  · next surrounded => exact absurd surrounded (parseTypeName_ne_surrounded (tight_lex_plain plain))

theorem firstBinding_ok (t : Table) (s : Scope) (type : Ty) {candidates : List String}
    (plain : ∀ c ∈ candidates, Uncommented c) :
    ∃ found, t.firstBinding s type candidates = .ok found ∧
      ∀ c, found = some c → c ∈ candidates ∧ t.bindsTo s type c = .ok true := by
  induction candidates with
  | nil => exact ⟨none, rfl, fun c some => nomatch some⟩
  | cons c cs ih =>
      rw [List.forall_mem_cons] at plain
      obtain ⟨answer, binds⟩ := bindsTo_ok t s type plain.1
      rw [firstBinding, binds]
      cases answer with
      | true =>
          refine ⟨some c, rfl, ?_⟩
          rintro _ ⟨⟩
          exact ⟨List.mem_cons_self, binds⟩
      | false =>
          obtain ⟨found, first, own⟩ := ih plain.2
          exact ⟨found, first, fun d here => (own d here).imp_left (List.mem_cons_of_mem c)⟩

theorem aliasFor?_eq_some {word : String} (found : t.aliasFor? s type = some word) :
    (∃ space ∈ s.namespaces, ∃ entry ∈ space.aliases, entry.1 = word) ∧
      t.lookup s word [] = some type := by
  obtain ⟨⟨space, i⟩, listed, first⟩ := List.exists_of_findSome?_eq_some found
  obtain ⟨entry, own, rfl⟩ := Option.map_eq_some_iff.mp first
  have means := List.find?_some own
  simp only [aliasMeans, Bool.and_eq_true, beq_iff_eq] at means
  have member : space ∈ s.namespaces := (List.mem_zipIdx' listed).2 ▸ List.getElem_mem _
  exact ⟨⟨space, member, entry, List.mem_of_find?_eq_some own, rfl⟩, means.2⟩

def candidates (space name : String) (texts : List String) : List String :=
  (qualifiers space).map fun q => Dotted.join q name ++ bracketed texts

theorem qualifiers_path {space q : String} (path : IsPath space) (member : q ∈ qualifiers space) :
    IsPath q := by
  obtain ⟨names, each, rfl⟩ := path
  obtain ⟨taken, -, rfl⟩ := List.mem_map.mp member
  rw [Dotted.segments_ofSegments each]
  exact ⟨_, fun w inside => each w (List.mem_of_mem_drop inside), rfl⟩

theorem candidates_uncommented {space name : String} {texts : List String} (path : IsPath space)
    (own : IsName name) (each : ∀ text ∈ texts, Uncommented text) :
    ∀ c ∈ candidates space name texts, Uncommented c := by
  intro c member
  obtain ⟨q, listed, rfl⟩ := List.mem_map.mp member
  have qualifier := Uncommented.path (qualifiers_path path listed)
  exact (qualifier.join own.uncommented).append (.bracketed each)

theorem spell_keyword {space name word : String} {args : List Ty}
    (keyword : (Ty.named space name args).keyword? = some word) :
    t.spell s (.named space name args) = .ok word := by
  rw [spell]
  simp only [keyword]

/-- What is written for a type that has no keyword. -/
theorem spell_named {space name : String} {args : List Ty} {texts : List String}
    (plain : (Ty.named space name args).keyword? = none) (path : IsPath space) (own : IsName name)
    (inside : t.spellAll s args = .ok texts) (each : ∀ text ∈ texts, Uncommented text) :
    ∃ text, t.spell s (.named space name args) = .ok text ∧
      (t.aliasFor? s (.named space name args) = some text ∨
        (text ∈ candidates space name texts ∧
          t.bindsTo s (.named space name args) text = .ok true) ∨
        text = Dotted.join space name ++ bracketed texts) := by
  rw [spell]
  simp only [plain, inside]
  cases found : t.aliasFor? s (.named space name args) with
  | some word => exact ⟨word, rfl, .inl rfl⟩
  | none =>
      obtain ⟨first, tried, binds⟩ := firstBinding_ok t s (.named space name args)
        (candidates_uncommented path own each)
      rw [candidates] at tried
      simp only [tried]
      cases first with
      | some c => exact ⟨c, rfl, .inr (.inl (binds c rfl))⟩
      | none => exact ⟨_, rfl, .inr (.inr rfl)⟩

theorem spellAll_ok {P : Ty → String → Prop} {args : List Ty}
    (each : ∀ a ∈ args, ∃ text, t.spell s a = .ok text ∧ P a text) :
    ∃ texts, t.spellAll s args = .ok texts ∧ List.Forall₂ P args texts := by
  induction args with
  | nil => exact ⟨[], rfl, .nil⟩
  | cons a args ih =>
      rw [List.forall_mem_cons] at each
      obtain ⟨text, first, own⟩ := each.1
      obtain ⟨texts, rest, others⟩ := ih each.2
      exact ⟨text :: texts, by rw [spellAll, first, rest], .cons own others⟩

theorem forall_of_forall₂ {α β : Type} {P : β → Prop} {as : List α} {bs : List β}
    (each : List.Forall₂ (fun _ b => P b) as bs) : ∀ b ∈ bs, P b := by
  induction each with
  | nil => simp
  | cons own _ ih => exact List.forall_mem_cons.mpr ⟨own, ih⟩

/-- Every type that is called by names can be written. -/
theorem spell_ok (aliases : s.Named) {type : Ty} (named : type.Named) :
    ∃ text, t.spell s type = .ok text ∧ Uncommented text := by
  induction named with
  | void => exact ⟨"void", rfl, by simp [Uncommented]⟩
  | @parameter name word => exact ⟨name, rfl, word.uncommented⟩
  | array _ ih =>
      obtain ⟨text, written, plain⟩ := ih
      exact ⟨text ++ "[]", by rw [spell, written], plain.append (by simp [Uncommented])⟩
  | @named space name args key _ ih =>
      cases keyword : (Ty.named space name args).keyword? with
      | some word =>
          obtain ⟨-, -, entry, listed, -, rfl⟩ := Ty.keyword?_eq_some keyword
          have plain : ∀ entry ∈ Ty.predefined, Uncommented entry.2.1 := by
            unfold Uncommented
            decide
          exact ⟨_, spell_keyword keyword, plain entry listed⟩
      | none =>
          obtain ⟨texts, inside, each⟩ := spellAll_ok (P := fun _ text => Uncommented text) ih
          have plain : ∀ text ∈ texts, Uncommented text := forall_of_forall₂ each
          obtain ⟨text, written, cases_⟩ := spell_named keyword key.space key.name inside plain
          refine ⟨text, written, ?_⟩
          rcases cases_ with found | ⟨listed, -⟩ | rfl
          · obtain ⟨⟨space, visible, entry, own, rfl⟩, -⟩ := aliasFor?_eq_some found
            rcases aliases space visible entry own with empty | name
            · simp [Uncommented, empty]
            · exact name.uncommented
          · exact candidates_uncommented key.space key.name plain text listed
          · exact ((Uncommented.path key.space).join key.name.uncommented).append (.bracketed plain)

end Table

end SharpRefactor
