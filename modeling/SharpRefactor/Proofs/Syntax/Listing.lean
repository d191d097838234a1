import SharpRefactor.Proofs.Text.Quoting
import SharpRefactor.Syntax.Dump

/-!
A listing tells its tree. The name of a kind ends at the sign behind it, and that sign says whether
the line is about a node or a token; a quoted text ends at its mark, a range at the end of its line.
The lines of a tree end where a line is not indented more than its first one. So each part of a
listing can be read back out of whatever follows it, and trees that are listed alike are equal.
-/

namespace SharpRefactor

namespace Kind

theorem mem_all (k : Kind) : k ∈ all := List.mem_of_getElem? (getElem?_all_number k)

/-- A kind is found by its name. -/
theorem find?_name (k : Kind) : all.find? (·.name == k.name) = some k := by
  have each : (all.all fun k => all.find? (·.name == k.name) == some k) = true := by decide +kernel
  exact beq_iff_eq.mp (List.all_eq_true.mp each k (mem_all k))

theorem name_inj {j k : Kind} (same : j.name = k.name) : j = k := by
  have found := find?_name j
  rw [same, find?_name k] at found
  exact (Option.some.inj found).symm

/-- The name of a kind is a word of letters. -/
theorem name_word (k : Kind) : k.name.isEmpty = false ∧ ∀ c ∈ k.name.toList, c.isAlpha := by
  have each : (all.all fun k => !k.name.isEmpty && k.name.toList.all Char.isAlpha) = true := by
    decide +kernel
  have own := List.all_eq_true.mp each k (mem_all k)
  rw [Bool.and_eq_true, Bool.not_eq_true', List.all_eq_true] at own
  exact own

theorem name_begins (k : Kind) : ∃ c cs, k.name.toList = c :: cs ∧ c ≠ ' ' := by
  obtain ⟨filled, letters⟩ := k.name_word
  cases spelt : k.name.toList with
  | nil =>
      rw [String.toList_eq_nil_iff.mp spelt] at filled
      cases filled
  | cons c cs =>
      refine ⟨c, cs, rfl, fun blank => ?_⟩
      have letter := letters c (spelt ▸ List.mem_cons_self)
      rw [blank] at letter
      cases letter

/-- The name of a kind is read back out of what follows it, if that begins with no letter. -/
theorem name_append_inj {j k : Kind} {a b : Char} {front back : List Char} (ends : a.isAlpha = false)
    (ends' : b.isAlpha = false) (same : j.name.toList ++ a :: front = k.name.toList ++ b :: back) :
    j = k ∧ a = b ∧ front = back := by
  obtain ⟨name, rest⟩ :=
    Text.append_cons_inj j.name_word.2 k.name_word.2 ends ends' same
  exact ⟨name_inj (String.toList_inj.mp name), rest⟩

end Kind

/-- A range is written in a line. -/
theorem TextRange.newline_not_mem_describe (r : TextRange) :
    ∀ c ∈ r.describe.toList, (c != '\n') = true := by
  have digits (n : Nat) : ∀ c ∈ (toString n).toList, (c != '\n') = true := by
    intro c member
    rw [Nat.toString_eq_ofList_toDigits, String.toList_ofList] at member
    have digit := Nat.isDigit_of_mem_toDigits (by decide) (by decide) member
    refine bne_iff_ne.mpr fun newline => ?_
    subst newline
    cases digit
  have spelt : r.describe = toString r.start ++ ".." ++ toString r.stop := rfl
  have dots : "..".toList = ['.', '.'] := rfl
  rw [spelt, String.toList_append, String.toList_append, dots]
  intro c member
  rw [List.mem_append, List.mem_append] at member
  rcases member with (start | middle) | stop
  · exact digits _ c start
  · obtain rfl : c = '.' := by simpa using middle
    rfl
  · exact digits _ c stop

/-- What follows the lines of a tree: nothing, or a line with less blanks in front. -/
def Outdented (indent : Nat) (cs : List Char) : Prop := (cs.takeWhile (· == ' ')).length < indent

theorem Outdented.mono {i j : Nat} {cs : List Char} (h : Outdented i cs) (le : i ≤ j) :
    Outdented j cs :=
  Nat.lt_of_lt_of_le h le

theorem length_blanks (indent : Nat) {c : Char} (letter : c ≠ ' ') (cs : List Char) :
    ((List.replicate indent ' ' ++ c :: cs).takeWhile (· == ' ')).length = indent := by
  rw [List.takeWhile_append_of_pos (by simp), List.takeWhile_cons_of_neg (by simpa using letter)]
  simp

def Tree.sign : Tree → Char
  | .leaf _ => ' '
  | .node _ _ => '@'

def Tree.details (indent start : Nat) : Tree → List Char
  | .leaf t => Text.quoteChars t.text.toList ++ ['\n']
  | .node _ ts => (TextRange.ofSize start (Forest.size ts)).describe.toList ++
      '\n' :: (Forest.dumpAt (indent + 2) start ts).toList

section Lines

variable {indent start : Nat} {front back rest : List Char}

theorem Tree.dumpAt_eq (indent start : Nat) (t : Tree) :
    (t.dumpAt indent start).toList =
      List.replicate indent ' ' ++ (t.kind.name.toList ++ t.sign :: t.details indent start) := by
  cases t with
  | leaf t => simp [dumpAt, sign, details, kind, Text.quote, toString]
  | node k ts => simp [dumpAt, sign, details, kind, toString]

theorem Forest.dumpAt_cons (t : Tree) (ts : Forest) :
    (Forest.dumpAt indent start (t :: ts)).toList =
      (t.dumpAt indent start).toList ++ (Forest.dumpAt indent (start + t.size) ts).toList := by
  simp [Forest.dumpAt]

theorem Tree.sign_isAlpha (t : Tree) : t.sign.isAlpha = false := by
  cases t <;> rfl

/-- Lines that are equal are about one kind, and both about a node or both about a token. -/
theorem Tree.dumpAt_head {s t : Tree}
    (same : (s.dumpAt indent start).toList ++ front = (t.dumpAt indent start).toList ++ back) :
    s.kind = t.kind ∧ s.sign = t.sign ∧
      s.details indent start ++ front = t.details indent start ++ back := by
  have lines : List.replicate indent ' ' ++
        (s.kind.name.toList ++ s.sign :: (s.details indent start ++ front)) =
      List.replicate indent ' ' ++
        (t.kind.name.toList ++ t.sign :: (t.details indent start ++ back)) := by
    simpa only [Tree.dumpAt_eq, List.append_assoc, List.cons_append] using same
  exact Kind.name_append_inj s.sign_isAlpha t.sign_isAlpha (List.append_cancel_left lines)

/-- The first line of a tree has its own blanks in front and no more. -/
theorem Tree.blanks_dumpAt (t : Tree) :
    (((t.dumpAt indent start).toList ++ rest).takeWhile (· == ' ')).length = indent := by
  obtain ⟨c, cs, name, letter⟩ := t.kind.name_begins
  rw [Tree.dumpAt_eq, name, List.append_assoc, List.cons_append, List.cons_append,
    length_blanks indent letter]

theorem Forest.outdented_dumpAt (ts : Forest) (ends : Outdented indent rest) :
    Outdented (indent + 1) ((Forest.dumpAt indent start ts).toList ++ rest) := by
  cases ts with
  | nil => exact ends.mono (Nat.le_succ indent)
  | cons t ts =>
      rw [Forest.dumpAt_cons, List.append_assoc, Outdented, Tree.blanks_dumpAt]
      exact Nat.lt_succ_self indent

/-- Where trees end and others do not, what follows would be indented too far. -/
theorem Forest.ne_dumpAt_cons (t : Tree) (ts : Forest) (ends : Outdented indent front) :
    front ≠ (Forest.dumpAt indent start (t :: ts)).toList ++ back := by
  rintro rfl
  rw [Outdented, Forest.dumpAt_cons, List.append_assoc, Tree.blanks_dumpAt] at ends
  exact Nat.lt_irrefl indent ends

/-- The lines of a tree are read back whatever follows them, if that is not indented more than the
tree. -/
def Tree.ReadsBack (s : Tree) : Prop :=
  ∀ {t : Tree} {indent start : Nat} {front back : List Char}, Outdented (indent + 1) front →
    Outdented (indent + 1) back →
    (s.dumpAt indent start).toList ++ front = (t.dumpAt indent start).toList ++ back →
    s = t ∧ front = back

theorem Forest.dumpAt_append_inj {ss ts : Forest} (each : ∀ s ∈ ss, s.ReadsBack)
    (ends : Outdented indent front) (ends' : Outdented indent back)
    (same : (Forest.dumpAt indent start ss).toList ++ front =
      (Forest.dumpAt indent start ts).toList ++ back) : ss = ts ∧ front = back := by
  induction ss generalizing ts start with
  | nil =>
      cases ts with
      | nil => exact ⟨rfl, same⟩
      | cons t ts => exact absurd same (ne_dumpAt_cons t ts ends)
  | cons s ss ih =>
      cases ts with
      | nil => exact absurd same.symm (ne_dumpAt_cons s ss ends')
      | cons t ts =>
          rw [dumpAt_cons, dumpAt_cons, List.append_assoc, List.append_assoc] at same
          obtain ⟨rfl, later⟩ := each s List.mem_cons_self (outdented_dumpAt ss ends)
            (outdented_dumpAt ts ends') same
          obtain ⟨rfl, rest⟩ := ih (fun u member => each u (List.mem_cons_of_mem s member)) later
          exact ⟨rfl, rest⟩

theorem Tree.readsBack (s : Tree) : s.ReadsBack := by
  induction s using Tree.induct with
  | leaf a =>
      intro t indent start front back ends ends' same
      obtain ⟨kind, sign, details⟩ := Tree.dumpAt_head same
      cases t with
      | leaf b =>
          simp only [Tree.details, List.append_assoc] at details
          obtain ⟨text, rest⟩ := Text.quoteChars_append_inj details
          have token : a = b := by
            cases a
            cases b
            exact Token.mk.injEq .. ▸ ⟨kind, String.toList_inj.mp text⟩
          exact ⟨congrArg Tree.leaf token, (List.cons.inj rest).2⟩
      | node k ts => exact absurd sign (show ' ' ≠ '@' by decide)
  | node j ss ih =>
      intro t indent start front back ends ends' same
      obtain ⟨kind, sign, details⟩ := Tree.dumpAt_head same
      cases t with
      | leaf b => exact absurd sign (show '@' ≠ ' ' by decide)
      | node k ts =>
          obtain rfl : j = k := kind
          simp only [Tree.details, List.append_assoc, List.cons_append] at details
          -- Ranges may be skipped: their ends show where the lines of the children begin.
          obtain ⟨-, -, inside⟩ := Text.append_cons_inj (TextRange.newline_not_mem_describe _)
            (TextRange.newline_not_mem_describe _) (by decide) (by decide) details
          obtain ⟨rfl, rest⟩ := Forest.dumpAt_append_inj ih (ends.mono (Nat.le_succ _))
            (ends'.mono (Nat.le_succ _)) inside
          exact ⟨rfl, rest⟩

end Lines

/-- Two trees are listed alike only if they are equal: in kinds, nesting and texts, also where nodes
and tokens are empty. -/
theorem Tree.dump_eq_iff (s t : Tree) : s.dump = t.dump ↔ s = t := by
  refine ⟨fun same => ?_, congrArg dump⟩
  have none : Outdented 1 [] := Nat.zero_lt_one
  have lines : (s.dumpAt 0 0).toList ++ [] = (t.dumpAt 0 0).toList ++ [] :=
    congrArg (·.toList ++ []) same
  exact (s.readsBack none none lines).1

end SharpRefactor
