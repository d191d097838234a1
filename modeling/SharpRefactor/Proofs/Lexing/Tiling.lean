import SharpRefactor.Proofs.Lexing
import SharpRefactor.Proofs.Text.Splicing

/-!
Where the tokens of a text stand. Every form of token takes its first character and no more
characters than the text has, so the tokens lie one behind the other from the beginning of the text
to its end, and each begins and ends between two characters. A fault stands at its own token, in the
order of the tokens, and a token that is no token of the language always has one.
-/

namespace SharpRefactor

open Unicode

namespace Lexer

/-! ### No token is longer than the text -/

theorem run_le (p : Char → Bool) (cs : List Char) : run p cs ≤ cs.length :=
  (List.takeWhile_sublist p).length_le

theorem blockComment_le (cs : List Char) : (blockComment cs).1 ≤ cs.length := by
  fun_induction blockComment cs with
  | case1 => simp
  | case2 => simp_all
  | case3 => simp

theorem quoted_le (quote : Char) (cs : List Char) : (quoted quote cs).1 ≤ cs.length := by
  fun_induction quoted quote cs <;> simp_all

theorem verbatim_le (cs : List Char) : (verbatim cs).1 ≤ cs.length := by
  fun_induction verbatim cs <;> simp_all

theorem fraction_le (cs : List Char) : fraction cs ≤ cs.length := by
  unfold fraction
  split
  · next d cs =>
      have digits := run_le isDigitOrLine (d :: cs)
      simp only [List.length_cons] at digits ⊢
      split <;> omega
  · exact Nat.zero_le _

theorem exponent_le (cs : List Char) : exponent cs ≤ cs.length := by
  cases cs with
  | nil => exact Nat.le_refl 0
  | cons e cs =>
      rw [exponent]
      split
      · have sign := run_le (fun c => c = '+' || c = '-') (cs.take 1)
        have digits := run_le Char.isDigit (cs.drop (run (fun c => c = '+' || c = '-') (cs.take 1)))
        simp only [List.length_take, List.length_drop, List.length_cons] at sign digits ⊢
        omega
      · exact Nat.zero_le _

theorem suffix_le (cs : List Char) : (suffix cs).1 ≤ cs.length := by
  unfold suffix
  split
  · split
    · simp
    · exact run_le _ _
  · simp

theorem number_le (cs : List Char) : (number cs).2 ≤ cs.length := by
  have tail (body : Nat) (within : body ≤ cs.length) :
      body + (suffix (cs.drop body)).1 ≤ cs.length := by
    have letters := suffix_le (cs.drop body)
    rw [List.length_drop] at letters
    omega
  unfold number
  split
  next body real shape =>
    refine tail body ?_
    split at shape
    · next hex =>
        have marked : 2 ≤ cs.length := by
          simp only [Bool.or_eq_true, List.isPrefixOf_iff_prefix] at hex
          rcases hex with h | h <;> exact h.length_le
        have digits := run_le (fun c => isHexDigit c || c = '_') (cs.drop 2)
        rw [List.length_drop] at digits
        cases shape
        omega
    · have whole := run_le isDigitOrLine cs
      have part := fraction_le (cs.drop (run isDigitOrLine cs))
      have power := exponent_le
        (cs.drop (run isDigitOrLine cs + fraction (cs.drop (run isDigitOrLine cs))))
      rw [List.length_drop] at part power
      cases shape
      omega

theorem mark?_begins {cs : List Char} {k : Kind} (found : mark? cs = some k) :
    (Token.fixed k).text.toList <+: cs := by
  have fits := List.find?_some found
  exact List.isPrefixOf_iff_prefix.mp fits

theorem mark?_length {cs : List Char} {k : Kind} (found : mark? cs = some k) :
    (Token.fixed k).text.length ≤ cs.length :=
  (mark?_begins found).length_le

/-- What is cut from a text is in the text. -/
theorem cut_more_le (c : Char) (cs : List Char) : (cut c cs).more ≤ cs.length := by
  have behind : ∀ (d : Char) (n : Nat), cs.head? = some d → n ≤ (cs.drop 1).length →
      n + 1 ≤ cs.length := by
    intro d n here inside
    cases cs with
    | nil => cases here
    | cons e cs => simpa using inside
  apply cut_cases (P := fun found => found.more ≤ cs.length)
  case white => exact fun _ => run_le _ cs
  case line => exact fun _ p => run_le p cs
  case block => exact fun _ here _ => behind _ _ here (blockComment_le _)
  case verbatimText => exact fun here _ => behind _ _ here (verbatim_le _)
  case quotedText => exact fun _ _ quote _ => quoted_le quote cs
  case name => exact fun _ => run_le _ cs
  case keyword => exact fun _ _ => run_le _ cs
  case numeral =>
    have whole := number_le (c :: cs)
    simp only [List.length_cons] at whole ⊢
    omega
  case mark =>
    intro k found
    have fits := mark?_length found
    simp only [List.length_cons] at fits ⊢
    omega
  case unknown => exact Nat.zero_le _

theorem ne_error_of_mark? {cs : List Char} {k : Kind} (found : mark? cs = some k) : k ≠ .error := by
  rintro rfl
  exact absurd (List.mem_of_find?_eq_some found) (by decide)

theorem ne_error_of_ofKeyword? {word : String} {k : Kind} (found : Kind.ofKeyword? word = some k) :
    k ≠ .error := by
  rintro rfl
  exact absurd (List.mem_of_find?_eq_some found) (by decide)

/-- Only a character that begins no token is cut as an error, and the fault says so. -/
theorem cut_fault_of_error {c : Char} {cs : List Char} (error : (cut c cs).kind = .error) :
    (cut c cs).fault = some (.unexpectedCharacter c) := by
  revert error
  apply cut_cases (P := fun found => found.kind = .error →
    found.fault = some (.unexpectedCharacter c))
  case keyword => exact fun _ word error => absurd error (ne_error_of_ofKeyword? word)
  case numeral => rcases number_kind (c :: cs) with h | h <;> simp [h]
  case mark => exact fun _ found error => absurd error (ne_error_of_mark? found)
  all_goals simp

end Lexer

/-! ### Tokens side by side -/

/-- Ranges one behind the other that leave out nothing between two offsets, none of them empty. -/
inductive Tiles : Nat → Nat → List TextRange → Prop where
  | nil (offset : Nat) : Tiles offset offset []
  | cons {r : TextRange} {rs : List TextRange} {stop : Nat} (filled : r.start < r.stop)
      (rest : Tiles r.stop stop rs) : Tiles r.start stop (r :: rs)

theorem Tiles.later {start stop : Nat} {r : TextRange} {rs : List TextRange}
    (tiles : Tiles start stop (r :: rs)) : Tiles r.stop stop rs := by
  cases tiles with
  | cons filled rest => exact rest

theorem Tiles.start_le {start stop : Nat} {rs : List TextRange} (tiles : Tiles start stop rs) :
    ∀ r ∈ rs, start ≤ r.start := by
  induction tiles with
  | nil => exact fun r member => nomatch member
  | @cons r rs stop filled rest ih =>
      intro s member
      rcases List.mem_cons.mp member with rfl | member
      · exact Nat.le_refl _
      · exact Nat.le_trans (Nat.le_of_lt filled) (ih s member)

theorem Tiles.nodup {start stop : Nat} {rs : List TextRange} (tiles : Tiles start stop rs) :
    rs.Nodup := by
  induction tiles with
  | nil => exact List.nodup_nil
  | @cons r rs stop filled rest ih =>
      refine List.nodup_cons.mpr ⟨fun member => ?_, ih⟩
      have behind := rest.start_le r member
      omega

/-- A token at the place where it was cut from a text: the characters there are its own, and neither
its kind nor its length is other than what the text reads as from there on. -/
def CutAt (text : String) (t : Token) (r : TextRange) : Prop :=
  ∃ (front inside rest : List Char) (c : Char), text.toList = front ++ c :: inside ++ rest ∧
    r = .ofSize (Text.byteLength front) (Text.byteLength (c :: inside)) ∧
    t = ⟨(Lexer.cut c (inside ++ rest)).kind, .ofList (c :: inside)⟩ ∧
    (Lexer.cut c (inside ++ rest)).more = inside.length

theorem CutAt.isValid {text : String} {t : Token} {r : TextRange} (cut : CutAt text t r) :
    String.Pos.Raw.IsValid text ⟨r.start⟩ ∧ String.Pos.Raw.IsValid text ⟨r.stop⟩ := by
  obtain ⟨front, inside, rest, c, chars, rfl, -, -⟩ := cut
  simp only [← Text.isBoundary_iff, chars, TextRange.start_ofSize, TextRange.stop_ofSize,
    ← Text.byteLength_append]
  refine ⟨?_, Text.isBoundary_byteLength _ _⟩
  rw [List.append_assoc]
  exact Text.isBoundary_byteLength _ _

theorem Token.size_ofList (k : Kind) (cs : List Char) :
    (Token.mk k (.ofList cs)).size = Text.byteLength cs := by
  rw [Token.size, ← Text.byteLength_toList, String.toList_ofList]

theorem tiles_lexChars (cs : List Char) (offset : Nat) :
    Tiles offset (offset + Text.byteLength cs)
      ((placeTokens offset ((lexChars cs).map Lexeme.token)).map Prod.snd) := by
  induction cs using lexChars.induct generalizing offset with
  | case1 => simpa [lexChars, placeTokens] using Tiles.nil offset
  | case2 c cs found ih =>
      have split : Text.byteLength (c :: cs) = Text.byteLength (c :: cs.take found.more) +
          Text.byteLength (cs.drop found.more) := by
        rw [← Text.byteLength_append, List.cons_append, List.take_append_drop]
      rw [lexChars, List.map_cons, placeTokens, List.map_cons, split, ← Nat.add_assoc]
      simp only [Token.size_ofList]
      refine .cons (r := .ofSize offset _) ?_ (ih _)
      have := c.utf8Size_pos
      simp
      omega

theorem cutAt_lexChars (front cs : List Char) :
    ∀ p ∈ placeTokens (Text.byteLength front) ((lexChars cs).map Lexeme.token),
      CutAt (.ofList (front ++ cs)) p.1 p.2 := by
  induction cs using lexChars.induct generalizing front with
  | case1 => simp [lexChars, placeTokens]
  | case2 c cs found ih =>
      have cut : cs.take found.more ++ cs.drop found.more = cs := List.take_append_drop _ _
      rw [lexChars, List.map_cons, placeTokens, List.forall_mem_cons]
      simp only [Token.size_ofList]
      constructor
      · refine ⟨front, cs.take found.more, cs.drop found.more, c, ?_, rfl, ?_, ?_⟩
        · rw [String.toList_ofList, List.append_assoc, List.cons_append, cut]
        · rw [cut]
        · rw [cut, List.length_take, Nat.min_eq_left (Lexer.cut_more_le c cs)]
      · have later := ih (front ++ c :: cs.take found.more)
        rwa [Text.byteLength_append, List.append_assoc, List.cons_append, cut] at later

/-! ### Faults -/

theorem lexFaults_sublist (ls : List Lexeme) (offset : Nat) :
    ((lexFaults offset ls).map Prod.snd).Sublist
      ((placeTokens offset (ls.map Lexeme.token)).map Prod.snd) := by
  induction ls generalizing offset with
  | nil => exact List.Sublist.refl _
  | cons l ls ih =>
      rw [lexFaults, List.map_cons, placeTokens, List.map_cons]
      split
      · exact (ih _).cons_cons _
      · exact (ih _).cons _

/-- A token with a fault has it at its own place. -/
theorem mem_lexFaults {ls : List Lexeme} (faulty : ∀ l ∈ ls, l.token.kind = .error → l.fault ≠ none)
    (offset : Nat) : ∀ p ∈ placeTokens offset (ls.map Lexeme.token), p.1.kind = .error →
      ∃ fault, (fault, p.2) ∈ lexFaults offset ls := by
  induction ls generalizing offset with
  | nil => exact fun p member => nomatch member
  | cons l ls ih =>
      obtain ⟨own, later⟩ := List.forall_mem_cons.mp faulty
      rw [List.map_cons, placeTokens, lexFaults, List.forall_mem_cons]
      constructor
      · intro error
        cases fault : l.fault with
        | none => exact absurd fault (own error)
        | some e => exact ⟨e, List.mem_cons_self⟩
      · intro p member error
        obtain ⟨fault, listed⟩ := ih later _ p member error
        refine ⟨fault, ?_⟩
        split
        · exact List.mem_cons_of_mem _ listed
        · exact listed

theorem lexChars_fault_of_error (cs : List Char) :
    ∀ l ∈ lexChars cs, l.token.kind = .error → l.fault ≠ none := by
  refine forall_lexemes (P := fun l => l.token.kind = .error → l.fault ≠ none) ?_ cs
  intro c cs error none
  cases (Lexer.cut_fault_of_error error).symm.trans none

/-- The tokens of a text lie side by side from its beginning to its end, each in whole characters
and as the text reads there. The ranges of the faults are some of theirs, in their order and none of
them twice, and a token of no known kind has a fault. -/
theorem lex_tiles (text : String) :
    let placed := placeTokens 0 ((lex text).map Lexeme.token)
    let faults := lexFaults 0 (lex text)
    Tiles 0 text.utf8ByteSize (placed.map Prod.snd) ∧
    (∀ p ∈ placed, CutAt text p.1 p.2 ∧
      String.Pos.Raw.IsValid text ⟨p.2.start⟩ ∧ String.Pos.Raw.IsValid text ⟨p.2.stop⟩) ∧
    (faults.map Prod.snd).Sublist (placed.map Prod.snd) ∧ (faults.map Prod.snd).Nodup ∧
    ∀ p ∈ placed, p.1.kind = .error → ∃ fault, (fault, p.2) ∈ faults := by
  intro placed faults
  have tiles : Tiles 0 text.utf8ByteSize (placed.map Prod.snd) := by
    have side := tiles_lexChars text.toList 0
    rwa [Nat.zero_add, Text.byteLength_toList] at side
  have inOrder : (faults.map Prod.snd).Sublist (placed.map Prod.snd) := lexFaults_sublist _ 0
  refine ⟨tiles, fun p member => ?_, inOrder, tiles.nodup.sublist inOrder, ?_⟩
  · have cut := cutAt_lexChars [] text.toList p member
    rw [List.nil_append, String.ofList_toList] at cut
    exact ⟨cut, cut.isValid⟩
  · exact mem_lexFaults (lexChars_fault_of_error text.toList) 0

/-- A character that begins no token, behind a name of two bytes and a string that is not closed. -/
theorem lex_tiles_unexpected :
    let placed := placeTokens 0 ((lex "é\"\\\n#").map Lexeme.token)
    let faults := lexFaults 0 (lex "é\"\\\n#")
    (⟨.error, "#"⟩, .ofSize 5 1) ∈ placed ∧ faults.map Prod.snd = [.ofSize 2 2, .ofSize 5 1] ∧
      CutAt "é\"\\\n#" ⟨.error, "#"⟩ (.ofSize 5 1) ∧
      ∃ fault, (fault, TextRange.ofSize 5 1) ∈ faults := by
  intro placed faults
  obtain ⟨member, ranges⟩ : (⟨.error, "#"⟩, .ofSize 5 1) ∈ placed ∧
      faults.map Prod.snd = [.ofSize 2 2, .ofSize 5 1] := by decide +kernel
  obtain ⟨-, cuts, -, -, faulty⟩ := lex_tiles "é\"\\\n#"
  exact ⟨member, ranges, (cuts _ member).1, faulty _ member rfl⟩

end SharpRefactor
