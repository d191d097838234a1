import Mathlib.Data.List.Find
import SharpRefactor.Proofs.Lexing
import SharpRefactor.Syntax.View

/-!
Names, and how they are cut from a text. A name ends where a character follows that cannot go on
with it, so the tokens of names written with marks between them are known before anything is lexed;
and every identifier that was cut from a text is a name, with or without the sign in front of it.
-/

namespace SharpRefactor

open Unicode

namespace Unicode

/-- A character in one of some ranges is in none of the ranges that lie apart from them. -/
theorem inRanges_of_apart {rs ss : List (Nat × Nat)} {c : Char}
    (apart : rs.all fun r => ss.all fun s => Nat.blt r.2 s.1 || Nat.blt s.2 r.1)
    (h : inRanges rs c = true) : inRanges ss c = false := by
  obtain ⟨r, listed, inside⟩ := List.any_eq_true.mp h
  refine List.any_eq_false.mpr fun s listed' inside' => ?_
  have sides := List.all_eq_true.mp (List.all_eq_true.mp apart r listed) s listed'
  simp only [Bool.or_eq_true, Bool.and_eq_true, decide_eq_true_eq, Nat.blt_eq]
    at inside inside' sides
  omega

/-- White space is no part of an identifier. -/
theorem isIdentContinue_of_isWhiteSpace {c : Char} (h : isWhiteSpace c = true) :
    isIdentContinue c = false := by
  have starts : inRanges identStartRanges c = false := inRanges_of_apart (by decide +kernel) h
  have extras : inRanges identExtraRanges c = false := inRanges_of_apart (by decide +kernel) h
  have beside : c.toNat ≤ 32 ∨ 123 ≤ c.toNat := by
    simp only [isWhiteSpace, inRanges, List.any_cons, List.any_nil, Bool.or_false, Bool.or_eq_true,
      Bool.and_eq_true, decide_eq_true_eq] at h
    omega
  have letter : c.isAlpha = false := by
    refine Bool.eq_false_iff.mpr fun letter => ?_
    rcases (Bool.or_eq_true _ _).mp letter with upper | lower
    · obtain ⟨first, last⟩ := of_decide_eq_true upper
      have : 65 ≤ c.toNat := UInt32.le_iff_toNat_le.mp first
      have : c.toNat ≤ 90 := UInt32.le_iff_toNat_le.mp last
      omega
    · obtain ⟨first, last⟩ := (Bool.and_eq_true _ _).mp lower
      have : 97 ≤ c.toNat := UInt32.le_iff_toNat_le.mp (of_decide_eq_true first)
      have : c.toNat ≤ 122 := UInt32.le_iff_toNat_le.mp (of_decide_eq_true last)
      omega
  have digit : c.isDigit = false := by
    refine Bool.eq_false_iff.mpr fun digit => ?_
    have : 48 ≤ c.toNat ∧ c.toNat ≤ 57 := Char.isDigit_iff_toNat.mp digit
    omega
  have line : c ≠ '_' := by
    rintro rfl
    exact absurd beside (by decide)
  simp [isIdentContinue, isIdentStart, letter, digit, line, starts, extras]

theorem isIdentStart_of_isDigit {c : Char} (h : c.isDigit = true) : isIdentStart c = false := by
  have digits : ∀ n ∈ [48, 49, 50, 51, 52, 53, 54, 55, 56, 57],
      isIdentStart (Char.ofNat n) = false := by
    decide
  have place : 48 ≤ c.toNat ∧ c.toNat ≤ 57 := Char.isDigit_iff_toNat.mp h
  have listed := digits c.toNat (by
    simp only [List.mem_cons, List.not_mem_nil, or_false]
    omega)
  rwa [Char.ofNat_toNat] at listed

theorem isWhiteSpace_of_isIdentContinue {c : Char} (h : isIdentContinue c = true) :
    isWhiteSpace c = false := by
  cases blank : isWhiteSpace c with
  | false => rfl
  | true => rw [isIdentContinue_of_isWhiteSpace blank] at h; cases h

end Unicode

/-- A text that is one identifier without the sign in front of it. -/
def IsName (w : String) : Prop :=
  ∃ c cs, w.toList = c :: cs ∧ isIdentStart c = true ∧ ∀ d ∈ cs, isIdentContinue d = true

def IsWord (w : String) : Prop := IsName w ∨ ∃ v, IsName v ∧ w.toList = '@' :: v.toList

theorem IsName.isWord {w : String} (h : IsName w) : IsWord w := .inl h

theorem IsName.all {w : String} (h : IsName w) : ∀ c ∈ w.toList, isIdentContinue c = true := by
  obtain ⟨c, cs, split, first, rest⟩ := h
  rw [split, List.forall_mem_cons]
  exact ⟨isIdentContinue_of_isIdentStart first, rest⟩

def Token.word (w : String) : Token := ⟨(Kind.ofKeyword? w).getD .identifier, w⟩

/-- No keyword begins with the sign that makes a word an identifier. -/
theorem Kind.ofKeyword?_verbatim {w : String} {cs : List Char} (sign : w.toList = '@' :: cs) :
    ofKeyword? w = none := by
  rw [ofKeyword?, List.find?_eq_none]
  intro k listed spelt
  have plain : ∀ k ∈ keywords, ∀ text ∈ k.fixedText?, text.toList.head? ≠ some '@' := by
    decide
  simp only [decide_eq_true_eq] at spelt
  exact plain k listed w spelt (by rw [sign]; rfl)

def nameMarks : List (Kind × Char) :=
  [(.dot, '.'), (.comma, ','), (.less, '<'), (.greater, '>'), (.lBracket, '['), (.rBracket, ']')]

def Stops (rest : List Char) : Prop := ∀ c ∈ rest.head?, c ∈ nameMarks.map (·.2)

def BeginsWord (cs : List Char) : Prop :=
  ∃ c rest, cs = c :: rest ∧ (isIdentStart c = true ∨ c = '@')

theorem IsWord.begins {w : String} (h : IsWord w) (rest : List Char) :
    BeginsWord (w.toList ++ rest) := by
  rcases h with ⟨c, cs, split, first, -⟩ | ⟨v, -, sign⟩
  · exact ⟨c, cs ++ rest, by rw [split]; rfl, .inl first⟩
  · exact ⟨'@', v.toList ++ rest, by rw [sign]; rfl, .inr rfl⟩

namespace Lexer

theorem run_append {p : Char → Bool} {cs rest : List Char} (all : ∀ c ∈ cs, p c = true)
    (stops : ∀ c ∈ rest.head?, p c = false) : run p (cs ++ rest) = cs.length := by
  rw [run, List.takeWhile_append_of_pos all]
  cases rest with
  | nil => simp
  | cons c rest => simp [stops c rfl]

end Lexer

/-- A stop is no part of a name. -/
theorem Stops.not_continue {rest : List Char} (h : Stops rest) :
    ∀ c ∈ rest.head?, isIdentContinue c = false := by
  have each : ∀ p ∈ nameMarks, isIdentContinue p.2 = false := by decide
  intro c first
  obtain ⟨p, mark, rfl⟩ := List.mem_map.mp (h c first)
  exact each p mark

section Cutting

variable {rest : List Char}

theorem lexChars_name {w : String} (h : IsName w) (stops : Stops rest) :
    lexChars (w.toList ++ rest) = ⟨Token.word w, none⟩ :: lexChars rest := by
  have whole := h.all
  obtain ⟨c, cs, split, first, inside⟩ := h
  have real : isWhiteSpace c = false :=
    isWhiteSpace_of_isIdentContinue (isIdentContinue_of_isIdentStart first)
  have notSign : c ≠ '@' := by rintro rfl; exact absurd first (by decide)
  have notSlash : c ≠ '/' := by rintro rfl; exact absurd first (by decide)
  have length := Lexer.run_append inside stops.not_continue
  have text : String.ofList (c :: cs) = w := by rw [← split, String.ofList_toList]
  rw [split, List.cons_append, lexChars]
  simp [Lexer.cut, real, notSign, notSlash, first, length, text, Token.word]

theorem lexChars_word {w : String} (h : IsWord w) (stops : Stops rest) :
    lexChars (w.toList ++ rest) = ⟨Token.word w, none⟩ :: lexChars rest := by
  rcases h with name | ⟨v, name, sign⟩
  · exact lexChars_name name stops
  have length := Lexer.run_append name.all stops.not_continue
  obtain ⟨c, cs, split, first, -⟩ := name
  have notQuote : c ≠ '"' := by rintro rfl; exact absurd first (by decide)
  have text : String.ofList ('@' :: c :: cs) = w := by rw [← split, ← sign, String.ofList_toList]
  have white : isWhiteSpace '@' = false := by decide
  rw [split, List.cons_append] at length
  rw [sign, split, List.cons_append, List.cons_append, lexChars]
  simp [Lexer.cut, white, notQuote, Lexer.startsWith, first, length, text, Token.word,
    Kind.ofKeyword?_verbatim sign]

/-- A longer mark than one of these ends in an equals sign. -/
theorem mark?_eq_some {k : Kind} {c : Char} (mark : (k, c) ∈ nameMarks)
    (ends : ∀ d ∈ rest.head?, d ≠ '=') : Lexer.mark? (c :: rest) = some k := by
  have each : ∀ p ∈ nameMarks, Lexer.mark? [p.2] = some p.1 := by decide
  have longer : ∀ p ∈ nameMarks, ∀ m ∈ Kind.marks,
      (Token.fixed m).text.toList.head? = some p.2 →
      (Token.fixed m).text.toList[1]? = none ∨ (Token.fixed m).text.toList[1]? = some '=' := by
    decide
  rw [← each (k, c) mark]
  refine List.find?_congr fun m known => ?_
  have second := longer (k, c) mark m known
  generalize (Token.fixed m).text.toList = text at second
  cases text with
  | nil => rfl
  | cons a text =>
      cases text with
      | nil => simp [List.isPrefixOf]
      | cons e more =>
          have short : (a :: e :: more).isPrefixOf [c] = false := by simp [List.isPrefixOf]
          rw [short, Bool.eq_false_iff, ne_eq, List.isPrefixOf_iff_prefix]
          intro fits
          obtain ⟨same, behind⟩ := List.cons_prefix_cons.mp fits
          cases rest with
          | nil => cases List.prefix_nil.mp behind
          | cons d rest =>
              have next := (List.cons_prefix_cons.mp behind).1
              have equals : e = '=' := by simpa using second (congrArg some same)
              exact ends d rfl (next ▸ equals)

/-- A mark is cut by itself where nothing follows that would make it a longer one. -/
theorem lexChars_mark {k : Kind} {c : Char} (mark : (k, c) ∈ nameMarks)
    (ends : ∀ d ∈ rest.head?, d ≠ '=' ∧ d.isDigit = false) :
    lexChars (c :: rest) = ⟨Token.fixed k, none⟩ :: lexChars rest := by
  have alone : Lexer.mark? (c :: rest) = some k := mark?_eq_some mark fun d first => (ends d first).1
  have digit : Lexer.startsWith Char.isDigit rest = false := by
    cases rest with
    | nil => rfl
    | cons d rest => simpa [Lexer.startsWith] using (ends d rfl).2
  have plain : ∀ p ∈ nameMarks, isWhiteSpace p.2 = false ∧ p.2 ≠ '/' ∧ p.2 ≠ '@' ∧
      isIdentStart p.2 = false ∧ p.2.isDigit = false ∧ p.2 ≠ '"' ∧ p.2 ≠ '\'' ∧
      Token.fixed p.1 = ⟨p.1, String.ofList [p.2]⟩ := by
    decide
  obtain ⟨white, slash, sign, start, number, quote, quote', text⟩ := plain (k, c) mark
  rw [lexChars]
  simp [Lexer.cut, white, slash, sign, start, number, digit, quote, quote', alone, text]

/-- A blank is cut by itself where no white space follows. -/
theorem lexChars_blank (ends : ∀ d ∈ rest.head?, isWhiteSpace d = false) :
    lexChars (' ' :: rest) = ⟨Token.blank, none⟩ :: lexChars rest := by
  have none : Lexer.run isWhiteSpace rest = 0 := Lexer.run_append (List.forall_mem_nil _) ends
  have white : isWhiteSpace ' ' = true := by decide
  rw [lexChars]
  simp [Lexer.cut, white, none, Token.blank]

theorem BeginsWord.not_mark (h : BeginsWord rest) :
    ∀ d ∈ rest.head?, d ≠ '=' ∧ d.isDigit = false := by
  obtain ⟨c, cs, rfl, first⟩ := h
  rintro d ⟨⟩
  rcases first with start | rfl
  · refine ⟨?_, ?_⟩
    · rintro rfl
      exact absurd start (by decide)
    · cases digit : c.isDigit with
      | false => rfl
      | true => rw [isIdentStart_of_isDigit digit] at start; cases start
  · decide

theorem BeginsWord.not_white (h : BeginsWord rest) : ∀ d ∈ rest.head?, isWhiteSpace d = false := by
  obtain ⟨c, cs, rfl, first⟩ := h
  rintro d ⟨⟩
  rcases first with start | rfl
  · exact isWhiteSpace_of_isIdentContinue (isIdentContinue_of_isIdentStart start)
  · decide

end Cutting

/-! ### What is cut as an identifier -/

theorem Lexer.take_run (p : Char → Bool) (cs : List Char) : cs.take (run p cs) = cs.takeWhile p :=
  (List.prefix_iff_eq_take.mp (List.takeWhile_prefix p)).symm

/-- What is cut as an identifier is a run of the characters of one, after its sign if it has it. -/
theorem Lexer.cut_identifier {c : Char} {cs : List Char} : (cut c cs).kind = .identifier →
    (c = '@' ∧ startsWith isIdentStart cs = true ∨ isIdentStart c = true ∧
      Kind.ofKeyword? (String.ofList (c :: cs.takeWhile isIdentContinue)) = none) ∧
      (cut c cs).more = run isIdentContinue cs := by
  apply cut_cases (P := fun found => found.kind = .identifier →
    (c = '@' ∧ startsWith isIdentStart cs = true ∨ isIdentStart c = true ∧
      Kind.ofKeyword? (String.ofList (c :: cs.takeWhile isIdentContinue)) = none) ∧
      found.more = run isIdentContinue cs)
  case name =>
    rw [take_run]
    exact fun form _ => ⟨form, rfl⟩
  case keyword =>
    rintro k found rfl
    exact absurd (List.mem_of_find?_eq_some found) (by decide)
  case numeral => rcases number_kind (c :: cs) with h | h <;> simp [h]
  case mark =>
    rintro k found rfl
    exact absurd (List.mem_of_find?_eq_some found) (by decide)
  all_goals simp

theorem Lexer.cut_identifier_word {c : Char} {cs : List Char} (kind : (cut c cs).kind = .identifier) :
    let w := String.ofList (c :: cs.take (cut c cs).more)
    IsWord w ∧ Token.word w = ⟨.identifier, w⟩ := by
  have inside : ∀ ds : List Char, ∀ d ∈ ds.takeWhile isIdentContinue, isIdentContinue d = true :=
    fun ds d member => List.all_eq_true.mp (List.all_takeWhile (p := isIdentContinue)) d member
  obtain ⟨first, length⟩ := cut_identifier kind
  rw [length, take_run]
  rcases first with ⟨rfl, start⟩ | ⟨start, plain⟩
  · obtain ⟨d, ds, rfl, start⟩ : ∃ d ds, cs = d :: ds ∧ isIdentStart d = true := by
      cases cs with
      | nil => cases start
      | cons d ds => exact ⟨d, ds, rfl, by simpa [startsWith] using start⟩
    rw [List.takeWhile_cons_of_pos (isIdentContinue_of_isIdentStart start)]
    refine ⟨.inr ⟨String.ofList (d :: ds.takeWhile isIdentContinue), ?_, by simp⟩, ?_⟩
    · exact ⟨d, _, String.toList_ofList, start, inside ds⟩
    · rw [Token.word, Kind.ofKeyword?_verbatim String.toList_ofList]
      rfl
  · exact ⟨.inl ⟨c, _, String.toList_ofList, start, inside cs⟩, by rw [Token.word, plain]; rfl⟩

/-- An identifier of a text is a word, and none that is reserved. -/
theorem lex_identifier {text : String} {t : Token} (member : t ∈ (lex text).map Lexeme.token)
    (kind : t.kind = .identifier) : IsWord t.text ∧ Token.word t.text = t := by
  refine forall_lexChars (P := fun t => t.kind = .identifier → IsWord t.text ∧ Token.word t.text = t)
    (fun c cs kind => ?_) _ t member kind
  have own := Lexer.cut_identifier_word kind
  simp only at kind own ⊢
  rwa [kind]

/-- A name has no sign to drop. -/
theorem IsName.dropWhile_sign {w : String} (h : IsName w) :
    w.toList.dropWhile (· == '@') = w.toList := by
  obtain ⟨c, cs, split, start, -⟩ := h
  have notSign : c ≠ '@' := by rintro rfl; exact absurd start (by decide)
  rw [split, List.dropWhile_cons_of_neg (by simpa using notSign)]

theorem IsName.plainName_eq {w : String} (h : IsName w) : Node.plainName w = w := by
  rw [Node.plainName, h.dropWhile_sign, String.ofList_toList]

theorem IsWord.plainName {w : String} (h : IsWord w) : IsName (Node.plainName w) := by
  rcases h with name | ⟨v, name, sign⟩
  · rwa [name.plainName_eq]
  · rwa [Node.plainName, sign, List.dropWhile_cons_of_pos (by rfl), name.dropWhile_sign,
      String.ofList_toList]

end SharpRefactor
