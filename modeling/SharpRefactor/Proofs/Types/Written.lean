import SharpRefactor.Proofs.Types.Display

/-!
The tokens of a written type. A type is written with words and marks, so its text is cut into their
tokens whatever it is put into; read as a type it gives the tree that has just those tokens.
-/

namespace SharpRefactor

open Unicode

theorem Token.word_solid (w : String) : (Token.word w).isTrivia = false := by
  unfold Token.word
  cases found : Kind.ofKeyword? w with
  | none => rfl
  | some k =>
      have solid : ∀ k ∈ Kind.keywords, k.isTrivia = false := by decide
      exact solid k (List.mem_of_find?_eq_some found)

theorem BeginsWord.append {cs : List Char} (h : BeginsWord cs) (rest : List Char) :
    BeginsWord (cs ++ rest) := by
  obtain ⟨c, cs, rfl, first⟩ := h
  exact ⟨c, cs ++ rest, rfl, first⟩

theorem Stops.nil : Stops [] := nofun

theorem stops_cons {k : Kind} {c : Char} (mark : (k, c) ∈ nameMarks) (rest : List Char) :
    Stops (c :: rest) := by
  rintro d ⟨⟩
  exact List.mem_map.mpr ⟨(k, c), mark, rfl⟩

/-- What a mark follows is no longer mark with it. -/
theorem Stops.not_mark {rest : List Char} (h : Stops rest) :
    ∀ d ∈ rest.head?, d ≠ '=' ∧ d.isDigit = false := by
  have each : ∀ p ∈ nameMarks, p.2 ≠ '=' ∧ p.2.isDigit = false := by decide
  intro d first
  obtain ⟨p, mark, rfl⟩ := List.mem_map.mp (h d first)
  exact each p mark

/-- The text `cs` is cut into tokens without faults up to where `rest` begins; `ts` are those that
are not trivia. -/
def Cuts (cs rest : List Char) (ts : List Token) : Prop :=
  ∃ all, bareTokens all = ts ∧ lexChars cs = all.map (⟨·, none⟩) ++ lexChars rest

namespace Cuts

variable {cs rest : List Char} {ts us : List Token}

theorem trans {mid : List Char} (first : Cuts cs mid ts) (second : Cuts mid rest us) :
    Cuts cs rest (ts ++ us) := by
  obtain ⟨all, rfl, cut⟩ := first
  obtain ⟨all', rfl, cut'⟩ := second
  refine ⟨all ++ all', by simp [bareTokens], ?_⟩
  rw [cut, cut', List.map_append, List.append_assoc]

theorem single {t : Token} (solid : t.isTrivia = false)
    (cut : lexChars cs = ⟨t, none⟩ :: lexChars rest) : Cuts cs rest [t] :=
  ⟨[t], bareTokens_cons solid [], cut⟩

theorem word {w : String} (h : IsWord w) (stops : Stops rest) :
    Cuts (w.toList ++ rest) rest [.word w] :=
  single (Token.word_solid w) (lexChars_word h stops)

theorem mark {k : Kind} {c : Char} (mark : (k, c) ∈ nameMarks)
    (ends : ∀ d ∈ rest.head?, d ≠ '=' ∧ d.isDigit = false) : Cuts (c :: rest) rest [.fixed k] := by
  have solid : ∀ p ∈ nameMarks, (Token.fixed p.1).isTrivia = false := by decide
  exact single (solid _ mark) (lexChars_mark mark ends)

theorem blank (begins : BeginsWord rest) : Cuts (' ' :: rest) rest [] :=
  ⟨[.blank], rfl, lexChars_blank begins.not_white⟩

end Cuts

/-- A text that is cut into some tokens wherever a mark follows it. -/
structure Writes (text : String) (ts : List Token) : Prop where
  begins : BeginsWord text.toList
  ends : ∃ cs c, text.toList = cs ++ [c] ∧ isWhiteSpace c = false
  plain : Uncommented text
  cut : ∀ rest, Stops rest → Cuts (text.toList ++ rest) rest ts

namespace Writes

variable {text : String} {ts : List Token}

theorem word {w : String} (h : IsWord w) : Writes w [.word w] where
  begins := by simpa using h.begins []
  ends := by
    have last : ∀ {v : String}, IsName v →
        ∃ cs c, v.toList = cs ++ [c] ∧ isWhiteSpace c = false := by
      intro v name
      have some : v.toList ≠ [] := by
        obtain ⟨c, cs, split, -⟩ := name
        rw [split]
        exact List.cons_ne_nil c cs
      exact ⟨_, _, (List.dropLast_append_getLast some).symm,
        isWhiteSpace_of_isIdentContinue (name.all _ (List.getLast_mem some))⟩
    rcases h with name | ⟨v, name, sign⟩
    · exact last name
    · obtain ⟨cs, c, split, solid⟩ := last name
      exact ⟨'@' :: cs, c, by rw [sign, split]; rfl, solid⟩
  plain := h.uncommented
  cut _ stops := .word h stops

/-- More can be written behind a text if it begins with a mark and does not end in a blank. -/
theorem append (h : Writes text ts) {more : String} {us : List Token} {k : Kind} {c d : Char}
    {cs ds : List Char} (mark : (k, c) ∈ nameMarks) (first : more.toList = c :: cs)
    (last : more.toList = ds ++ [d]) (solid : isWhiteSpace d = false) (plain : Uncommented more)
    (cut : ∀ rest, Stops rest → Cuts (more.toList ++ rest) rest us) :
    Writes (text ++ more) (ts ++ us) where
  begins := by
    rw [String.toList_append]
    exact h.begins.append _
  ends := ⟨text.toList ++ ds, d, by rw [String.toList_append, last, List.append_assoc], solid⟩
  plain := h.plain.append plain
  cut rest stops := by
    rw [String.toList_append, List.append_assoc]
    refine (h.cut _ ?_).trans (cut rest stops)
    rw [first]
    exact stops_cons mark _

theorem dot (h : Writes text ts) {w : String} (name : IsName w) :
    Writes s!"{text}.{w}" (ts ++ [.fixed .dot, .word w]) := by
  have own := word name.isWord
  obtain ⟨cs, c, split, solid⟩ := own.ends
  have chars : (s!".{w}").toList = '.' :: w.toList := by simp [toString]
  have whole : s!"{text}.{w}" = text ++ s!".{w}" := by simp [toString, String.append_assoc]
  rw [whole]
  have last : (s!".{w}").toList = ('.' :: cs) ++ [c] := by rw [chars, split]; rfl
  refine h.append (k := .dot) (by decide) chars last solid ?_ ?_
  · rw [Uncommented, chars, List.mem_cons, not_or]
    exact ⟨by decide, own.plain⟩
  · intro rest stops
    rw [chars]
    exact (Cuts.mark (k := .dot) (by decide) (own.begins.append rest).not_mark).trans
      (.word name.isWord stops)

theorem array (h : Writes text ts) :
    Writes (text ++ "[]") (ts ++ [.fixed .lBracket, .fixed .rBracket]) := by
  have chars : "[]".toList = ['[', ']'] := rfl
  have last : "[]".toList = ['['] ++ [']'] := rfl
  refine h.append (k := .lBracket) (by decide) chars last (by decide)
    (by simp [Uncommented]) fun rest stops => ?_
  rw [chars]
  exact (Cuts.mark (k := .lBracket) (by decide) (by simp)).trans
    (.mark (k := .rBracket) (by decide) stops.not_mark)

end Writes

/-! ### Arguments -/

def Forest.separated (Ts : Forest) : Forest := Ts.intersperse (.leaf (.fixed .comma))

def Tree.argumentList (Ts : Forest) : Tree :=
  .node .typeArgumentList (.leaf (.fixed .less) :: (Ts.separated ++ [.leaf (.fixed .greater)]))

abbrev WritesAll := List.Forall₂ fun text (T : Tree) => Writes text T.tokens

namespace WritesAll

variable {text : String} {texts : List String} {T : Tree} {Ts : Forest}

theorem begins (each : WritesAll (text :: texts) (T :: Ts)) :
    BeginsWord (String.intercalate ", " (text :: texts)).toList := by
  cases each with
  | cons own others =>
      cases texts with
      | nil => simpa using own.begins
      | cons b texts =>
          rw [String.intercalate_cons_cons, String.append_assoc, String.toList_append]
          exact own.begins.append _

theorem cut (each : WritesAll (text :: texts) (T :: Ts)) {rest : List Char} (stops : Stops rest) :
    Cuts ((String.intercalate ", " (text :: texts)).toList ++ rest) rest
      (Forest.tokens (Forest.separated (T :: Ts))) := by
  induction texts generalizing text T Ts with
  | nil =>
      cases each with
      | cons own others =>
          cases others
          simpa [Forest.separated] using own.cut rest stops
  | cons b texts ih =>
      cases each with
      | cons own others =>
          obtain ⟨U, Us, rfl⟩ : ∃ U Us, Ts = U :: Us := by
            cases others with
            | @cons _ U _ Us => exact ⟨U, Us, rfl⟩
          have comma : ", ".toList = [',', ' '] := rfl
          have tokens : Forest.tokens (Forest.separated (T :: U :: Us)) =
              T.tokens ++ ([.fixed .comma] ++ ([] ++ Forest.tokens (Forest.separated (U :: Us)))) := by
            simp [Forest.separated]
          rw [String.intercalate_cons_cons, String.toList_append, String.toList_append, comma,
            List.append_assoc, List.append_assoc, tokens]
          exact (own.cut _ (stops_cons (k := .comma) (by decide) _)).trans
            ((Cuts.mark (k := .comma) (by decide) (by simp)).trans
              ((Cuts.blank ((begins others).append rest)).trans (ih others)))

end WritesAll

theorem Writes.bracketed {text : String} {ts : List Token} (h : Writes text ts) {texts : List String}
    {Ts : Forest} (each : WritesAll texts Ts) :
    Writes (text ++ bracketed texts)
      (ts ++ if Ts.isEmpty then [] else (Tree.argumentList Ts).tokens) := by
  cases each with
  | nil => simpa [SharpRefactor.bracketed] using h
  | @cons a T texts Ts own others =>
      have all : WritesAll (a :: texts) (T :: Ts) := .cons own others
      have plain := Uncommented.bracketed
        (Table.forall_of_forall₂ (all.flip.imp fun _ _ own => own.plain))
      generalize inside : String.intercalate ", " (a :: texts) = middle
      have chars : (SharpRefactor.bracketed (a :: texts)).toList = '<' :: (middle.toList ++ ['>']) := by
        simp [SharpRefactor.bracketed, inside]
      have tokens : (if (T :: Ts).isEmpty then [] else (Tree.argumentList (T :: Ts)).tokens) =
          [.fixed .less] ++ (Forest.tokens (Forest.separated (T :: Ts)) ++ [.fixed .greater]) := by
        simp [Tree.argumentList, Forest.tokens_append]
      rw [tokens]
      have last : (SharpRefactor.bracketed (a :: texts)).toList =
          ('<' :: middle.toList) ++ ['>'] := chars
      refine h.append (k := .less) (by decide) chars last (by decide)
        plain fun rest stops => ?_
      have begins := all.begins
      have cut := all.cut (stops_cons (k := .greater) (c := '>') (by decide) rest)
      rw [inside] at begins cut
      rw [chars, List.cons_append, List.append_assoc]
      exact (Cuts.mark (k := .less) (by decide) (begins.append _).not_mark).trans
        (cut.trans (.mark (k := .greater) (by decide) stops.not_mark))

/-! ### Reading what is written -/

namespace Writes

variable {text : String} {ts : List Token}

theorem trimmed_eq (h : Writes text ts) : trimmed text = text := by
  obtain ⟨cs, c, last, solid⟩ := h.ends
  obtain ⟨d, ds, first, -⟩ := h.begins
  have front : isWhiteSpace d = false := h.begins.not_white d (by rw [first]; rfl)
  rw [trimmed, first, List.dropWhile_cons_of_neg (by simp [front]), ← first, last, List.reverse_append]
  rw [List.reverse_singleton, List.singleton_append, List.dropWhile_cons_of_neg (by simp [solid])]
  rw [List.reverse_cons, List.reverse_reverse, ← last, String.ofList_toList]

theorem lexed (h : Writes text ts) :
    bareTokens ((lex (trimmed text)).map Lexeme.token) = ts ∧
      lexicalErrors (lex (trimmed text)) = [] := by
  obtain ⟨all, bare, cut⟩ := h.cut [] .nil
  have faultless : ∀ (offset : Nat) (all : List Token),
      lexFaults offset (all.map (⟨·, none⟩)) = [] := by
    intro offset all
    induction all generalizing offset with
    | nil => rfl
    | cons t ts ih => exact ih _
  have none : lexChars [] = [] := by rw [lexChars]
  rw [List.append_nil, none, List.append_nil] at cut
  rw [h.trimmed_eq, lex, cut, lexicalErrors, faultless]
  simpa [Function.comp_def] using bare

variable {t : Table} {s : Scope} {type : Ty}

/-- A text that means a type is the tokens of a tree that does. -/
theorem means (h : Writes text ts) (binds : t.bindsTo s type text = .ok true) :
    ∃ tree T, tree.bare = [T] ∧ Spells .whole [T] ∧ T.tokens = ts ∧
      parseTypeName text = .ok tree ∧ t.resolve s tree.typeSyntax = some type := by
  unfold Table.bindsTo at binds
  split at binds
  · next tree accepted =>
    obtain ⟨T, bare, whole, tokens⟩ := parseTypeName_sound accepted
    rw [h.lexed.1] at tokens
    exact ⟨tree, T, bare, whole, tokens, accepted, by simpa using binds⟩
  · cases binds
  · cases binds

end Writes

end SharpRefactor
