/-!
Titles for rules, which take the place of the rules' own ones. They are kept in the order of the
rules' names. Main statement: the title of a rule is the one that was set last.
-/

namespace SharpRefactor

/-- Titles by the names of the rules, in the order of the names. -/
structure Titles where
  entries : List (String × String)
  deriving DecidableEq, Repr

namespace Titles

def empty : Titles := ⟨[]⟩

/-- Puts an entry in its place, in which it replaces an older one. -/
def insertEntry (id title : String) : List (String × String) → List (String × String)
  | [] => [(id, title)]
  | (key, value) :: es =>
    if id < key then (id, title) :: (key, value) :: es
    else if id = key then (id, title) :: es
    else (key, value) :: insertEntry id title es

/-- Sets the title of a rule. -/
def set (t : Titles) (id title : String) : Titles := ⟨insertEntry id title t.entries⟩

/-- The title that has been set for a rule. -/
def get? (t : Titles) (id : String) : Option String := t.entries.lookup id

/-- The titles set by some entries, one after the other. -/
def ofList (entries : List (String × String)) : Titles :=
  entries.foldl (fun t (id, title) => t.set id title) empty

theorem lookup_insertEntry (id title key : String) (es : List (String × String)) :
    (insertEntry id title es).lookup key = if key = id then some title else es.lookup key := by
  induction es with
  | nil => grind [insertEntry]
  | cons e es ih => grind [insertEntry]

/-- The title of a rule is the one that was set last. -/
theorem get?_set (t : Titles) (id title key : String) :
    (t.set id title).get? key = if key = id then some title else t.get? key :=
  lookup_insertEntry id title key t.entries

end Titles
end SharpRefactor
