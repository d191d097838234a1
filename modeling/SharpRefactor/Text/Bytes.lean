/-!
Measuring and cutting text in bytes of its UTF-8 form.
-/

namespace SharpRefactor.Text

/-- Length in bytes. -/
def byteLength : List Char → Nat
  | [] => 0
  | c :: cs => c.utf8Size + byteLength cs

/-- Cuts a text so that the first part is as long as possible within `n` bytes. -/
def splitBytes : Nat → List Char → List Char × List Char
  | _, [] => ([], [])
  | n, c :: cs =>
    if c.utf8Size ≤ n then
      let (front, rest) := splitBytes (n - c.utf8Size) cs
      (c :: front, rest)
    else ([], c :: cs)

/-- Whether an offset stands between two characters, or at an end of the text. -/
def isBoundary (cs : List Char) (offset : Nat) : Bool :=
  byteLength (splitBytes offset cs).1 == offset

/-- The text with the bytes from `start` to `stop` replaced. -/
def replaceBytes (cs : List Char) (start stop : Nat) (replacement : List Char) : List Char :=
  (splitBytes start cs).1 ++ replacement ++ (splitBytes stop cs).2

@[simp] theorem byteLength_nil : byteLength [] = 0 := rfl

@[simp] theorem byteLength_cons (c : Char) (cs : List Char) :
    byteLength (c :: cs) = c.utf8Size + byteLength cs := rfl

theorem byteLength_append (cs ds : List Char) :
    byteLength (cs ++ ds) = byteLength cs + byteLength ds := by
  induction cs with
  | nil => simp
  | cons c cs ih => simp [ih, Nat.add_assoc]

theorem splitBytes_append (n : Nat) (cs : List Char) :
    (splitBytes n cs).1 ++ (splitBytes n cs).2 = cs := by
  induction cs generalizing n with
  | nil => simp [splitBytes]
  | cons c cs ih =>
    simp only [splitBytes]
    split
    · simp [ih]
    · rfl

theorem byteLength_toList (s : String) : byteLength s.toList = s.utf8ByteSize := by
  have side : ∀ cs : List Char, byteLength cs = (String.ofList cs).utf8ByteSize := by
    intro cs
    induction cs with
    | nil => simp
    | cons c cs ih =>
      rw [byteLength_cons, ih, ← List.singleton_append, String.ofList_append,
        String.utf8ByteSize_append]
      simp
  rw [side, String.ofList_toList]

/-- A cut at the end of a part gives that part back. -/
theorem splitBytes_byteLength (cs ds : List Char) :
    splitBytes (byteLength cs) (cs ++ ds) = (cs, ds) := by
  induction cs with
  | nil =>
    cases ds with
    | nil => rfl
    | cons d ds => simp [splitBytes, Nat.pos_iff_ne_zero.mp d.utf8Size_pos]
  | cons c cs ih => simp [splitBytes, ih]

theorem isBoundary_byteLength (cs ds : List Char) : isBoundary (cs ++ ds) (byteLength cs) := by
  simp [isBoundary, splitBytes_byteLength]

/-- To replace the bytes of a middle part is to exchange that part. -/
theorem replaceBytes_middle (front middle rest new : List Char) :
    replaceBytes (front ++ middle ++ rest) (byteLength front) (byteLength (front ++ middle)) new =
      front ++ new ++ rest := by
  have first := splitBytes_byteLength front (middle ++ rest)
  have second := splitBytes_byteLength (front ++ middle) rest
  rw [replaceBytes, second, List.append_assoc front middle rest, first]

end SharpRefactor.Text
