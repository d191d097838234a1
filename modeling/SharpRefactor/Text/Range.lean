/-!
Half-open ranges of byte offsets in a text. Offsets count the bytes of the UTF-8 form.
-/

namespace SharpRefactor

/-- The bytes from `start` up to, not including, `stop`. -/
structure TextRange where
  start : Nat
  stop : Nat
  start_le_stop : start ≤ stop := by omega
  deriving DecidableEq

namespace TextRange

instance : Inhabited TextRange := ⟨⟨0, 0, Nat.le_refl 0⟩⟩

/-- The range of `size` bytes that begins at `start`. -/
def ofSize (start size : Nat) : TextRange := ⟨start, start + size, Nat.le_add_right ..⟩

/-- The range without bytes at an offset. -/
def empty (offset : Nat) : TextRange := ⟨offset, offset, Nat.le_refl _⟩

def size (r : TextRange) : Nat := r.stop - r.start

def isEmpty (r : TextRange) : Bool := r.start = r.stop

/-- Whether the byte at `offset` lies in the range. -/
def contains (r : TextRange) (offset : Nat) : Bool := r.start ≤ offset && offset < r.stop

/-- Whether all of `inner` lies in the range; an end may touch. -/
def covers (r inner : TextRange) : Bool := r.start ≤ inner.start && inner.stop ≤ r.stop

/-- A range as messages write it. -/
def describe (r : TextRange) : String := s!"{r.start}..{r.stop}"

@[ext] theorem ext {r s : TextRange} (h₁ : r.start = s.start) (h₂ : r.stop = s.stop) : r = s := by
  cases r; cases s; simp_all

@[simp] theorem start_ofSize (n k : Nat) : (TextRange.ofSize n k).start = n := rfl

@[simp] theorem stop_ofSize (n k : Nat) : (TextRange.ofSize n k).stop = n + k := rfl

@[simp] theorem size_ofSize (n k : Nat) : (TextRange.ofSize n k).size = k := by simp [size]

end TextRange
end SharpRefactor
