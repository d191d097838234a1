import Mathlib.Data.List.Forall2

/-!
Lists and options whose items are related one by one: what is looked for in both, or made of both, is
found in the same places and comes out related, or equal.
-/

namespace Option.Rel

variable {α β γ : Type} {R S : α → β → Prop} {a : Option α} {b : Option β}

theorem imp (h : Option.Rel R a b) (each : ∀ {x y}, R x y → S x y) : Option.Rel S a b := by
  cases h with
  | none => exact .none
  | some related => exact .some (each related)

theorem bind {δ δ' : Type} {T : δ → δ' → Prop} (h : Option.Rel R a b) {f : α → Option δ}
    {g : β → Option δ'} (each : ∀ x y, R x y → Option.Rel T (f x) (g y)) :
    Option.Rel T (a.bind f) (b.bind g) := by
  cases h with
  | none => exact .none
  | some related => exact each _ _ related

theorem map {δ δ' : Type} {T : δ → δ' → Prop} (h : Option.Rel R a b) {f : α → δ} {g : β → δ'}
    (each : ∀ x y, R x y → T (f x) (g y)) : Option.Rel T (a.map f) (b.map g) := by
  cases h with
  | none => exact .none
  | some related => exact .some (each _ _ related)

theorem toList (h : Option.Rel R a b) : List.Forall₂ R a.toList b.toList := by
  cases h with
  | none => exact .nil
  | some related => exact .cons related .nil

theorem bind_eq (h : Option.Rel R a b) {f : α → Option γ} {g : β → Option γ}
    (each : ∀ x y, R x y → g y = f x) : b.bind g = a.bind f := by
  cases h with
  | none => rfl
  | some related => exact each _ _ related

theorem map_eq (h : Option.Rel R a b) {f : α → γ} {g : β → γ}
    (each : ∀ x y, R x y → g y = f x) : b.map g = a.map f := by
  cases h with
  | none => rfl
  | some related => exact congrArg Option.some (each _ _ related)

theorem any_eq (h : Option.Rel R a b) {p : α → Bool} {q : β → Bool}
    (each : ∀ x y, R x y → q y = p x) : b.any q = a.any p := by
  cases h with
  | none => rfl
  | some related => exact each _ _ related

end Option.Rel

namespace List.Forall₂

variable {α β γ : Type} {R S : α → β → Prop} {l : List α} {l' : List β}

theorem head? (h : Forall₂ R l l') : Option.Rel R l.head? l'.head? := by
  cases h with
  | nil => exact .none
  | cons related _ => exact .some related

theorem getElem? (h : Forall₂ R l l') (i : Nat) : Option.Rel R l[i]? l'[i]? := by
  induction h generalizing i with
  | nil => exact .none
  | cons related _ ih =>
      cases i with
      | zero => exact .some related
      | succ i => exact ih i

theorem find? (h : Forall₂ R l l') {p : α → Bool} {q : β → Bool}
    (each : ∀ a b, R a b → p a = q b) : Option.Rel R (l.find? p) (l'.find? q) := by
  induction h with
  | nil => exact .none
  | @cons a b _ _ related _ ih =>
      rw [List.find?_cons, List.find?_cons, ← each a b related]
      cases p a with
      | false => exact ih
      | true => exact .some related

theorem filter (h : Forall₂ R l l') {p : α → Bool} {q : β → Bool}
    (each : ∀ a b, R a b → p a = q b) : Forall₂ R (l.filter p) (l'.filter q) := by
  induction h with
  | nil => exact .nil
  | @cons a b _ _ related _ ih =>
      rw [List.filter_cons, List.filter_cons, ← each a b related]
      split
      · exact .cons related ih
      · exact ih

theorem findSome?_eq (h : Forall₂ R l l') {f : α → Option γ} {g : β → Option γ}
    (each : ∀ a b, R a b → g b = f a) : l'.findSome? g = l.findSome? f := by
  induction h with
  | nil => rfl
  | cons related _ ih => rw [List.findSome?_cons, List.findSome?_cons, each _ _ related, ih]

theorem findIdx?_eq (h : Forall₂ R l l') {p : α → Bool} {q : β → Bool}
    (each : ∀ a b, R a b → q b = p a) : l'.findIdx? q = l.findIdx? p := by
  induction h with
  | nil => rfl
  | cons related _ ih => rw [List.findIdx?_cons, List.findIdx?_cons, each _ _ related, ih]

theorem map_eq (h : Forall₂ R l l') {f : α → γ} {g : β → γ}
    (each : ∀ a b, R a b → g b = f a) : l'.map g = l.map f := by
  induction h with
  | nil => rfl
  | cons related _ ih => rw [List.map_cons, List.map_cons, each _ _ related, ih]

theorem filterMap_eq (h : Forall₂ R l l') {f : α → Option γ} {g : β → Option γ}
    (each : ∀ a b, R a b → g b = f a) : l'.filterMap g = l.filterMap f := by
  induction h with
  | nil => rfl
  | cons related _ ih => rw [List.filterMap_cons, List.filterMap_cons, each _ _ related, ih]

theorem mapM_eq (h : Forall₂ R l l') {f : α → Option γ} {g : β → Option γ}
    (each : ∀ a b, R a b → g b = f a) : l'.mapM g = l.mapM f := by
  induction h with
  | nil => rfl
  | cons related _ ih => rw [List.mapM_cons, List.mapM_cons, each _ _ related, ih]

theorem flatMap_eq (h : Forall₂ R l l') {f : α → List γ} {g : β → List γ}
    (each : ∀ a b, R a b → g b = f a) : l'.flatMap g = l.flatMap f := by
  induction h with
  | nil => rfl
  | cons related _ ih => rw [List.flatMap_cons, List.flatMap_cons, each _ _ related, ih]

theorem foldl_eq (h : Forall₂ R l l') {f : γ → α → γ} {g : γ → β → γ}
    (each : ∀ c a b, R a b → g c b = f c a) (c : γ) : l'.foldl g c = l.foldl f c := by
  induction h generalizing c with
  | nil => rfl
  | cons related _ ih => rw [List.foldl_cons, List.foldl_cons, each _ _ _ related, ih]

end List.Forall₂
