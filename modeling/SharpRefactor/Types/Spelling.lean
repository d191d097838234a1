import SharpRefactor.Syntax.Parse
import SharpRefactor.Types.Lookup

/-!
The shortest way to write a type at a place. An alias comes first; otherwise as little of the
namespace is written as still leads back to the type. Whether a candidate does is decided by reading
it: what is written means the type where it is put.
-/

namespace SharpRefactor

/-- A name with comments around it, which cannot be written as a type. -/
structure Surrounded where
  spelling : String
  deriving DecidableEq, Repr

namespace Table

/-- Whether a spelling means a type in a scope. -/
def bindsTo (t : Table) (s : Scope) (type : Ty) (spelling : String) : Except Surrounded Bool :=
  match parseTypeName spelling with
  | .ok tree => .ok (t.resolve s tree.typeSyntax == some type)
  | .error (.malformed _) => .ok false
  | .error .surrounded => .error ⟨spelling⟩

/-- Whether an alias that stands in namespace number `i` means a type, there and in the scope. -/
def aliasMeans (t : Table) (s : Scope) (type : Ty) (i : Nat) (entry : String × TypeSyntax) : Bool :=
  t.resolve (s.forAlias i) entry.2 == some type && t.lookup s entry.1 [] == some type

/-- The first visible alias of a type. -/
def aliasFor? (t : Table) (s : Scope) (type : Ty) : Option String :=
  s.namespaces.zipIdx.findSome? fun (space, i) =>
    (space.aliases.find? (t.aliasMeans s type i)).map (·.1)

/-- The ends of a namespace path, from the empty one to the whole path. -/
def qualifiers (space : String) : List String :=
  let names := Dotted.segments space
  (List.range (names.length + 1)).map fun taken =>
    Dotted.ofSegments (names.drop (names.length - taken))

/-- The first of some spellings that means a type. -/
def firstBinding (t : Table) (s : Scope) (type : Ty) : List String → Except Surrounded (Option String)
  | [] => .ok none
  | c :: cs =>
    match t.bindsTo s type c with
    | .error e => .error e
    | .ok true => .ok (some c)
    | .ok false => firstBinding t s type cs

mutual

/-- The shortest spelling of a type in a scope. -/
def spell (t : Table) (s : Scope) : Ty → Except Surrounded String
  | .void => .ok "void"
  | .parameter name => .ok name
  | .array element =>
    match spell t s element with
    | .error e => .error e
    | .ok text => .ok (text ++ "[]")
  | .named space name args =>
    let type : Ty := .named space name args
    match type.keyword? with
    | some word => .ok word
    | none =>
      match t.aliasFor? s type with
      | some word => .ok word
      | none =>
        match spellAll t s args with
        | .error e => .error e
        | .ok texts =>
          let candidates := (qualifiers space).map fun q => Dotted.join q name ++ bracketed texts
          match t.firstBinding s type candidates with
          | .error e => .error e
          | .ok found => .ok (found.getD (Dotted.join space name ++ bracketed texts))

def spellAll (t : Table) (s : Scope) : List Ty → Except Surrounded (List String)
  | [] => .ok []
  | a :: as =>
    match spell t s a with
    | .error e => .error e
    | .ok text =>
      match spellAll t s as with
      | .error e => .error e
      | .ok texts => .ok (text :: texts)

end

end Table
end SharpRefactor
