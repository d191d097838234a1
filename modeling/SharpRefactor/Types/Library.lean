import SharpRefactor.Types.Definition

/-!
The types that are known without source: the built-in ones, the common delegates and a few classes.
-/

namespace SharpRefactor.Library

def generic : String := "System.Collections.Generic"

def method (isStatic : Bool) (name : String) (parameters : List Parameter) (returns : Ty) :
    MethodDef :=
  ⟨name, [], parameters, returns, isStatic⟩

def property (isStatic : Bool) (name : String) (type : Ty) : MemberDef :=
  ⟨name, type, .property, isStatic⟩

def define (form : TypeForm) (space name : String) (typeParameters : List String)
    (contents : TypeContents) : TypeDef :=
  ⟨⟨space, name, typeParameters.length⟩, form, typeParameters, contents⟩

def delegate (name : String) (typeParameters : List String) (parameters : List Parameter)
    (returns : Ty) : TypeDef :=
  define .delegateForm "System" name typeParameters
    { TypeContents.empty with invoke := some ⟨parameters, returns⟩ }

/-- Names numbered from one. -/
def numbered (stem : String) (n : Nat) : List String :=
  (List.range n).map fun i => s!"{stem}{i + 1}"

/-- Parameters with given names, each of the type parameter in its place. -/
def generically (typeParameters names : List String) : List Parameter :=
  (names.zip typeParameters).map fun (name, type) => ⟨name, .parameter type⟩

/-- The type parameters of a delegate that takes `n` arguments. -/
def argumentTypes (n : Nat) : List String := if n = 1 then ["T"] else numbered "T" n

def action (n : Nat) : TypeDef :=
  let names := if n = 1 then ["obj"] else numbered "arg" n
  delegate "Action" (argumentTypes n) (generically (argumentTypes n) names) .void

def func (n : Nat) : TypeDef :=
  let names := if n = 1 then ["arg"] else numbered "arg" n
  delegate "Func" (argumentTypes n ++ ["TResult"]) (generically (argumentTypes n) names)
    (.parameter "TResult")

def t : Ty := .parameter "T"

/-- The delegates with names of their own. -/
def delegates : List TypeDef :=
  [delegate "Predicate" ["T"] [⟨"obj", t⟩] .bool,
   delegate "Comparison" ["T"] [⟨"x", t⟩, ⟨"y", t⟩] .int,
   delegate "EventHandler" [] [⟨"sender", .object⟩, ⟨"e", .system "EventArgs"⟩] .void,
   delegate "EventHandler" ["TEventArgs"]
     [⟨"sender", .object⟩, ⟨"e", .parameter "TEventArgs"⟩] .void]

/-- The built-in value types. -/
def values : List TypeDef :=
  ["Boolean", "Byte", "Char", "Decimal", "Double", "Single", "Int32", "Int64", "SByte", "Int16",
   "UInt32", "UInt64", "UInt16"].map fun name => define .structForm "System" name [] .empty

def eventArgs : TypeDef :=
  define .classForm "System" "EventArgs" []
    { TypeContents.empty with
      constructors := [[]]
      members := [property true "Empty" (.system "EventArgs")] }

def console : TypeDef :=
  let writeLine (parameters : List Parameter) := method true "WriteLine" parameters .void
  define .classForm "System" "Console" []
    { TypeContents.empty with
      methods := [writeLine [], writeLine [⟨"value", .string⟩], writeLine [⟨"value", .int⟩],
        writeLine [⟨"value", .object⟩]] }

def object : TypeDef :=
  define .classForm "System" "Object" []
    { TypeContents.empty with
      methods := [method false "ToString" [] .string, method false "GetHashCode" [] .int] }

def string : TypeDef :=
  define .classForm "System" "String" []
    { TypeContents.empty with
      methods := [method true "IsNullOrEmpty" [⟨"value", .string⟩] .bool]
      members := [property false "Length" .int, property true "Empty" .string] }

def list : TypeDef :=
  let predicate : Ty := .named "System" "Predicate" [t]
  define .classForm generic "List" ["T"]
    { bases := [.named generic "IEnumerable" [t]]
      methods :=
        [method false "Add" [⟨"item", t⟩] .void,
         method false "Remove" [⟨"item", t⟩] .bool,
         method false "Contains" [⟨"item", t⟩] .bool,
         method false "ForEach" [⟨"action", .named "System" "Action" [t]⟩] .void,
         method false "Sort" [⟨"comparison", .named "System" "Comparison" [t]⟩] .void,
         method false "Find" [⟨"match", predicate⟩] t,
         method false "FindAll" [⟨"match", predicate⟩] (.named generic "List" [t])]
      constructors := [[]]
      members := [property false "Count" .int]
      invoke := none }

def dictionary : TypeDef :=
  define .classForm generic "Dictionary" ["TKey", "TValue"]
    { TypeContents.empty with
      methods :=
        [method false "Add"
          [⟨"key", .parameter "TKey"⟩, ⟨"value", .parameter "TValue"⟩] .void,
         method false "ContainsKey" [⟨"key", .parameter "TKey"⟩] .bool]
      constructors := [[]]
      members := [property false "Count" .int] }

/-- All of it. -/
def all : List TypeDef :=
  (List.range 5).flatMap (fun n => [action n, func n]) ++ delegates ++ [eventArgs, console] ++
    values ++
    [object, string, list, define .interfaceForm generic "IEnumerable" ["T"] .empty, dictionary]

/-- The table before any source is read. -/
def table : Table := ⟨all, ["System", "System.Collections", generic]⟩

end SharpRefactor.Library
