import SharpRefactor.Syntax.Factory
import SharpRefactor.Syntax.Parse

/-!
Recipes for new trees: which factory to use on which parts. The parts are made from left to right,
and the first type name that cannot be read is the one that counts.
-/

namespace SharpRefactor

inductive Recipe where
  | identifierName (name : String)
  | typeName (text : String)
  | argument (expression : Recipe)
  | argumentList (expressions : List Recipe)
  | invocation (callee arguments : Recipe)
  | parameter (type : Recipe) (name : String)
  | parameterList (parameters : List Recipe)
  | expressionStatement (expression : Recipe)
  | returnStatement (expression : Recipe)
  | block (statements : List Recipe)
  /-- An anonymous method; the list holds its parameter list, if there is one. -/
  | anonymousMethod (parameters : List Recipe) (body : Recipe)

mutual

/-- The tree that a recipe describes. -/
def Recipe.make : Recipe → Except TypeNameError Tree
  | .identifierName name => .ok (Factory.identifierName name)
  | .typeName text => parseTypeName text
  | .argument e => (Recipe.make e).map Factory.argument
  | .argumentList es => (Recipe.makeAll es).map Factory.argumentList
  | .invocation f as => do return Factory.invocation (← Recipe.make f) (← Recipe.make as)
  | .parameter type name => (Recipe.make type).map (Factory.parameter · name)
  | .parameterList ps => (Recipe.makeAll ps).map Factory.parameterList
  | .expressionStatement e => (Recipe.make e).map Factory.expressionStatement
  | .returnStatement e => (Recipe.make e).map Factory.returnStatement
  | .block ss => (Recipe.makeAll ss).map Factory.block
  | .anonymousMethod ps body => do
    return Factory.anonymousMethod (← Recipe.makeAll ps).head? (← Recipe.make body)

def Recipe.makeAll : List Recipe → Except TypeNameError Forest
  | [] => .ok []
  | r :: rs => do return (← Recipe.make r) :: (← Recipe.makeAll rs)

end

end SharpRefactor
