import Lisplet.Expr
import Lisplet.Sink
/-!
# What can go wrong in an evaluation
-/

namespace Lisplet

inductive RuntimeError where
  | undefinedSymbol (name : String)
  /-- The target of a call is no function. -/
  | notCallable (found : Expr)
  | argumentCount (function : String) (expected : Arity) (received : Nat)
  /-- An argument is not a number. -/
  | argumentType (function : String)
  | divisionByZero
  | remainderByZero
  | voidEvaluation
  /-- The exact result is out of range. -/
  | overflow (function : String)
  | output (fault : Sink.Fault)
  /-- A primitive was run without the argument that its arity promises; a call never does. -/
  | missingArgument (function : String)
deriving DecidableEq

namespace RuntimeError

def message : RuntimeError → String
  | undefinedSymbol name => "Undefined symbol \"" ++ name ++ "\"."
  | notCallable found => "Call target is not a function: " ++ found.describe ++ "."
  | argumentCount function expected received =>
    "Unexpected number of arguments provided to function \"" ++ function ++ "\" (Expected: " ++
      expected.text ++ ", Received: " ++ Text.Decimal.ofNat received ++ ")."
  | argumentType function => "Unexpected argument type passed to function \"" ++ function ++ "\"."
  | divisionByZero => "Division by zero."
  | remainderByZero => "Remainder by zero."
  | voidEvaluation => "Void cannot be evaluated."
  | overflow function => "Integer overflow while computing \"" ++ function ++ "\"."
  | output fault => "Failed to write output: " ++ fault.message ++ "."
  | missingArgument function => "Missing argument of function \"" ++ function ++ "\"."

end RuntimeError

end Lisplet
