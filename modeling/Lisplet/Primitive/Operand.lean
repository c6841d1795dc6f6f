import Lisplet.RuntimeError
/-!
# Arguments as numbers
-/

namespace Lisplet.Operand

/-- The number that an argument of `function` has to be. -/
def number (function : String) (argument : Expr) : Except RuntimeError Number :=
  match argument.number? with
  | some value => .ok value
  | none => .error (.argumentType function)

/-- All arguments as numbers. Every argument is checked before any is used. -/
def numbers (function : String) (arguments : List Expr) : Except RuntimeError (List Number) :=
  arguments.mapM (number function)

end Lisplet.Operand
