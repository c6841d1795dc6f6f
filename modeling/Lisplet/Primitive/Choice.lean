import Lisplet.Primitive.Operand
/-!
# Choosing one of the arguments

The arguments have all been evaluated by then; these only say which of them is the value.
-/

namespace Lisplet.Choice

/-- The last argument, or `void`. -/
def last (arguments : List Expr) : Expr := arguments.getLast?.getD .void

/-- Takes the arguments as pairs of a condition and a result. The first true condition chooses
its result, and no later condition is looked at. An argument left over at the end is the result
if none does. -/
def branch : List Expr → Except RuntimeError Expr
  | condition :: result :: rest => do
    let value ← Operand.number Primitive.if.name condition
    if value.isTrue then return result else branch rest
  | [otherwise] => .ok otherwise
  | [] => .ok .void

end Lisplet.Choice
