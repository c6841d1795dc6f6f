import Lisplet.Primitive.Operand
/-!
# Logic

Zero is false and every other number true; the answers are one and zero.
-/

namespace Lisplet.Truth

def not : List Expr → Except RuntimeError Expr
  | [] => .error (.missingArgument Primitive.not.name)
  | argument :: _ => do
    let value ← Operand.number Primitive.not.name argument
    return .ofBool (!value.isTrue)

def countTrue (function : String) (arguments : List Expr) : Except RuntimeError Nat :=
  return (← Operand.numbers function arguments).countP Number.isTrue

def and (arguments : List Expr) : Except RuntimeError Expr :=
  return .ofBool ((← countTrue Primitive.and.name arguments) = arguments.length)

def or (arguments : List Expr) : Except RuntimeError Expr :=
  return .ofBool ((← countTrue Primitive.or.name arguments) > 0)

/-- Whether exactly one argument is true. -/
def xor (arguments : List Expr) : Except RuntimeError Expr :=
  return .ofBool ((← countTrue Primitive.xor.name arguments) = 1)

end Lisplet.Truth
