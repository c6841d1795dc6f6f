import Lisplet.Primitive.Operand
/-!
# Comparison

A comparison of several numbers holds if it holds between all neighbours.
-/

namespace Lisplet

inductive Relation where
  | equal | notEqual | greater | greaterOrEqual | less | lessOrEqual
deriving DecidableEq

namespace Relation

def all : List Relation := [.equal, .notEqual, .greater, .greaterOrEqual, .less, .lessOrEqual]

/-- Whether `a` stands in the relation to `b`. -/
def holds (r : Relation) (a b : Number) : Bool :=
  match r with
  | .equal => a.val = b.val
  | .notEqual => a.val ≠ b.val
  | .greater => a.val > b.val
  | .greaterOrEqual => a.val ≥ b.val
  | .less => a.val < b.val
  | .lessOrEqual => a.val ≤ b.val

def sign : Relation → String
  | .equal => "=="
  | .notEqual => "!="
  | .greater => ">"
  | .greaterOrEqual => ">="
  | .less => "<"
  | .lessOrEqual => "<="

def find? (sign : String) : Option Relation := all.find? fun r => r.sign = sign

end Relation

namespace Chain

/-- Whether `r` holds between every item and the one after it. -/
def neighbours {α : Type} (r : α → α → Bool) : List α → Bool
  | a :: b :: rest => r a b && neighbours r (b :: rest)
  | _ => true

def compare (function : String) (relation : Relation) (arguments : List Expr) :
    Except RuntimeError Expr := do
  let values ← Operand.numbers function arguments
  return .ofBool (neighbours relation.holds values)

end Chain

end Lisplet
