import Lisplet.Primitive.Operand
/-!
# Arithmetic

Each operation folds its arguments from the left and stops at the first step without a result.
Sums and products start from their neutral number, the others from the first argument.
-/

namespace Lisplet.Fold

/-- A result that does not exist is an overflow. -/
def orOverflow (function : String) : Option Number → Except RuntimeError Number
  | some value => .ok value
  | none => .error (.overflow function)

/-- One step of a fold: what becomes of the number so far and the next argument. -/
abbrev Step := Number → Number → Except RuntimeError Number

def addStep : Step := fun a b => orOverflow Primitive.add.name (a.add? b)

def subStep : Step := fun a b => orOverflow Primitive.sub.name (a.sub? b)

def mulStep : Step := fun a b => orOverflow Primitive.mul.name (a.mul? b)

def divStep : Step := fun a b =>
  if b.val = 0 then .error .divisionByZero else orOverflow Primitive.div.name (a.quot? b)

def modStep : Step := fun a b =>
  if b.val = 0 then .error .remainderByZero else orOverflow Primitive.mod.name (a.rem? b)

def foldFrom (function : String) (step : Step) (seed : Number) (arguments : List Expr) :
    Except RuntimeError Expr := do
  let values ← Operand.numbers function arguments
  return .number (← values.foldlM step seed)

def foldFirst (function : String) (step : Step) (arguments : List Expr) :
    Except RuntimeError Expr := do
  match ← Operand.numbers function arguments with
  | [] => throw (.argumentCount function (.atLeast 1) 0)
  | first :: rest => return .number (← rest.foldlM step first)

def add : List Expr → Except RuntimeError Expr := foldFrom Primitive.add.name addStep .zero

def mul : List Expr → Except RuntimeError Expr := foldFrom Primitive.mul.name mulStep .one

def sub : List Expr → Except RuntimeError Expr := foldFirst Primitive.sub.name subStep

/-- Divides the first argument by the others in turn, rounding toward zero. -/
def div : List Expr → Except RuntimeError Expr := foldFirst Primitive.div.name divStep

/-- Takes remainders of the first argument by the others in turn. -/
def mod : List Expr → Except RuntimeError Expr := foldFirst Primitive.mod.name modStep

end Lisplet.Fold
