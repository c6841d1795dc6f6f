import Lisplet.BuiltIn
import Lisplet.Number
/-!
# Expressions

An expression is both a piece of program and a value: evaluation takes expressions to
expressions, and numbers, functions, built-ins and `void` are what it ends in.
-/

namespace Lisplet

inductive Expr where
  | number (value : Number)
  | symbol (name : String)
  | call (callee : Expr) (arguments : List Expr)
  | function (name : String) (parameters : List String) (body : Expr)
  | builtIn (builtIn : BuiltIn)
  /-- The absence of a value; no source text denotes it. -/
  | void

/-- The top-level expressions of a source text, in order. -/
abbrev Program := List Expr

namespace Expr

instance : Inhabited Expr := ⟨void⟩

/-! ## Equality -/

mutual

def decEq : (a b : Expr) → Decidable (a = b)
  | number m, number n => decidable_of_iff (m = n) (by simp)
  | symbol s, symbol t => decidable_of_iff (s = t) (by simp)
  | call f xs, call g ys =>
    match decEq f g, decEqList xs ys with
    | isTrue h, isTrue h' => isTrue (by rw [h, h'])
    | isFalse h, _ => isFalse (by simp [h])
    | _, isFalse h => isFalse (by simp [h])
  | function n ps b, function n' ps' b' =>
    match decEq b b' with
    | isTrue h => decidable_of_iff (n = n' ∧ ps = ps') (by simp [h])
    | isFalse h => isFalse (by simp [h])
  | builtIn x, builtIn y => decidable_of_iff (x = y) (by simp)
  | void, void => isTrue rfl
  | number _, symbol _ | number _, call .. | number _, function .. | number _, builtIn _
  | number _, void | symbol _, number _ | symbol _, call .. | symbol _, function ..
  | symbol _, builtIn _ | symbol _, void | call .., number _ | call .., symbol _
  | call .., function .. | call .., builtIn _ | call .., void | function .., number _
  | function .., symbol _ | function .., call .. | function .., builtIn _ | function .., void
  | builtIn _, number _ | builtIn _, symbol _ | builtIn _, call .. | builtIn _, function ..
  | builtIn _, void | void, number _ | void, symbol _ | void, call .. | void, function ..
  | void, builtIn _ => isFalse nofun

def decEqList : (xs ys : List Expr) → Decidable (xs = ys)
  | [], [] => isTrue rfl
  | [], _ :: _ | _ :: _, [] => isFalse nofun
  | x :: xs, y :: ys =>
    match decEq x y, decEqList xs ys with
    | isTrue h, isTrue h' => isTrue (by rw [h, h'])
    | isFalse h, _ => isFalse (by simp [h])
    | _, isFalse h => isFalse (by simp [h])

end

instance : DecidableEq Expr := decEq

/-! ## Text -/

mutual

/-- The written form. Reading it gives the expression back as long as every name in it is a
symbol of the language and it holds neither a built-in nor `void`. -/
def text : Expr → String
  | number value => value.text
  | symbol name => name
  | call callee arguments => "(" ++ callee.text ++ argumentsText arguments ++ ")"
  | function name parameters body =>
    "(function " ++ name ++ " (" ++ " ".intercalate parameters ++ ") " ++ body.text ++ ")"
  | builtIn b => "<built-in " ++ b.name ++ ">"
  | void => ""

/-- Each argument after a space. -/
def argumentsText : List Expr → String
  | [] => ""
  | argument :: rest => " " ++ argument.text ++ argumentsText rest

end

/-! ## Views -/

def ofBool (b : Bool) : Expr := number (.ofBool b)

def number? : Expr → Option Number
  | number value => some value
  | _ => none

def isCallable : Expr → Bool
  | function .. | builtIn _ => true
  | _ => false

def isVoid : Expr → Bool
  | void => true
  | _ => false

def isCall : Expr → Bool
  | call .. => true
  | _ => false

/-- What sort of expression this is, in the words of error messages. -/
def kind : Expr → String
  | number _ => "number"
  | symbol _ => "symbol"
  | call .. => "call"
  | function .. => "function"
  | builtIn _ => "built-in"
  | void => "void"

/-- The kind and the written form; `void` has no written form. -/
def describe : Expr → String
  | void => void.kind
  | e => e.kind ++ " " ++ e.text

end Expr

end Lisplet
