import Lisplet.EvalM
import Lisplet.Primitive
/-!
# Evaluation

Every expression evaluates to an expression. A function definition evaluates to itself and binds
its own name where it is evaluated. Arguments are evaluated by the caller, from left to right,
before their number is checked.

`evalWith` and `callWith` take fuel, one unit for each level of recursion.
-/

namespace Lisplet

open EvalM

/-! ## Built-ins -/

/-- Runs a primitive on evaluated arguments. Only `print` has an effect. -/
def Primitive.run (p : Primitive) (arguments : List Expr) : EvalM Expr := do
  if p = .print then arguments.forM writeValue
  done (p.result arguments)

/-- What a host's extensions do with their arguments. `eval` and `call` are the evaluator. -/
abbrev Host := Extension → (eval : Expr → EvalM Expr) →
  (call : Expr → List Expr → EvalM Expr) → (arguments : List Expr) → EvalM Expr

namespace Extension

/-- Takes the arguments as pairs of a condition and a result, and evaluates conditions until one
is not the number zero. -/
def chooseLazily (eval : Expr → EvalM Expr) : List Expr → EvalM Expr
  | condition :: result :: rest => do
    let value ← eval condition
    if value = .number .zero then chooseLazily eval rest else eval result
  | [otherwise] => eval otherwise
  | [] => return .void

/-- The depth of the innermost scope, as a number. -/
def scopeDepth : EvalM Expr := fun s =>
  match Number.ofInt? s.env.depth with
  | some value => some (.ok (.number value), s)
  | none => some (.error (.overflow Standard.depth.extension.name), s)

/-- What the standard extensions do. A number of arguments that the arity excludes is refused, as it
is by the call. -/
def Standard.run (k : Standard) (eval : Expr → EvalM Expr) (call : Expr → List Expr → EvalM Expr)
    (arguments : List Expr) : EvalM Expr :=
  match k, arguments with
  | .lazyIf, arguments => chooseLazily eval arguments
  | .quote, [argument] => return argument
  | .eval, [argument] => eval argument
  | .define, [name, value] => do
    let previous ← EvalM.define name.text (← eval value)
    return previous.getD .void
  | .depth, [] => scopeDepth
  | .call, target :: arguments => call target arguments
  | k, arguments => throw (.argumentCount k.extension.name k.extension.arity arguments.length)

end Extension

namespace Host

/-- The host without extensions. To call what it does not have has no outcome. -/
def empty : Host := fun _ _ _ _ => outOfFuel

/-- The host with the standard extensions and no others. -/
def standard : Host := fun x eval call arguments =>
  match x.standard? with
  | some k => k.run eval call arguments
  | none => outOfFuel

end Host

/-! ## The evaluator -/

/-- Evaluates expressions in order. -/
def evalAll (eval : Expr → EvalM Expr) (expressions : List Expr) : EvalM (List Expr) :=
  expressions.mapM eval

/-- Runs a built-in on arguments as it takes them, if it takes that many. -/
def applyBuiltIn (host : Host) (eval : Expr → EvalM Expr) (call : Expr → List Expr → EvalM Expr)
    (b : BuiltIn) (arguments : List Expr) : EvalM Expr :=
  if b.arity.accepts arguments.length then
    match b with
    | .primitive p => p.run arguments
    | .extension x => host x eval call arguments
  else throw (.argumentCount b.name b.arity arguments.length)

/-- Calls a built-in with arguments that are not evaluated yet. -/
def callBuiltIn (host : Host) (eval : Expr → EvalM Expr) (call : Expr → List Expr → EvalM Expr)
    (b : BuiltIn) (arguments : List Expr) : EvalM Expr :=
  if b.eager then do
    let values ← evalAll eval arguments
    applyBuiltIn host eval call b values
  else applyBuiltIn host eval call b arguments

/-- Runs the body of a function on evaluated arguments. A body that is a call gets a scope with
the parameters; any other body is evaluated where the function is called and sees no
parameters. -/
def invoke (eval : Expr → EvalM Expr) (name : String) (parameters : List String) (body : Expr)
    (arguments : List Expr) : EvalM Expr :=
  if arguments.length ≠ parameters.length then
    throw (.argumentCount name (.exactly parameters.length) arguments.length)
  else if body.isCall then
    inScope (Scope.empty.insertAll (parameters.zip arguments)) (eval body)
  else eval body

mutual

/-- Evaluates an expression in the innermost scope. -/
def evalWith (host : Host) : Nat → Expr → EvalM Expr
  | 0, _ => outOfFuel
  | _ + 1, .number value => return .number value
  | _ + 1, .builtIn b => return .builtIn b
  | _ + 1, .symbol name => lookup name
  | _ + 1, .function name parameters body => do
    let _ ← define name (.function name parameters body)
    return .function name parameters body
  | fuel + 1, .call callee arguments => do
    let target ← evalWith host fuel callee
    callWith host fuel target arguments
  | _ + 1, .void => throw .voidEvaluation

/-- Calls an evaluated target with arguments that are not evaluated yet. -/
def callWith (host : Host) : Nat → Expr → List Expr → EvalM Expr
  | 0, _, _ => outOfFuel
  | fuel + 1, .builtIn b, arguments =>
    callBuiltIn host (evalWith host fuel) (callWith host fuel) b arguments
  | fuel + 1, .function name parameters body, arguments => do
    let values ← evalAll (evalWith host fuel) arguments
    invoke (evalWith host fuel) name parameters body values
  | _ + 1, target, _ => throw (.notCallable target)

end

/-- Evaluation without extensions. -/
abbrev eval : Nat → Expr → EvalM Expr := evalWith .empty

/-- Calls without extensions. -/
abbrev call : Nat → Expr → List Expr → EvalM Expr := callWith .empty

end Lisplet
