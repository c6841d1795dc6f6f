import Lisplet.Run
/-!
# Sessions

A session is a list of steps with one host, on one environment and one sink. A step that fails
leaves what it changed and wrote, and the next step goes on from there.
-/

namespace Lisplet.Session

inductive Action where
  | run (sources : List String) (echoing : Bool)
  | eval (expression : Expr)
  | evalAll (expressions : List Expr)
  | call (target : Expr) (arguments : List Expr)
  | invoke (name : String) (parameters : List String) (body : Expr) (arguments : List Expr)
  | echo (value : Expr)
  | write (value : Expr)
  | flush
  | define (name : String) (value : Expr)
  | get (name : String)
  | lookup (name : String)
  | bindsLocally (name : String)
  | place
  | registerPrimitives

inductive Step where
  | action (action : Action)
  /-- Steps in a new scope, which is dropped after them. -/
  | child (steps : List Step)

inductive Answer where
  | results (values : List Expr)
  | value (value : Expr)
  | done
  /-- What the name was bound to in the same scope. -/
  | previous (value : Option Expr)
  | binding (value : Option Expr)
  | isLocal (answer : Bool)
  | place (isRoot : Bool) (depth : Nat) (parentDepth : Option Nat)
  | failure (failure : Failure)
  /-- The answers to a child's steps, each with what the step wrote. -/
  | steps (answers : List (Answer × List UInt8))

/-! ## Actions -/

/-- Runs a computation and words its outcome as an answer. -/
def answer {α : Type} (ok : α → Answer) (body : EvalM α) (s : State) :
    Option (Answer × State) :=
  match body s with
  | some (.ok a, after) => some (ok a, after)
  | some (.error e, after) => some (.failure (.runtime e), after)
  | none => none

def act (host : Host) (fuel : Nat) (a : Action) (s : State) : Option (Answer × State) :=
  match a with
  | .run sources echoing =>
    match Reader.load sources with
    | .error e => some (.failure (.source e), s)
    | .ok program => answer .results (runEchoing host fuel echoing program) s
  | .eval expression => answer .value (evalWith host fuel expression) s
  | .evalAll expressions => answer .results (evalAll (evalWith host fuel) expressions) s
  | .call target arguments => answer .value (callWith host fuel target arguments) s
  | .invoke name parameters body arguments =>
    answer .value (invoke (evalWith host fuel) name parameters body arguments) s
  | .echo value => answer (fun _ => .done) (echo value) s
  | .write value => answer (fun _ => .done) (EvalM.writeValue value) s
  | .flush => answer (fun _ => .done) EvalM.flush s
  | .define name value => answer .previous (EvalM.define name value) s
  | .get name => some (.binding (s.env.get? name), s)
  | .lookup name => answer .value (EvalM.lookup name) s
  | .bindsLocally name => some (.isLocal (s.env.bindsLocally name), s)
  | .place => some (.place s.env.isRoot s.env.depth (s.env.parent?.map Env.depth), s)
  | .registerPrimitives => some (.done, { s with env := s.env.registerPrimitives })

/-! ## Steps -/

mutual

/-- Takes one step. Returns its answer with what it wrote; what the steps of a child wrote
stands with their own answers. -/
def take (host : Host) (fuel : Nat) (step : Step) (s : State) :
    Option ((Answer × List UInt8) × State) :=
  match step with
  | .action a => do
    let (given, after) ← act host fuel a s
    return ((given, after.sink.written.drop s.sink.written.length), after)
  | .child steps => do
    let (answers, after) ← takeAll host fuel steps { s with env := s.env.push .empty }
    return ((.steps answers, []), { after with env := after.env.parent?.getD after.env })

def takeAll (host : Host) (fuel : Nat) (steps : List Step) (s : State) :
    Option (List (Answer × List UInt8) × State) :=
  match steps with
  | [] => some ([], s)
  | step :: rest => do
    let (given, s) ← take host fuel step s
    let (answers, s) ← takeAll host fuel rest s
    return (given :: answers, s)

end

end Lisplet.Session
