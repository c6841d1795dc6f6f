import Lisplet.Eval
import Lisplet.Reader
/-!
# Running programs
-/

namespace Lisplet

open EvalM

/-- Evaluates the top-level expressions in order, hands each result on as soon as there is one,
and flushes the sink at the end. -/
def runWith (host : Host) (fuel : Nat) (onResult : Expr → EvalM Unit) (program : Program) :
    EvalM (List Expr) := do
  let results ← program.mapM fun expression => do
    let value ← evalWith host fuel expression
    onResult value
    return value
  flush
  return results

theorem runWith_cons (host : Host) (fuel : Nat) (onResult : Expr → EvalM Unit) (e : Expr)
    (program : Program) :
    runWith host fuel onResult (e :: program) = do
      let value ← evalWith host fuel e
      onResult value
      let results ← runWith host fuel onResult program
      return value :: results := by
  simp only [runWith, List.mapM_cons, bind_assoc, pure_bind]

def run (host : Host) (fuel : Nat) (program : Program) : EvalM (List Expr) :=
  runWith host fuel (fun _ => return ()) program

/-- Writes a top-level result if it is a number. -/
def echo (value : Expr) : EvalM Unit :=
  match value with
  | .number _ => writeValue value
  | _ => return ()

/-- Runs a program that echoes its results, or one that does not. -/
def runEchoing (host : Host) (fuel : Nat) (echoing : Bool) (program : Program) :
    EvalM (List Expr) :=
  if echoing then runWith host fuel echo program else run host fuel program

/-- Why a run gave no results. -/
inductive Failure where
  | source (error : SourceError)
  | runtime (error : RuntimeError)
deriving DecidableEq

def Failure.message : Failure → String
  | source error => error.message
  | runtime error => error.message

/-- Runs sources as one program in a fresh environment. Nothing runs unless all of it can be
read. A fresh environment binds no extension, so that the run needs none. -/
def runSources (fuel : Nat) (echoing : Bool) (sources : List String) (sink : Sink) :
    Option (Except Failure (List Expr) × Sink) :=
  match Reader.load sources with
  | .error e => some (.error (.source e), sink)
  | .ok program =>
    match runEchoing .empty fuel echoing program ⟨.initial, sink⟩ with
    | some (.ok results, s) => some (.ok results, s.sink)
    | some (.error e, s) => some (.error (.runtime e), s.sink)
    | none => none

theorem runSources_of_error {sources : List String} {e : SourceError}
    (h : Reader.load sources = .error e) (fuel : Nat) (echoing : Bool) (sink : Sink) :
    runSources fuel echoing sources sink = some (.error (.source e), sink) := by
  unfold runSources
  rw [h]

theorem runSources_of_load {sources : List String} {program : Program}
    (h : Reader.load sources = .ok program) (fuel : Nat) (echoing : Bool) (sink : Sink) :
    runSources fuel echoing sources sink =
      (runEchoing .empty fuel echoing program ⟨.initial, sink⟩).map fun (outcome, s) =>
        (outcome.mapError .runtime, s.sink) := by
  unfold runSources
  rw [h]
  dsimp only
  rcases runEchoing .empty fuel echoing program ⟨.initial, sink⟩ with _ | ⟨_ | _, _⟩ <;> rfl

theorem runSources_eq_runtime {fuel : Nat} {echoing : Bool} {sources : List String}
    {sink after : Sink} {e : RuntimeError}
    (h : runSources fuel echoing sources sink = some (.error (.runtime e), after)) :
    ∃ program s, Reader.load sources = .ok program ∧
      runEchoing .empty fuel echoing program ⟨.initial, sink⟩ = some (.error e, s) := by
  cases hload : Reader.load sources with
  | error err =>
    rw [runSources_of_error hload] at h
    cases h
  | ok program =>
    rw [runSources_of_load hload] at h
    obtain ⟨⟨outcome, s⟩, hrun, hout⟩ := Option.map_eq_some_iff.1 h
    cases outcome with
    | ok results => cases hout
    | error e' =>
      cases hout
      exact ⟨program, s, rfl, hrun⟩

/-- The results of one source; what it prints is lost. -/
def results (fuel : Nat) (source : String) : Option (Except Failure (List Expr)) :=
  (runSources fuel false [source] .unlimited).map (·.1)

/-- Fuel for recursion a million levels deep. -/
def ampleFuel : Nat := 1000000

end Lisplet
