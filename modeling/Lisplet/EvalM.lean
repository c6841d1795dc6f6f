import Lisplet.RuntimeError
import Lisplet.Scope
/-!
# Computations of the evaluator

A computation changes the environment and writes to the sink. It may fail, and then what it
changed and wrote so far stays; and it may run out of fuel, and then it has no outcome at all.
-/

namespace Lisplet

structure State where
  env : Env
  sink : Sink

/-- From a state to an outcome and the state after it, or to nothing for want of fuel. -/
abbrev EvalM := ExceptT RuntimeError (StateT State Option)

namespace EvalM

def outOfFuel {α : Type} : EvalM α := fun _ => none

/-- An outcome that is already known. -/
def done {α : Type} (outcome : Except RuntimeError α) : EvalM α := fun s => some (outcome, s)

theorem bind_run {α β : Type} (m : EvalM α) (f : α → EvalM β) (s : State) :
    (m >>= f) s = match m s with
      | some (.ok a, after) => f a after
      | some (.error e, after) => some (.error e, after)
      | none => none := by
  simp only [bind, ExceptT.bind, ExceptT.mk, StateT.bind, Option.bind]
  rcases m s with _ | ⟨_ | _, _⟩ <;> rfl

theorem bind_of_ok {α β : Type} {m : EvalM α} {s mid : State} {a : α}
    (h : m s = some (.ok a, mid)) (f : α → EvalM β) : (m >>= f) s = f a mid := by
  rw [bind_run, h]

theorem bind_of_error {α β : Type} {m : EvalM α} {s mid : State} {e : RuntimeError}
    (h : m s = some (.error e, mid)) (f : α → EvalM β) :
    (m >>= f) s = some (.error e, mid) := by
  rw [bind_run, h]

/-- What the computation may result in, from one state or another. -/
def Gives {α : Type} (m : EvalM α) (a : α) : Prop := ∃ s after, m s = some (.ok a, after)

/-- The outcome of a sequence is that of its second part, unless the first part fails. -/
theorem bind_eq_some {α β : Type} {m : EvalM α} {f : α → EvalM β} {s after : State}
    {outcome : Except RuntimeError β} (h : (m >>= f) s = some (outcome, after)) :
    (∃ a mid, m s = some (.ok a, mid) ∧ f a mid = some (outcome, after)) ∨
      ∃ e, m s = some (.error e, after) ∧ outcome = .error e := by
  rw [bind_run] at h
  split at h
  · next a mid hm => exact .inl ⟨a, mid, hm, h⟩
  · next e mid hm =>
    cases h
    exact .inr ⟨e, hm, rfl⟩
  · cases h

/-! ## Names -/

def lookup (name : String) : EvalM Expr := fun s =>
  match s.env.get? name with
  | some value => some (.ok value, s)
  | none => some (.error (.undefinedSymbol name), s)

/-- Binds a name in the innermost scope. Returns what it was bound to there. -/
def define (name : String) (value : Expr) : EvalM (Option Expr) := fun s =>
  some (.ok (s.env.innermost.get? name), { s with env := s.env.define name value })

/-- Runs a computation inside a new scope, which is dropped afterwards even if it fails. -/
def inScope {α : Type} (scope : Scope) (body : EvalM α) : EvalM α := fun s =>
  match body { s with env := s.env.push scope } with
  | some (outcome, after) => some (outcome, { after with env := after.env.parent?.getD after.env })
  | none => none

theorem inScope_eq_some_iff {α : Type} {scope : Scope} {body : EvalM α} {s after : State}
    {outcome : Except RuntimeError α} :
    inScope scope body s = some (outcome, after) ↔
      ∃ inner, body { s with env := s.env.push scope } = some (outcome, inner) ∧
        after = { inner with env := inner.env.parent?.getD inner.env } := by
  unfold inScope
  constructor
  · intro h
    split at h
    · next inner hrun =>
      cases h
      exact ⟨inner, hrun, rfl⟩
    · cases h
  · rintro ⟨inner, hrun, rfl⟩
    rw [hrun]

/-! ## Output -/

def ofSink : Except Sink.Fault Unit → Except RuntimeError Unit
  | .ok () => .ok ()
  | .error fault => .error (.output fault)

def write (bytes : List UInt8) : EvalM Unit := fun s =>
  let result := s.sink.write bytes
  some (ofSink result.1, { s with sink := result.2 })

def flush : EvalM Unit := fun s => some (ofSink s.sink.flush, s)

/-- Writes a value on a line of its own; `void` writes nothing. -/
def writeValue (value : Expr) : EvalM Unit :=
  if value.isVoid then pure () else write (value.text ++ "\n").toUTF8.data.toList

end EvalM

end Lisplet
