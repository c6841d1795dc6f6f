import Lisplet.Proofs.Evaluation
/-!
# Scopes keep to themselves

Evaluation binds names in the innermost scope only, and a function whose body is a call leaves even
that scope as it was: `evaluation_isolated`. This holds whether evaluation succeeds or fails, and
for every host whose extensions keep to the scope that they are called in.
-/

namespace Lisplet

/-! ## Computations -/

namespace EvalM

variable {α β : Type}

/-- Whatever comes of the computation, the scopes around the innermost one are as before. -/
def Confined (m : EvalM α) : Prop :=
  ∀ s outcome after, m s = some (outcome, after) → after.env.outer = s.env.outer

theorem confined_outOfFuel : Confined (outOfFuel : EvalM α) := by
  intro s outcome after h
  cases h

theorem confined_done (outcome : Except RuntimeError α) : Confined (done outcome) := by
  intro s outcome' after h
  cases h
  rfl

theorem Confined.bind {m : EvalM α} {f : α → EvalM β} (hm : m.Confined)
    (hf : ∀ a, m.Gives a → (f a).Confined) : (m >>= f).Confined := by
  intro s outcome after h
  rcases bind_eq_some h with ⟨a, mid, hs, hmid⟩ | ⟨e, hs, -⟩
  · exact (hf a ⟨s, mid, hs⟩ mid outcome after hmid).trans (hm s _ mid hs)
  · exact hm s _ after hs

theorem confined_lookup (name : String) : Confined (lookup name) := by
  intro s outcome after h
  unfold lookup at h
  split at h <;> cases h <;> rfl

theorem confined_define (name : String) (value : Expr) : Confined (define name value) := by
  intro s outcome after h
  cases h
  rfl

/-- A new scope is gone after a confined computation in it, and all others are as before. -/
theorem env_of_inScope {scope : Scope} {body : EvalM α} (hb : body.Confined) {s after : State}
    {outcome : Except RuntimeError α} (h : inScope scope body s = some (outcome, after)) :
    after.env = s.env := by
  obtain ⟨inner, hrun, rfl⟩ := inScope_eq_some_iff.1 h
  have houter : inner.env.outer = s.env.innermost :: s.env.outer := hb _ _ _ hrun
  simp [Env.parent?, houter]

theorem Confined.inScope {scope : Scope} {body : EvalM α} (hb : body.Confined) :
    (inScope scope body).Confined := by
  intro s outcome after h
  rw [env_of_inScope hb h]

theorem confined_write (bytes : List UInt8) : Confined (write bytes) := by
  intro s outcome after h
  cases h
  rfl

theorem confined_writeValue (value : Expr) : Confined (writeValue value) := by
  unfold writeValue
  split
  · exact confined_done _
  · exact confined_write _

end EvalM

/-! ## Hosts -/

/-- No extension of the host changes a scope but the one that it is called in, as long as the
evaluator does not when an extension uses it. -/
def Host.Confined (host : Host) : Prop :=
  ∀ x eval call, (∀ e, (eval e).Confined) → (∀ target as, (call target as).Confined) →
    ∀ arguments, (host x eval call arguments).Confined

open EvalM

theorem Extension.confined_scopeDepth : scopeDepth.Confined := by
  intro s outcome after h
  unfold scopeDepth at h
  split at h <;> cases h <;> rfl

/-- The standard host keeps to the scope of the call. -/
theorem Host.confined_standard : Host.standard.Confined := by
  intro x eval call heval hcall arguments
  exact standard_closed (fun m => m.Confined) confined_done Confined.bind heval hcall
    confined_define Extension.confined_scopeDepth confined_outOfFuel x arguments

/-! ## Evaluation -/

theorem confined_closed {host : Host} (hh : host.Confined) : Closed host fun m => m.Confined where
  exhausted := confined_outOfFuel
  done := confined_done
  bind := Confined.bind
  lookup := confined_lookup
  register _ _ _ := (confined_define _ _).bind fun _ _ => confined_done _
  inScope := Confined.inScope
  write := confined_writeValue
  extension := hh _ _ _

theorem env_of_invoke {eval : Expr → EvalM Expr} (heval : ∀ e, (eval e).Confined) {name : String}
    {parameters : List String} {body : Expr} {arguments : List Expr} {s after : State}
    {outcome : Except RuntimeError Expr} (hb : body.isCall = true)
    (h : invoke eval name parameters body arguments s = some (outcome, after)) :
    after.env = s.env := by
  unfold invoke at h
  by_cases hcount : arguments.length ≠ parameters.length
  · rw [if_pos hcount] at h
    cases h
    rfl
  · rw [if_neg hcount, if_pos hb] at h
    exact env_of_inScope (heval body) h

/-- Evaluation in a chain of scopes, and each way to call a function there, leaves every scope but
the innermost one as it was, on success and on failure. Calling a function whose body is a call
leaves the innermost one too. -/
theorem evaluation_isolated (host : Host) (hh : host.Confined) (fuel : Nat) (s after : State) :
    (∀ e outcome, evalWith host fuel e s = some (outcome, after) →
      after.env.outer = s.env.outer) ∧
    (∀ es outcome, evalAll (evalWith host fuel) es s = some (outcome, after) →
      after.env.outer = s.env.outer) ∧
    (∀ target arguments outcome, callWith host fuel target arguments s = some (outcome, after) →
      after.env.outer = s.env.outer) ∧
    ∀ name parameters body values outcome,
      invoke (evalWith host fuel) name parameters body values s = some (outcome, after) →
      after.env.outer = s.env.outer ∧ (body.isCall = true → after.env = s.env) := by
  have c := confined_closed hh
  refine ⟨?_, ?_, ?_, ?_⟩
  · intro e outcome h
    exact c.eval fuel e s outcome after h
  · intro es outcome h
    exact c.evalAll fuel es s outcome after h
  · intro target arguments outcome h
    exact c.call fuel target arguments s outcome after h
  · intro name parameters body values outcome h
    refine ⟨c.invoke fuel name parameters body values s outcome after h, ?_⟩
    intro hb
    exact env_of_invoke (c.eval fuel) hb h

/-- `(batch (def y 1) (function helper () (missing)) (helper))`, which binds two names and then
fails. -/
def bindsAndFails : Expr :=
  .call (.symbol "batch")
    [.call (.symbol "def") [.symbol "y", .number .one],
     .function "helper" [] (.call (.symbol "missing") []),
     .call (.symbol "helper") []]

/-- A scope that binds `x`, inside the one with all built-ins. -/
def insideX : State :=
  ⟨Env.initial.registerExtensions.push (Scope.empty.insert "x" (.number .one)), .unlimited⟩

/-- Evaluated as it is, the expression leaves `y` in the innermost scope; as the body of a function
it leaves nothing. -/
theorem evaluation_isolated_bindsAndFails :
    (∃ after, evalWith .standard 9 bindsAndFails insideX =
        some (.error (.undefinedSymbol "missing"), after) ∧
      after.env.innermost.get? "y" = some (.number .one) ∧
      after.env.outer = insideX.env.outer) ∧
    ∃ after, invoke (evalWith .standard 9) "outer" [] bindsAndFails [] insideX =
      some (.error (.undefinedSymbol "missing"), after) ∧ after.env = insideX.env := by
  have hisolated := evaluation_isolated .standard Host.confined_standard 9 insideX
  constructor
  · obtain ⟨after, h, hy⟩ : ∃ after, evalWith .standard 9 bindsAndFails insideX =
        some (.error (.undefinedSymbol "missing"), after) ∧
        after.env.innermost.get? "y" = some (.number .one) := ⟨_, rfl, rfl⟩
    exact ⟨after, h, hy, (hisolated after).1 _ _ h⟩
  · obtain ⟨after, h⟩ : ∃ after, invoke (evalWith .standard 9) "outer" [] bindsAndFails [] insideX =
        some (.error (.undefinedSymbol "missing"), after) := ⟨_, rfl⟩
    exact ⟨after, h, ((hisolated after).2.2.2 _ _ _ _ _ h).2 rfl⟩

end Lisplet
