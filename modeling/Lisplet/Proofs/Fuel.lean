import Lisplet.Run
/-!
# Fuel only bounds the depth

More fuel never changes the outcome of an evaluation, unless an extension of the host could tell
(`Host.Monotone`). So it makes sense to speak of the outcome of a run: `RunsTo` mentions no fuel,
and `RunsTo.unique` says that there is one outcome at most.
-/

namespace Lisplet

/-! ## Computations -/

namespace EvalM

variable {α β : Type}

/-- Whenever `m` has an outcome, `m'` has the same one. -/
def Approximates (m m' : EvalM α) : Prop := ∀ s r, m s = some r → m' s = some r

theorem Approximates.refl (m : EvalM α) : m.Approximates m := fun _ _ h => h

theorem outOfFuel_approximates (m : EvalM α) : outOfFuel.Approximates m := by
  intro s r h
  cases h

theorem Approximates.bind {m m' : EvalM α} {f f' : α → EvalM β} (hm : m.Approximates m')
    (hf : ∀ a, (f a).Approximates (f' a)) : (m >>= f).Approximates (m' >>= f') := by
  rintro s ⟨outcome, after⟩ h
  rcases bind_eq_some h with ⟨a, mid, hs, hmid⟩ | ⟨e, hs, rfl⟩
  · rw [bind_of_ok (hm s _ hs)]
    exact hf a mid _ hmid
  · exact bind_of_error (hm s _ hs) f'

theorem Approximates.mapM {f f' : α → EvalM β} (hf : ∀ a, (f a).Approximates (f' a))
    (as : List α) : (as.mapM f).Approximates (as.mapM f') := by
  induction as with
  | nil => exact .refl _
  | cons a as ih =>
    rw [List.mapM_cons, List.mapM_cons]
    exact (hf a).bind fun b => ih.bind fun bs => .refl _

theorem Approximates.inScope {m m' : EvalM α} (hm : m.Approximates m') (scope : Scope) :
    (inScope scope m).Approximates (inScope scope m') := by
  rintro s ⟨outcome, after⟩ h
  obtain ⟨inner, hrun, rfl⟩ := inScope_eq_some_iff.1 h
  exact inScope_eq_some_iff.2 ⟨inner, hm _ _ hrun, rfl⟩

/-- More fuel makes no difference to an outcome. -/
def Steady (m : Nat → EvalM α) : Prop :=
  ∀ fuel fuel', fuel ≤ fuel' → (m fuel).Approximates (m fuel')

theorem steady_const (m : EvalM α) : Steady fun _ => m := fun _ _ _ => .refl m

theorem Steady.bind {m : Nat → EvalM α} {f : Nat → α → EvalM β} (hm : Steady m)
    (hf : ∀ a, Steady fun fuel => f fuel a) : Steady fun fuel => m fuel >>= f fuel :=
  fun _ _ h => (hm _ _ h).bind fun a => hf a _ _ h

theorem Steady.unique {m : Nat → EvalM α} (hm : Steady m) {fuel fuel' : Nat} {s : State}
    {r r' : Except RuntimeError α × State} (h : m fuel s = some r) (h' : m fuel' s = some r') :
    r = r' := by
  have hmax := hm _ _ (Nat.le_max_left fuel fuel') s r h
  rw [hm _ _ (Nat.le_max_right fuel fuel') s r' h'] at hmax
  exact (Option.some.inj hmax).symm

/-- With enough fuel the computation has an outcome. -/
def Halts (m : Nat → EvalM α) (s : State) : Prop := ∃ fuel r, m fuel s = some r

/-- A sequence ends if its first part does, and then its second part, unless the first one fails. -/
theorem halts_bind {m : Nat → EvalM α} {f : Nat → α → EvalM β} {s : State} (hm : Steady m)
    (hf : ∀ a, Steady fun fuel => f fuel a) :
    Halts (fun fuel => m fuel >>= f fuel) s ↔ Halts m s ∧
      ∀ fuel a mid, m fuel s = some (.ok a, mid) → Halts (fun fuel => f fuel a) mid := by
  constructor
  · rintro ⟨fuel, r, h⟩
    rcases bind_eq_some h with ⟨a, mid, hfirst, hrest⟩ | ⟨e, hfirst, -⟩
    · refine ⟨⟨fuel, _, hfirst⟩, fun fuel' a' mid' h' => ?_⟩
      cases hm.unique hfirst h'
      exact ⟨fuel, r, hrest⟩
    · refine ⟨⟨fuel, _, hfirst⟩, fun fuel' a' mid' h' => ?_⟩
      cases hm.unique hfirst h'
  · rintro ⟨⟨fuel, ⟨outcome, mid⟩, hfirst⟩, hrest⟩
    cases outcome with
    | error e => exact ⟨fuel, _, bind_of_error hfirst _⟩
    | ok a =>
      -- The two parts may need different amounts of fuel; the larger one does for both.
      obtain ⟨fuel', r, hsecond⟩ := hrest fuel a mid hfirst
      have hfirst' := hm _ _ (Nat.le_max_left fuel fuel') _ _ hfirst
      have hsecond' := hf a _ _ (Nat.le_max_right fuel fuel') _ _ hsecond
      exact ⟨max fuel fuel', r, (bind_of_ok hfirst' _).trans hsecond'⟩

theorem halts_map {m : Nat → EvalM α} {s : State} (f : α → β) :
    Halts (fun fuel => do return f (← m fuel)) s ↔ Halts m s := by
  constructor
  · rintro ⟨fuel, r, h⟩
    rcases bind_eq_some h with ⟨a, mid, hm, -⟩ | ⟨e, hm, -⟩
    · exact ⟨fuel, _, hm⟩
    · exact ⟨fuel, _, hm⟩
  · rintro ⟨fuel, ⟨_ | a, mid⟩, h⟩
    · exact ⟨fuel, _, bind_of_error h _⟩
    · exact ⟨fuel, _, bind_of_ok h _⟩

/-- The first unit of fuel may be spent on the way. -/
theorem halts_succ {m m' : Nat → EvalM α} {s : State} (hm : Steady m)
    (h : ∀ fuel, m (fuel + 1) = m' fuel) : Halts m s ↔ Halts m' s := by
  constructor
  · rintro ⟨fuel, r, hr⟩
    exact ⟨fuel, r, by rw [← h]; exact hm _ _ (Nat.le_succ fuel) _ _ hr⟩
  · rintro ⟨fuel, r, hr⟩
    exact ⟨fuel + 1, r, by rw [h, hr]⟩

theorem halts_inScope {m : Nat → EvalM α} {s : State} (scope : Scope) :
    Halts (fun fuel => inScope scope (m fuel)) s ↔
      Halts m { s with env := s.env.push scope } := by
  constructor
  · rintro ⟨fuel, r, h⟩
    obtain ⟨inner, hm, -⟩ := inScope_eq_some_iff.1 h
    exact ⟨fuel, _, hm⟩
  · rintro ⟨fuel, r, h⟩
    exact ⟨fuel, _, inScope_eq_some_iff.2 ⟨_, h, rfl⟩⟩

end EvalM

open EvalM

/-! ## Evaluation -/

/-- With better approximations of the evaluator, the extensions of the host do the same. -/
def Host.Monotone (host : Host) : Prop :=
  ∀ x eval eval' call call', (∀ e, (eval e).Approximates (eval' e)) →
    (∀ target as, (call target as).Approximates (call' target as)) →
    ∀ arguments, (host x eval call arguments).Approximates (host x eval' call' arguments)

theorem Host.monotone_empty : Host.empty.Monotone :=
  fun _ _ _ _ _ _ _ _ => outOfFuel_approximates _

section Step

variable {host : Host} {eval eval' : Expr → EvalM Expr} {call call' : Expr → List Expr → EvalM Expr}

theorem Extension.chooseLazily_approximates (heval : ∀ e, (eval e).Approximates (eval' e))
    (arguments : List Expr) :
    (chooseLazily eval arguments).Approximates (chooseLazily eval' arguments) := by
  fun_induction chooseLazily eval arguments with
  | case1 condition result rest ih =>
    refine (heval condition).bind fun value => ?_
    split
    · exact ih
    · exact heval result
  | case2 otherwise => exact heval otherwise
  | case3 => exact .refl _

theorem Extension.Standard.run_approximates (heval : ∀ e, (eval e).Approximates (eval' e))
    (hcall : ∀ target as, (call target as).Approximates (call' target as)) (k : Standard)
    (arguments : List Expr) :
    (k.run eval call arguments).Approximates (k.run eval' call' arguments) := by
  unfold run
  split
  · exact chooseLazily_approximates heval _
  · exact .refl _
  · exact heval _
  · exact (heval _).bind fun value => .refl _
  · exact .refl _
  · exact hcall _ _
  · exact .refl _

theorem Host.monotone_standard : Host.standard.Monotone := by
  intro x eval eval' call call' heval hcall arguments
  unfold standard
  split
  · exact Extension.Standard.run_approximates heval hcall _ arguments
  · exact .refl _

theorem invoke_approximates (heval : ∀ e, (eval e).Approximates (eval' e)) (name : String)
    (parameters : List String) (body : Expr) (arguments : List Expr) :
    (invoke eval name parameters body arguments).Approximates
      (invoke eval' name parameters body arguments) := by
  unfold invoke
  split
  · exact .refl _
  · split
    · exact (heval body).inScope _
    · exact heval body

theorem applyBuiltIn_approximates (hh : host.Monotone)
    (heval : ∀ e, (eval e).Approximates (eval' e))
    (hcall : ∀ target as, (call target as).Approximates (call' target as)) (b : BuiltIn)
    (arguments : List Expr) :
    (applyBuiltIn host eval call b arguments).Approximates
      (applyBuiltIn host eval' call' b arguments) := by
  unfold applyBuiltIn
  split
  · cases b with
    | primitive p => exact .refl _
    | extension x => exact hh x _ _ _ _ heval hcall arguments
  · exact .refl _

theorem callBuiltIn_approximates (hh : host.Monotone)
    (heval : ∀ e, (eval e).Approximates (eval' e))
    (hcall : ∀ target as, (call target as).Approximates (call' target as)) (b : BuiltIn)
    (arguments : List Expr) :
    (callBuiltIn host eval call b arguments).Approximates
      (callBuiltIn host eval' call' b arguments) := by
  have happly := applyBuiltIn_approximates hh heval hcall b
  unfold callBuiltIn
  split
  · exact (Approximates.mapM heval arguments).bind happly
  · exact happly arguments

end Step

section Evaluation

variable {host : Host} (hh : host.Monotone)
include hh

theorem evaluation_approximates {fuel fuel' : Nat} (h : fuel ≤ fuel') :
    (∀ e, (evalWith host fuel e).Approximates (evalWith host fuel' e)) ∧
      ∀ target arguments, (callWith host fuel target arguments).Approximates
        (callWith host fuel' target arguments) := by
  induction fuel generalizing fuel' with
  | zero =>
    refine ⟨fun e => ?_, fun target arguments => ?_⟩
    · rw [evalWith]
      exact outOfFuel_approximates _
    · rw [callWith]
      exact outOfFuel_approximates _
  | succ fuel ih =>
    cases fuel' with
    | zero => omega
    | succ fuel' =>
      obtain ⟨heval, hcall⟩ := ih (Nat.le_of_succ_le_succ h)
      refine ⟨fun e => ?_, fun target arguments => ?_⟩
      · cases e with
        | call callee arguments => exact (heval callee).bind fun target => hcall target arguments
        | _ => exact .refl _
      · cases target with
        | builtIn b => exact callBuiltIn_approximates hh heval hcall b arguments
        | function name parameters body =>
          refine (Approximates.mapM heval arguments).bind fun values => ?_
          exact invoke_approximates heval name parameters body values
        | _ => exact .refl _

theorem steady_eval (e : Expr) : Steady fun fuel => evalWith host fuel e :=
  fun _ _ h => (evaluation_approximates hh h).1 e

theorem steady_call (target : Expr) (arguments : List Expr) :
    Steady fun fuel => callWith host fuel target arguments :=
  fun _ _ h => (evaluation_approximates hh h).2 target arguments

theorem steady_evalAll (es : List Expr) : Steady fun fuel => evalAll (evalWith host fuel) es :=
  fun _ _ h => Approximates.mapM (fun e => steady_eval hh e _ _ h) es

theorem steady_invoke (name : String) (parameters : List String) (body : Expr)
    (values : List Expr) :
    Steady fun fuel => invoke (evalWith host fuel) name parameters body values :=
  fun _ _ h => invoke_approximates (fun e => steady_eval hh e _ _ h) name parameters body values

theorem steady_applyBuiltIn (b : BuiltIn) (arguments : List Expr) :
    Steady fun fuel => applyBuiltIn host (evalWith host fuel) (callWith host fuel) b arguments :=
  fun _ _ h => applyBuiltIn_approximates hh (fun e => steady_eval hh e _ _ h)
    (fun target as => steady_call hh target as _ _ h) b arguments

/-! ## Runs -/

theorem steady_runWith (onResult : Expr → EvalM Unit) (program : Program) :
    Steady fun fuel => runWith host fuel onResult program := by
  intro fuel fuel' h
  refine (Approximates.mapM (fun e => ?_) program).bind fun results => .refl _
  exact (steady_eval hh e _ _ h).bind fun value => .refl _

theorem steady_runEchoing (echoing : Bool) (program : Program) :
    Steady fun fuel => runEchoing host fuel echoing program := by
  cases echoing with
  | true => exact steady_runWith hh echo program
  | false => exact steady_runWith hh _ program

end Evaluation

theorem runSources_mono {fuel fuel' : Nat} (h : fuel ≤ fuel') {echoing : Bool}
    {sources : List String} {sink after : Sink} {outcome : Except Failure (List Expr)}
    (hr : runSources fuel echoing sources sink = some (outcome, after)) :
    runSources fuel' echoing sources sink = some (outcome, after) := by
  cases hload : Reader.load sources with
  | error e =>
    rw [runSources_of_error hload] at hr ⊢
    exact hr
  | ok program =>
    rw [runSources_of_load hload] at hr ⊢
    obtain ⟨r, hrun, hout⟩ := Option.map_eq_some_iff.1 hr
    have hmore := steady_runEchoing Host.monotone_empty echoing program _ _ h
    exact Option.map_eq_some_iff.2 ⟨r, hmore _ r hrun, hout⟩

/-- The run of the sources ends with this outcome and leaves this sink. -/
def RunsTo (echoing : Bool) (sources : List String) (sink : Sink)
    (outcome : Except Failure (List Expr)) (after : Sink) : Prop :=
  ∃ fuel, runSources fuel echoing sources sink = some (outcome, after)

theorem RunsTo.unique {echoing : Bool} {sources : List String} {sink after after' : Sink}
    {outcome outcome' : Except Failure (List Expr)} (h : RunsTo echoing sources sink outcome after)
    (h' : RunsTo echoing sources sink outcome' after') : outcome = outcome' ∧ after = after' := by
  obtain ⟨fuel, hr⟩ := h
  obtain ⟨fuel', hr'⟩ := h'
  have hmax := runSources_mono (Nat.le_max_left fuel fuel') hr
  rw [runSources_mono (Nat.le_max_right fuel fuel') hr'] at hmax
  cases hmax
  exact ⟨rfl, rfl⟩

end Lisplet
