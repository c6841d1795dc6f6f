import Lisplet.Proofs.Fuel
import Lisplet.Proofs.Provenance
import Mathlib.Logic.Relation
/-!
# The course of a run

To run a program is a task, and in its course further tasks are started, each in some state: to
evaluate an expression, to call what that gave, to evaluate the arguments, to evaluate the body of a
function in a new scope. `Starts` says which. The points of a run are the tasks that are started in
it, directly or not, and at each of them `passes_originates` says where all values come from.
-/

namespace Lisplet

open EvalM

/-! ## Tasks -/

inductive Task where
  /-- Run what is left of a program. -/
  | run (echoing : Bool) (program : Program)
  | eval (e : Expr)
  | evalAll (es : List Expr)
  | call (target : Expr) (arguments : List Expr)
  /-- Run the body of a function on evaluated arguments. -/
  | invoke (name : String) (parameters : List String) (body : Expr) (values : List Expr)
  /-- Run a primitive on evaluated arguments. -/
  | apply (p : Primitive) (values : List Expr)

namespace Task

/-- Carries the task out. Returns the values that it results in. -/
def perform (fuel : Nat) : Task → EvalM (List Expr)
  | run echoing program => runEchoing .empty fuel echoing program
  | eval e => return [← Lisplet.eval fuel e]
  | evalAll es => Lisplet.evalAll (Lisplet.eval fuel) es
  | call target arguments => return [← Lisplet.call fuel target arguments]
  | invoke name parameters body values =>
    return [← Lisplet.invoke (Lisplet.eval fuel) name parameters body values]
  | apply p values =>
    return [← applyBuiltIn .empty (Lisplet.eval fuel) (Lisplet.call fuel) (.primitive p) values]

/-- The expressions that the task is to evaluate. -/
@[simp] def code : Task → List Expr
  | run _ program => program
  | eval e => [e]
  | evalAll es => es
  | call _ arguments => arguments
  | invoke _ _ _ _ | apply _ _ => []

/-- The values that the task is given to work with. -/
@[simp] def given : Task → List Expr
  | run _ _ | eval _ | evalAll _ => []
  | call target _ => [target]
  | invoke name parameters body values => .function name parameters body :: values
  | apply p values => .builtIn (.primitive p) :: values

end Task

/-- A task about to be carried out in a state. -/
structure Point where
  task : Task
  state : State

/-- The task has an outcome in this state. -/
def Point.Ends (p : Point) : Prop := Halts p.task.perform p.state

/-- Echoes a result or does not. -/
def report (echoing : Bool) (value : Expr) : EvalM Unit :=
  if echoing then echo value else return ()

/-- What a task starts directly, in the order in which it does. There are no extensions to call. -/
inductive Starts : Point → Point → Prop
  | first {echoing : Bool} {e : Expr} {program : Program} {s : State} :
    Starts ⟨.run echoing (e :: program), s⟩ ⟨.eval e, s⟩
  | rest {echoing : Bool} {e value : Expr} {program : Program} {s mid after : State} {fuel : Nat} :
    eval fuel e s = some (.ok value, mid) → report echoing value mid = some (.ok (), after) →
    Starts ⟨.run echoing (e :: program), s⟩ ⟨.run echoing program, after⟩
  | callee {callee : Expr} {arguments : List Expr} {s : State} :
    Starts ⟨.eval (.call callee arguments), s⟩ ⟨.eval callee, s⟩
  | target {callee target : Expr} {arguments : List Expr} {s mid : State} {fuel : Nat} :
    eval fuel callee s = some (.ok target, mid) →
    Starts ⟨.eval (.call callee arguments), s⟩ ⟨.call target arguments, mid⟩
  | argument {e : Expr} {es : List Expr} {s : State} :
    Starts ⟨.evalAll (e :: es), s⟩ ⟨.eval e, s⟩
  | arguments {e value : Expr} {es : List Expr} {s mid : State} {fuel : Nat} :
    eval fuel e s = some (.ok value, mid) →
    Starts ⟨.evalAll (e :: es), s⟩ ⟨.evalAll es, mid⟩
  | forFunction {name : String} {parameters : List String} {body : Expr} {as : List Expr}
      {s : State} :
    Starts ⟨.call (.function name parameters body) as, s⟩ ⟨.evalAll as, s⟩
  | invoke {name : String} {parameters : List String} {body : Expr} {as values : List Expr}
      {s mid : State} {fuel : Nat} :
    evalAll (eval fuel) as s = some (.ok values, mid) →
    Starts ⟨.call (.function name parameters body) as, s⟩
      ⟨.invoke name parameters body values, mid⟩
  | forPrimitive {p : Primitive} {as : List Expr} {s : State} :
    Starts ⟨.call (.builtIn (.primitive p)) as, s⟩ ⟨.evalAll as, s⟩
  | apply {p : Primitive} {as values : List Expr} {s mid : State} {fuel : Nat} :
    evalAll (eval fuel) as s = some (.ok values, mid) →
    Starts ⟨.call (.builtIn (.primitive p)) as, s⟩ ⟨.apply p values, mid⟩
  | scopedBody {name : String} {parameters : List String} {body : Expr} {values : List Expr}
      {s : State} :
    values.length = parameters.length → body.isCall = true →
    Starts ⟨.invoke name parameters body values, s⟩
      ⟨.eval body, { s with env := s.env.push (Scope.empty.insertAll (parameters.zip values)) }⟩
  | body {name : String} {parameters : List String} {body : Expr} {values : List Expr}
      {s : State} :
    values.length = parameters.length → body.isCall = false →
    Starts ⟨.invoke name parameters body values, s⟩ ⟨.eval body, s⟩

/-- The second point is reached in the course of the first one's task. -/
def Passes : Point → Point → Prop := Relation.ReflTransGen Starts

/-! ## Nothing is left out -/

theorem halts_lookup (name : String) (s : State) : Halts (fun _ => lookup name) s := by
  unfold lookup
  cases h : s.env.get? name with
  | some value => exact ⟨0, (.ok value, s), by simp [h]⟩
  | none => exact ⟨0, (.error (.undefinedSymbol name), s), by simp [h]⟩

theorem halts_writeValue (value : Expr) (s : State) : Halts (fun _ => writeValue value) s := by
  unfold writeValue
  split
  · exact ⟨0, _, rfl⟩
  · exact ⟨0, _, rfl⟩

theorem halts_report (echoing : Bool) (value : Expr) (s : State) :
    Halts (fun _ => report echoing value) s := by
  unfold report echo
  split
  · split
    · exact halts_writeValue _ s
    · exact ⟨0, _, rfl⟩
  · exact ⟨0, _, rfl⟩

theorem halts_writeAll (values : List Expr) (s : State) :
    Halts (fun _ => values.forM writeValue) s := by
  induction values generalizing s with
  | nil => exact ⟨0, _, rfl⟩
  | cons v values ih =>
    refine (halts_bind (steady_const _) fun _ => steady_const _).2 ⟨halts_writeValue v s, ?_⟩
    exact fun _ _ mid _ => ih mid

theorem halts_primitive (p : Primitive) (arguments : List Expr) (s : State) :
    Halts (fun _ => p.run arguments) s := by
  unfold Primitive.run
  split
  · refine (halts_bind (steady_const _) fun _ => steady_const _).2 ⟨halts_writeAll _ s, ?_⟩
    exact fun _ _ mid _ => ⟨0, _, rfl⟩
  · exact ⟨0, _, rfl⟩

theorem ends_eval {e : Expr} {s : State} :
    Point.Ends ⟨.eval e, s⟩ ↔ Halts (fun fuel => eval fuel e) s :=
  halts_map _

theorem ends_call {target : Expr} {as : List Expr} {s : State} :
    Point.Ends ⟨.call target as, s⟩ ↔ Halts (fun fuel => call fuel target as) s :=
  halts_map _

theorem ends_invoke {name : String} {parameters : List String} {body : Expr} {values : List Expr}
    {s : State} :
    Point.Ends ⟨.invoke name parameters body values, s⟩ ↔
      Halts (fun fuel => invoke (eval fuel) name parameters body values) s :=
  halts_map _

theorem ends_apply (p : Primitive) (values : List Expr) (s : State) :
    Point.Ends ⟨.apply p values, s⟩ := by
  refine (halts_map _).2 ?_
  unfold applyBuiltIn
  split
  · exact halts_primitive p values s
  · exact ⟨0, _, rfl⟩

theorem runEchoing_cons (host : Host) (fuel : Nat) (echoing : Bool) (e : Expr)
    (program : Program) :
    runEchoing host fuel echoing (e :: program) = do
      let value ← evalWith host fuel e
      report echoing value
      let results ← runEchoing host fuel echoing program
      return value :: results := by
  cases echoing with
  | true => exact runWith_cons host fuel echo e program
  | false => exact runWith_cons host fuel _ e program

theorem steady_rest (echoing : Bool) (value : Expr) (program : Program) : Steady fun fuel => do
    let results ← runEchoing .empty fuel echoing program
    return value :: results :=
  (steady_runEchoing Host.monotone_empty echoing program).bind fun _ => steady_const _

/-- After a result is there, a run ends unless what is left of the program does not. -/
theorem halts_rest_iff {echoing : Bool} {value : Expr} {program : Program} {s : State} :
    Halts (fun fuel => do
      report echoing value
      let results ← runEchoing .empty fuel echoing program
      return value :: results) s ↔
    ∀ after, report echoing value s = some (.ok (), after) →
      Point.Ends ⟨.run echoing program, after⟩ := by
  rw [halts_bind (steady_const _) fun _ => steady_rest echoing value program]
  constructor
  · rintro ⟨-, h⟩ after hr
    exact (halts_map _).1 (h 0 () after hr)
  · intro h
    exact ⟨halts_report echoing value s, fun _ _ after hr => (halts_map _).2 (h after hr)⟩

theorem ends_run_nil (echoing : Bool) (s : State) : Point.Ends ⟨.run echoing [], s⟩ := by
  have hflush : Halts (fun _ => flush) s := ⟨0, _, rfl⟩
  have hrun : Halts (fun _ => do flush; return ([] : List Expr)) s := (halts_map _).2 hflush
  cases echoing with
  | true => exact hrun
  | false => exact hrun

theorem ends_run_iff (echoing : Bool) (program : Program) (s : State) :
    Point.Ends ⟨.run echoing program, s⟩ ↔
      ∀ q, Starts ⟨.run echoing program, s⟩ q → q.Ends := by
  cases program with
  | nil => exact iff_of_true (ends_run_nil echoing s) (by rintro q ⟨⟩)
  | cons e program =>
    have hunfold : Point.Ends ⟨.run echoing (e :: program), s⟩ ↔ Halts (fun fuel => do
        let value ← eval fuel e
        report echoing value
        let results ← runEchoing .empty fuel echoing program
        return value :: results) s := by
      simp only [Point.Ends, Task.perform, runEchoing_cons]
    rw [hunfold, halts_bind (steady_eval Host.monotone_empty e) fun value =>
      (steady_const _).bind fun _ => steady_rest echoing value program]
    constructor
    · rintro ⟨hfirst, hrest⟩ q hq
      cases hq with
      | first => exact ends_eval.2 hfirst
      | rest hv hr => exact halts_rest_iff.1 (hrest _ _ _ hv) _ hr
    · intro h
      refine ⟨ends_eval.1 (h _ .first), fun _ _ _ hv => ?_⟩
      exact halts_rest_iff.2 fun _ hr => h _ (.rest hv hr)

theorem ends_eval_iff (e : Expr) (s : State) :
    Point.Ends ⟨.eval e, s⟩ ↔ ∀ q, Starts ⟨.eval e, s⟩ q → q.Ends := by
  cases e with
  | call callee as =>
    have hsteady := steady_eval Host.monotone_empty (.call callee as)
    rw [ends_eval, halts_succ hsteady fun fuel => by rw [evalWith],
      halts_bind (steady_eval Host.monotone_empty callee) fun target =>
        steady_call Host.monotone_empty target as]
    constructor
    · rintro ⟨hcallee, htarget⟩ q hq
      cases hq with
      | callee => exact ends_eval.2 hcallee
      | target hv => exact ends_call.2 (htarget _ _ _ hv)
    · intro h
      exact ⟨ends_eval.1 (h _ .callee), fun _ _ _ hv => ends_call.1 (h _ (.target hv))⟩
  | symbol name =>
    refine iff_of_true (ends_eval.2 ?_) (by rintro q ⟨⟩)
    have hsteady := steady_eval Host.monotone_empty (.symbol name)
    exact (halts_succ hsteady fun fuel => by rw [evalWith]).2 (halts_lookup name s)
  | _ => exact iff_of_true ⟨1, _, rfl⟩ (by rintro q ⟨⟩)

theorem ends_evalAll_iff (es : List Expr) (s : State) :
    Point.Ends ⟨.evalAll es, s⟩ ↔ ∀ q, Starts ⟨.evalAll es, s⟩ q → q.Ends := by
  cases es with
  | nil => exact iff_of_true ⟨0, _, rfl⟩ (by rintro q ⟨⟩)
  | cons e es =>
    have hunfold : Point.Ends ⟨.evalAll (e :: es), s⟩ ↔ Halts (fun fuel => do
        let value ← eval fuel e
        let values ← evalAll (eval fuel) es
        return value :: values) s := by
      simp only [Point.Ends, Task.perform, evalAll, List.mapM_cons]
    have hsteady : ∀ value, Steady fun fuel => do
        let values ← evalAll (eval fuel) es
        return value :: values :=
      fun value => (steady_evalAll Host.monotone_empty es).bind fun _ => steady_const _
    rw [hunfold, halts_bind (steady_eval Host.monotone_empty e) hsteady]
    constructor
    · rintro ⟨hfirst, hrest⟩ q hq
      cases hq with
      | argument => exact ends_eval.2 hfirst
      | arguments hv => exact (halts_map _).1 (hrest _ _ _ hv)
    · intro h
      refine ⟨ends_eval.1 (h _ .argument), fun _ _ _ hv => ?_⟩
      exact (halts_map _).2 (h _ (.arguments hv))

theorem ends_call_iff {target : Expr} (ht : ∀ x, target ≠ .builtIn (.extension x))
    (as : List Expr) (s : State) :
    Point.Ends ⟨.call target as, s⟩ ↔ ∀ q, Starts ⟨.call target as, s⟩ q → q.Ends := by
  cases target with
  | function name parameters body =>
    have hsteady := steady_call Host.monotone_empty (.function name parameters body) as
    rw [ends_call, halts_succ hsteady fun fuel => by rw [callWith],
      halts_bind (steady_evalAll Host.monotone_empty as) fun values =>
        steady_invoke Host.monotone_empty name parameters body values]
    constructor
    · rintro ⟨hargs, hinvoke⟩ q hq
      cases hq with
      | forFunction => exact hargs
      | invoke hv => exact ends_invoke.2 (hinvoke _ _ _ hv)
    · intro h
      exact ⟨h _ .forFunction, fun _ _ _ hv => ends_invoke.1 (h _ (.invoke hv))⟩
  | builtIn b =>
    cases b with
    | primitive p =>
      have hunfold : ∀ fuel, call (fuel + 1) (.builtIn (.primitive p)) as =
          evalAll (eval fuel) as >>=
            applyBuiltIn .empty (eval fuel) (call fuel) (.primitive p) := fun _ => rfl
      rw [ends_call, halts_succ (steady_call Host.monotone_empty _ _) hunfold,
        halts_bind (steady_evalAll Host.monotone_empty as) fun values =>
          steady_applyBuiltIn Host.monotone_empty (.primitive p) values]
      constructor
      · rintro ⟨hargs, -⟩ q hq
        cases hq with
        | forPrimitive => exact hargs
        | apply hv => exact ends_apply _ _ _
      · intro h
        exact ⟨h _ .forPrimitive, fun _ _ _ _ => (halts_map _).1 (ends_apply _ _ _)⟩
    | extension x => exact absurd rfl (ht x)
  | _ => exact iff_of_true ⟨1, _, rfl⟩ (by rintro q ⟨⟩)

theorem ends_invoke_iff (name : String) (parameters : List String) (body : Expr)
    (values : List Expr) (s : State) :
    Point.Ends ⟨.invoke name parameters body values, s⟩ ↔
      ∀ q, Starts ⟨.invoke name parameters body values, s⟩ q → q.Ends := by
  rw [ends_invoke]
  unfold invoke
  split
  · next hcount =>
    refine iff_of_true ⟨0, _, rfl⟩ fun q hq => ?_
    cases hq with
    | scopedBody h _ => exact absurd h hcount
    | body h _ => exact absurd h hcount
  · next hcount =>
    have hcount := not_not.1 hcount
    split
    · next hb =>
      rw [halts_inScope]
      constructor
      · intro hbody q hq
        cases hq with
        | scopedBody => exact ends_eval.2 hbody
        | body _ hb' => simp [hb] at hb'
      · intro h
        exact ends_eval.1 (h _ (.scopedBody hcount hb))
    · next hb =>
      constructor
      · intro hbody q hq
        cases hq with
        | scopedBody _ hb' => exact absurd hb' hb
        | body => exact ends_eval.2 hbody
      · intro h
        exact ends_eval.1 (h _ (.body hcount (Bool.eq_false_iff.2 hb)))

/-- A task ends exactly if all that it starts does. So no evaluation in the course of a task is
missing from `Starts`, and none is there that does not happen. -/
theorem ends_iff {t : Task} {s : State} (ht : ∀ x as, t ≠ .call (.builtIn (.extension x)) as) :
    Point.Ends ⟨t, s⟩ ↔ ∀ q, Starts ⟨t, s⟩ q → q.Ends := by
  cases t with
  | run echoing program => exact ends_run_iff echoing program s
  | eval e => exact ends_eval_iff e s
  | evalAll es => exact ends_evalAll_iff es s
  | call target as => exact ends_call_iff (by rintro x rfl; exact ht x as rfl) as s
  | invoke name parameters body values => exact ends_invoke_iff name parameters body values s
  | apply p values => exact iff_of_true (ends_apply p values s) (by rintro q ⟨⟩)

/-! ## Judgements -/

namespace Rules

variable {V : Vocabulary} {J : ∀ {α : Type}, (α → Prop) → EvalM α → Prop}

theorem report {host : Host} (r : Rules host V J) {value : Expr} (hv : V.Value value)
    (echoing : Bool) : J (fun _ => True) (Lisplet.report echoing value) := by
  cases echoing with
  | true => exact r.echo hv
  | false => exact r.value trivial

/-- A judgement holds of every task that is given code to evaluate and values to work with. -/
theorem perform (r : Rules .empty V J) (hflush : J (fun _ => True) flush) {t : Task}
    (hcode : ∀ e ∈ t.code, V.Code e) (hgiven : ∀ v ∈ t.given, V.Value v) (fuel : Nat) :
    J (fun vs => ∀ v ∈ vs, V.Value v) (t.perform fuel) := by
  have heval : ∀ e, V.Code e → J V.Value (Lisplet.eval fuel e) := fun e he => r.eval fuel he
  have hcall : ∀ target as, V.Value target → (∀ a ∈ as, V.Code a) →
      J V.Value (Lisplet.call fuel target as) := fun target as ht ha => r.call fuel ht ha
  have hone : ∀ m : EvalM Expr, J V.Value m →
      J (fun vs => ∀ v ∈ vs, V.Value v) do return [← m] :=
    fun m hm => r.bind hm fun v hv => r.value (by simpa using hv)
  cases t with
  | run echoing program => exact r.runEchoing fuel echoing hflush hcode
  | eval e => exact hone _ (heval e (hcode e List.mem_cons_self))
  | evalAll es => exact r.evalEach heval hcode
  | call target as => exact hone _ (hcall target as (hgiven target List.mem_cons_self) hcode)
  | invoke name parameters body values =>
    refine hone _ (r.invoke heval (hgiven _ List.mem_cons_self) fun v hv => ?_)
    exact hgiven v (List.mem_cons_of_mem _ hv)
  | apply p values =>
    refine hone _ (r.applyBuiltIn heval hcall (hgiven _ List.mem_cons_self) fun v hv => ?_)
    exact hgiven v (List.mem_cons_of_mem _ hv)

end Rules

/-! ## Where values come from -/

/-- What is to be evaluated stands in the program, and all values at hand come from it. -/
structure Point.Sound (program : Program) (p : Point) : Prop where
  code : ∀ e ∈ p.task.code, e.OccursIn program
  given : ∀ v ∈ p.task.given, Originates program v
  bound : p.state.env.All (Originates program)

section Sound

variable {program : Program}

theorem Point.Sound.regular {p : Point} (h : p.Sound program) : Regular program False p.state :=
  ⟨h.bound, False.elim⟩

/-- What a task results in comes from the program, and so does what is bound after it. -/
theorem Point.Sound.perform (hp : ∀ e ∈ program, e.expressible = true) {p : Point}
    (h : p.Sound program) {fuel : Nat} {outcome : Except RuntimeError (List Expr)} {after : State}
    (hrun : p.task.perform fuel p.state = some (outcome, after)) :
    after.env.All (Originates program) ∧
      ∀ values, outcome = .ok values → ∀ v ∈ values, Originates program v := by
  have hkeeps := (regular_rules .empty hp False).perform keepsRegular_flush h.code h.given fuel
  obtain ⟨hafter, hyields⟩ := hkeeps _ _ _ h.regular hrun
  refine ⟨hafter.bound, ?_⟩
  rintro values rfl
  exact hyields

/-- Parts of code are code, and what is at hand when a part begins has come from parts before
it. -/
theorem Starts.sound (hp : ∀ e ∈ program, e.expressible = true) {p q : Point} (hpq : Starts p q)
    (h : p.Sound program) : q.Sound program := by
  have rules := regular_rules .empty hp False
  have hregular := h.regular
  obtain ⟨hcode, hgiven, hbound⟩ := h
  cases hpq with
  | first => exact ⟨List.forall_mem_singleton.2 (hcode _ List.mem_cons_self), by simp, hbound⟩
  | rest hv hr =>
    obtain ⟨hmid, hvalue⟩ := rules.eval _ (hcode _ List.mem_cons_self) _ _ _ hregular hv
    obtain ⟨hafter, -⟩ := rules.report hvalue _ _ _ _ hmid hr
    exact ⟨fun e he => hcode e (List.mem_cons_of_mem _ he), by simp, hafter.bound⟩
  | callee =>
    have hcallee := (Expr.Occurs.callee .refl).transIn (hcode _ List.mem_cons_self)
    exact ⟨List.forall_mem_singleton.2 hcallee, by simp, hbound⟩
  | target hv =>
    have hcall := hcode _ List.mem_cons_self
    have hcallee := (Expr.Occurs.callee .refl).transIn hcall
    obtain ⟨hmid, htarget⟩ := rules.eval _ hcallee _ _ _ hregular hv
    refine ⟨fun a ha => ?_, List.forall_mem_singleton.2 htarget, hmid.bound⟩
    exact (Expr.Occurs.argument ha .refl).transIn hcall
  | argument => exact ⟨List.forall_mem_singleton.2 (hcode _ List.mem_cons_self), by simp, hbound⟩
  | arguments hv =>
    obtain ⟨hmid, -⟩ := rules.eval _ (hcode _ List.mem_cons_self) _ _ _ hregular hv
    exact ⟨fun e he => hcode e (List.mem_cons_of_mem _ he), by simp, hmid.bound⟩
  | forFunction => exact ⟨hcode, by simp, hbound⟩
  | invoke hv =>
    obtain ⟨hmid, hvalues⟩ :=
      rules.evalEach (fun e he => rules.eval _ he) hcode _ _ _ hregular hv
    refine ⟨by simp, ?_, hmid.bound⟩
    exact List.forall_mem_cons.2 ⟨hgiven _ List.mem_cons_self, hvalues⟩
  | forPrimitive => exact ⟨hcode, by simp, hbound⟩
  | apply hv =>
    obtain ⟨hmid, hvalues⟩ :=
      rules.evalEach (fun e he => rules.eval _ he) hcode _ _ _ hregular hv
    refine ⟨by simp, ?_, hmid.bound⟩
    exact List.forall_mem_cons.2 ⟨.primitive _, hvalues⟩
  | scopedBody hcount hb =>
    obtain ⟨hfunction, hvalues⟩ := List.forall_mem_cons.1 hgiven
    have hbody : Expr.OccursIn _ program := (Vocabulary.ofProgram hp False).code_body hfunction
    refine ⟨List.forall_mem_singleton.2 hbody, by simp, hbound.push ?_⟩
    exact Scope.all_empty.insertAll fun b hb => hvalues b.2 (List.of_mem_zip hb).2
  | body hcount hb =>
    obtain ⟨hfunction, -⟩ := List.forall_mem_cons.1 hgiven
    have hbody : Expr.OccursIn _ program := (Vocabulary.ofProgram hp False).code_body hfunction
    exact ⟨List.forall_mem_singleton.2 hbody, by simp, hbound⟩

theorem Passes.sound (hp : ∀ e ∈ program, e.expressible = true) {p q : Point} (hpq : Passes p q)
    (h : p.Sound program) : q.Sound program := by
  induction hpq with
  | refl => exact h
  | tail _ hstep ih => exact hstep.sound hp ih

theorem sound_run (program : Program) (echoing : Bool) (sink : Sink) :
    Point.Sound program ⟨.run echoing program, ⟨.initial, sink⟩⟩ :=
  ⟨fun e he => ⟨e, he, .refl⟩, by simp, Env.all_initial fun p => .primitive p⟩

end Sound

/-- At every point in the course of the run of sources, when a task begins and when it ends, each
binding of each scope of the chain is a number, `void`, a primitive or a function that stands in
the program, and so is each value that the task is given or results in. No point is left out: a
task ends exactly if all that it starts does. -/
theorem passes_originates (sources : List String) (program : Program) (echoing : Bool)
    (sink : Sink) (p : Point) (hload : Reader.load sources = .ok program)
    (hpass : Passes ⟨.run echoing program, ⟨.initial, sink⟩⟩ p) :
    p.state.env.All (Originates program) ∧ (∀ v ∈ p.task.given, Originates program v) ∧
      (∀ fuel outcome after, p.task.perform fuel p.state = some (outcome, after) →
        after.env.All (Originates program) ∧
          ∀ values, outcome = .ok values → ∀ v ∈ values, Originates program v) ∧
      (p.Ends ↔ ∀ q, Starts p q → q.Ends) := by
  have hp := Reader.expressible_of_load hload
  have hsound := hpass.sound hp (sound_run program echoing sink)
  refine ⟨hsound.bound, hsound.given, fun _ _ _ hrun => hsound.perform hp hrun, ends_iff ?_⟩
  -- Only an extension could start more than `Starts` says, and an extension is no value here.
  intro x as ht
  have hx := hsound.given (.builtIn (.extension x)) (by simp [ht])
  cases hx

/-- `(function keep (f) (batch f))`. -/
def keep : Expr := .function "keep" ["f"] (.call (.symbol "batch") [.symbol "f"])

/-- Defines `keep` and passes it to itself. -/
def keepItself : Program := [keep, .call (.symbol "keep") [.symbol "keep"]]

/-- In the body of the call the parameter is bound to the function as it stands in the program. -/
theorem passes_originates_keepItself : Reader.load (keepItself.map Expr.text) = .ok keepItself ∧
    ∃ s, Passes ⟨.run true keepItself, ⟨.initial, .unlimited⟩⟩
        ⟨.eval (.call (.symbol "batch") [.symbol "f"]), s⟩ ∧
      s.env.get? "f" = some keep ∧ s.env.All (Originates keepItself) := by
  have hload : Reader.load (keepItself.map Expr.text) = .ok keepItself :=
    Reader.load_text (by simp [keepItself]) (by decide +kernel)
  let s : State := ⟨Env.initial.define "keep" keep, .unlimited⟩
  have hdefine : eval 1 keep ⟨.initial, .unlimited⟩ = some (.ok keep, s) := rfl
  have htarget : eval 1 (.symbol "keep") s = some (.ok keep, s) := rfl
  have hargs : evalAll (eval 1) [.symbol "keep"] s = some (.ok [keep], s) := rfl
  have hpass : Passes ⟨.run true keepItself, ⟨.initial, .unlimited⟩⟩
      ⟨.eval (.call (.symbol "batch") [.symbol "f"]),
        { s with env := s.env.push (Scope.empty.insertAll [("f", keep)]) }⟩ := by
    refine Relation.ReflTransGen.head (.rest hdefine rfl) ?_
    refine Relation.ReflTransGen.head .first ?_
    refine Relation.ReflTransGen.head (.target htarget) ?_
    refine Relation.ReflTransGen.head (.invoke hargs) ?_
    exact Relation.ReflTransGen.single (.scopedBody rfl rfl)
  have horiginates := passes_originates _ _ true .unlimited _ hload hpass
  exact ⟨hload, _, hpass, rfl, horiginates.1⟩

end Lisplet
