import Lisplet.Proofs.Primitives
import Lisplet.Run
/-!
# What evaluation is made of

Evaluation looks names up, registers functions, opens scopes, writes values and fails. A judgement
about computations that has a rule for each of these holds of every evaluation: `Rules.eval` and
`Rules.call`, and of every run: `Rules.runEchoing`. The induction on fuel is done here, once. What
the evaluator keeps or never does is then proved by giving the rules.
-/

namespace Lisplet

open EvalM

/-! ## Judgements -/

/-- Expressions and failures that evaluation does not lead out of. -/
structure Vocabulary where
  /-- What is evaluated. -/
  Code : Expr → Prop
  /-- What evaluation results in. -/
  Value : Expr → Prop
  /-- How evaluation fails. -/
  Failure : RuntimeError → Prop
  code_callee {callee : Expr} {arguments : List Expr} : Code (.call callee arguments) → Code callee
  code_argument {callee a : Expr} {arguments : List Expr} :
    Code (.call callee arguments) → a ∈ arguments → Code a
  code_body {name : String} {parameters : List String} {body : Expr} :
    Value (.function name parameters body) → Code body
  value_number {value : Number} : Code (.number value) → Value (.number value)
  value_builtIn {b : BuiltIn} : Code (.builtIn b) → Value (.builtIn b)
  failure_void : Code .void → Failure .voidEvaluation
  failure_target {target : Expr} :
    Value target → target.isCallable = false → Failure (.notCallable target)
  failure_count (function : String) (expected : Arity) (received : Nat) :
    Failure (.argumentCount function expected received)
  yields_result {p : Primitive} {arguments : List Expr} :
    (∀ a ∈ arguments, Value a) → p.arity.accepts arguments.length = true →
    Yields Value Failure (p.result arguments)

/-- All expressions and all failures. -/
def Vocabulary.full : Vocabulary where
  Code _ := True
  Value _ := True
  Failure _ := True
  code_callee _ := trivial
  code_argument _ _ := trivial
  code_body _ := trivial
  value_number _ := trivial
  value_builtIn _ := trivial
  failure_void _ := trivial
  failure_target _ _ := trivial
  failure_count _ _ _ := trivial
  yields_result _ ha := (Primitive.yields_result ha).imp (fun _ _ => trivial) fun _ _ => trivial

/-- The judgement `J Q m` is about a computation `m` whose results are to have `Q`. It has a rule
for everything that evaluation does. -/
structure Rules (host : Host) (V : Vocabulary)
    (J : ∀ {α : Type}, (α → Prop) → EvalM α → Prop) : Prop where
  exhausted {α : Type} {Q : α → Prop} : J Q outOfFuel
  value {α : Type} {Q : α → Prop} {a : α} : Q a → J Q (pure a)
  failure {α : Type} {Q : α → Prop} {e : RuntimeError} : V.Failure e → J Q (throw e)
  bind {α β : Type} {Q : α → Prop} {R : β → Prop} {m : EvalM α} {f : α → EvalM β} :
    J Q m → (∀ a, Q a → J R (f a)) → J R (m >>= f)
  lookup {name : String} : V.Code (.symbol name) → J V.Value (EvalM.lookup name)
  register {name : String} {parameters : List String} {body : Expr} :
    V.Code (.function name parameters body) →
    J V.Value do
      let _ ← EvalM.define name (.function name parameters body)
      return .function name parameters body
  inScope {bindings : List (String × Expr)} {body : EvalM Expr} :
    (∀ b ∈ bindings, V.Value b.2) → J V.Value body →
    J V.Value (EvalM.inScope (Scope.empty.insertAll bindings) body)
  write {value : Expr} : V.Value value → J (fun _ => True) (writeValue value)
  extension {x : Extension} {eval : Expr → EvalM Expr} {call : Expr → List Expr → EvalM Expr}
      {arguments : List Expr} :
    V.Value (.builtIn (.extension x)) → (∀ e, V.Code e → J V.Value (eval e)) →
    (∀ target as, V.Value target → (∀ a ∈ as, V.Code a) → J V.Value (call target as)) →
    (∀ a ∈ arguments, if x.eager then V.Value a else V.Code a) →
    J V.Value (host x eval call arguments)

namespace Rules

variable {host : Host} {V : Vocabulary} {J : ∀ {α : Type}, (α → Prop) → EvalM α → Prop}

/-! ## One evaluation -/

theorem mapM (r : Rules host V J) {α β : Type} {Q : β → Prop} {f : α → EvalM β} {xs : List α}
    (h : ∀ x ∈ xs, J Q (f x)) : J (fun ys => ∀ y ∈ ys, Q y) (xs.mapM f) := by
  induction xs with
  | nil => exact r.value (by simp)
  | cons x xs ih =>
    rw [List.mapM_cons]
    refine r.bind (h x List.mem_cons_self) fun y hy => ?_
    refine r.bind (ih fun x' hx => h x' (List.mem_cons_of_mem _ hx)) fun ys hys => ?_
    exact r.value (by simpa [hy] using hys)

theorem writeAll (r : Rules host V J) {values : List Expr} (h : ∀ v ∈ values, V.Value v) :
    J (fun _ => True) (values.forM writeValue) := by
  induction values with
  | nil => exact r.value trivial
  | cons v values ih =>
    refine r.bind (r.write (h v List.mem_cons_self)) fun _ _ => ?_
    exact ih fun v' hv => h v' (List.mem_cons_of_mem _ hv)

theorem done (r : Rules host V J) {outcome : Except RuntimeError Expr}
    (h : Yields V.Value V.Failure outcome) : J V.Value (EvalM.done outcome) := by
  cases outcome with
  | ok value => exact r.value h
  | error e => exact r.failure h

theorem primitive (r : Rules host V J) {p : Primitive} {arguments : List Expr}
    (hv : ∀ a ∈ arguments, V.Value a) (ha : p.arity.accepts arguments.length = true) :
    J V.Value (p.run arguments) := by
  have hdone : J V.Value (EvalM.done (p.result arguments)) := r.done (V.yields_result hv ha)
  unfold Primitive.run
  split
  · exact r.bind (r.writeAll hv) fun _ _ => hdone
  · exact hdone

theorem invoke (r : Rules host V J) {eval : Expr → EvalM Expr} {name : String}
    {parameters : List String} {body : Expr} {arguments : List Expr}
    (heval : ∀ e, V.Code e → J V.Value (eval e))
    (hf : V.Value (.function name parameters body)) (hv : ∀ a ∈ arguments, V.Value a) :
    J V.Value (Lisplet.invoke eval name parameters body arguments) := by
  have hbody : J V.Value (eval body) := heval body (V.code_body hf)
  unfold Lisplet.invoke
  split
  · exact r.failure (V.failure_count _ _ _)
  · split
    · refine r.inScope (fun b hb => ?_) hbody
      exact hv b.2 (List.of_mem_zip hb).2
    · exact hbody

theorem evalEach (r : Rules host V J) {eval : Expr → EvalM Expr} {es : List Expr}
    (heval : ∀ e, V.Code e → J V.Value (eval e)) (h : ∀ e ∈ es, V.Code e) :
    J (fun vs => ∀ v ∈ vs, V.Value v) (evalAll eval es) :=
  r.mapM fun e he => heval e (h e he)

theorem applyBuiltIn (r : Rules host V J) {eval : Expr → EvalM Expr}
    {call : Expr → List Expr → EvalM Expr} {b : BuiltIn} {arguments : List Expr}
    (heval : ∀ e, V.Code e → J V.Value (eval e))
    (hcall : ∀ target as, V.Value target → (∀ a ∈ as, V.Code a) → J V.Value (call target as))
    (hb : V.Value (.builtIn b)) (ha : ∀ a ∈ arguments, if b.eager then V.Value a else V.Code a) :
    J V.Value (Lisplet.applyBuiltIn host eval call b arguments) := by
  unfold Lisplet.applyBuiltIn
  split
  · next hcount =>
    cases b with
    | primitive p => exact r.primitive ha hcount
    | extension x => exact r.extension hb heval hcall ha
  · exact r.failure (V.failure_count _ _ _)

theorem callBuiltIn (r : Rules host V J) {eval : Expr → EvalM Expr}
    {call : Expr → List Expr → EvalM Expr} {b : BuiltIn} {arguments : List Expr}
    (heval : ∀ e, V.Code e → J V.Value (eval e))
    (hcall : ∀ target as, V.Value target → (∀ a ∈ as, V.Code a) → J V.Value (call target as))
    (hb : V.Value (.builtIn b)) (ha : ∀ a ∈ arguments, V.Code a) :
    J V.Value (Lisplet.callBuiltIn host eval call b arguments) := by
  unfold Lisplet.callBuiltIn
  split
  · next h =>
    refine r.bind (r.evalEach heval ha) fun vs hvs => r.applyBuiltIn heval hcall hb ?_
    simpa [h] using hvs
  · next h =>
    refine r.applyBuiltIn heval hcall hb ?_
    simpa [h] using ha

/-- The judgement holds of evaluation and of calls, whatever the fuel. -/
theorem eval_and_call (r : Rules host V J) (fuel : Nat) :
    (∀ e, V.Code e → J V.Value (evalWith host fuel e)) ∧
      ∀ target arguments, V.Value target → (∀ a ∈ arguments, V.Code a) →
        J V.Value (callWith host fuel target arguments) := by
  induction fuel with
  | zero =>
    refine ⟨fun e _ => ?_, fun target arguments _ _ => ?_⟩
    · rw [evalWith]
      exact r.exhausted
    · rw [callWith]
      exact r.exhausted
  | succ fuel ih =>
    obtain ⟨heval, hcall⟩ := ih
    refine ⟨fun e he => ?_, fun target arguments ht ha => ?_⟩
    · cases e with
      | number n => exact r.value (V.value_number he)
      | builtIn b => exact r.value (V.value_builtIn he)
      | symbol name => exact r.lookup he
      | function name parameters body => exact r.register he
      | call callee arguments =>
        refine r.bind (heval callee (V.code_callee he)) fun target ht => ?_
        exact hcall target arguments ht fun a ha => V.code_argument he ha
      | void => exact r.failure (V.failure_void he)
    · cases target with
      | builtIn b => exact r.callBuiltIn heval hcall ht ha
      | function name parameters body =>
        exact r.bind (r.evalEach heval ha) fun vs hvs => r.invoke heval ht hvs
      | number n => exact r.failure (V.failure_target ht rfl)
      | symbol name => exact r.failure (V.failure_target ht rfl)
      | call callee as => exact r.failure (V.failure_target ht rfl)
      | void => exact r.failure (V.failure_target ht rfl)

theorem eval (r : Rules host V J) (fuel : Nat) {e : Expr} (he : V.Code e) :
    J V.Value (evalWith host fuel e) :=
  (r.eval_and_call fuel).1 e he

theorem call (r : Rules host V J) (fuel : Nat) {target : Expr} {arguments : List Expr}
    (ht : V.Value target) (ha : ∀ a ∈ arguments, V.Code a) :
    J V.Value (callWith host fuel target arguments) :=
  (r.eval_and_call fuel).2 target arguments ht ha

/-! ## Runs -/

/-- A top-level expression and what is done with its result. -/
theorem form (r : Rules host V J) (fuel : Nat) {onResult : Expr → EvalM Unit} {e : Expr}
    (ho : ∀ v, V.Value v → J (fun _ => True) (onResult v)) (he : V.Code e) :
    J V.Value do
      let value ← evalWith host fuel e
      onResult value
      return value := by
  refine r.bind (r.eval fuel he) fun v hv => ?_
  exact r.bind (ho v hv) fun _ _ => r.value hv

theorem runWith (r : Rules host V J) (fuel : Nat) {onResult : Expr → EvalM Unit}
    {program : Program} (ho : ∀ v, V.Value v → J (fun _ => True) (onResult v))
    (hflush : J (fun _ => True) flush) (hp : ∀ e ∈ program, V.Code e) :
    J (fun vs => ∀ v ∈ vs, V.Value v) (Lisplet.runWith host fuel onResult program) := by
  refine r.bind (r.mapM fun e he => r.form fuel ho (hp e he)) fun vs hvs => ?_
  exact r.bind hflush fun _ _ => r.value hvs

theorem echo (r : Rules host V J) {value : Expr} (hv : V.Value value) :
    J (fun _ => True) (Lisplet.echo value) := by
  unfold Lisplet.echo
  split
  · exact r.write hv
  · exact r.value trivial

theorem runEchoing (r : Rules host V J) (fuel : Nat) (echoing : Bool) {program : Program}
    (hflush : J (fun _ => True) flush) (hp : ∀ e ∈ program, V.Code e) :
    J (fun vs => ∀ v ∈ vs, V.Value v) (Lisplet.runEchoing host fuel echoing program) := by
  cases echoing with
  | true => exact r.runWith fuel (fun _ hv => r.echo hv) hflush hp
  | false => exact r.runWith fuel (fun _ _ => r.value trivial) hflush hp

end Rules

/-! ## Properties without regard to values -/

/-- A property of computations with the same rules, whatever is evaluated and comes out. -/
structure Closed (host : Host) (P : ∀ {α : Type}, EvalM α → Prop) : Prop where
  exhausted {α : Type} : P (outOfFuel : EvalM α)
  done {α : Type} (outcome : Except RuntimeError α) : P (EvalM.done outcome)
  bind {α β : Type} {m : EvalM α} {f : α → EvalM β} :
    P m → (∀ a, m.Gives a → P (f a)) → P (m >>= f)
  lookup (name : String) : P (EvalM.lookup name)
  register (name : String) (parameters : List String) (body : Expr) :
    P do
      let _ ← EvalM.define name (.function name parameters body)
      return Expr.function name parameters body
  inScope {bindings : List (String × Expr)} {body : EvalM Expr} :
    P body → P (EvalM.inScope (Scope.empty.insertAll bindings) body)
  write (value : Expr) : P (writeValue value)
  extension {x : Extension} {eval : Expr → EvalM Expr} {call : Expr → List Expr → EvalM Expr} :
    (∀ e, P (eval e)) → (∀ target as, P (call target as)) →
    ∀ arguments, P (host x eval call arguments)

namespace Closed

variable {host : Host} {P : ∀ {α : Type}, EvalM α → Prop}

theorem rules (c : Closed host P) :
    Rules host .full fun {_} Q m => P m ∧ ∀ a, m.Gives a → Q a where
  exhausted := ⟨c.exhausted, by rintro a ⟨s, after, h⟩; cases h⟩
  value hq := ⟨c.done _, by rintro a ⟨s, after, h⟩; cases h; exact hq⟩
  failure _ := ⟨c.done _, by rintro a ⟨s, after, h⟩; cases h⟩
  bind hm hf := by
    refine ⟨c.bind hm.1 fun a ha => (hf a (hm.2 a ha)).1, ?_⟩
    rintro b ⟨s, after, h⟩
    rcases bind_eq_some h with ⟨a, mid, hs, hmid⟩ | ⟨e, -, he⟩
    · exact (hf a (hm.2 a ⟨s, mid, hs⟩)).2 b ⟨mid, after, hmid⟩
    · cases he
  lookup _ := ⟨c.lookup _, fun _ _ => trivial⟩
  register _ := ⟨c.register _ _ _, fun _ _ => trivial⟩
  inScope _ hb := ⟨c.inScope hb.1, fun _ _ => trivial⟩
  write _ := ⟨c.write _, fun _ _ => trivial⟩
  extension _ heval hcall _ := by
    refine ⟨c.extension (fun e => (heval e trivial).1) ?_ _, fun _ _ => trivial⟩
    exact fun target as => (hcall target as trivial fun _ _ => trivial).1

theorem eval (c : Closed host P) (fuel : Nat) (e : Expr) : P (evalWith host fuel e) :=
  (c.rules.eval fuel trivial).1

theorem call (c : Closed host P) (fuel : Nat) (target : Expr) (arguments : List Expr) :
    P (callWith host fuel target arguments) :=
  (c.rules.call fuel trivial fun _ _ => trivial).1

theorem evalAll (c : Closed host P) (fuel : Nat) (es : List Expr) :
    P (Lisplet.evalAll (evalWith host fuel) es) :=
  (c.rules.evalEach (fun _ => c.rules.eval fuel) fun _ _ => trivial).1

theorem invoke (c : Closed host P) (fuel : Nat) (name : String) (parameters : List String)
    (body : Expr) (values : List Expr) :
    P (Lisplet.invoke (evalWith host fuel) name parameters body values) :=
  (c.rules.invoke (fun _ => c.rules.eval fuel) trivial fun _ _ => trivial).1

theorem runEchoing (c : Closed host P) (fuel : Nat) (echoing : Bool) (program : Program)
    (hflush : P flush) : P (Lisplet.runEchoing host fuel echoing program) :=
  (c.rules.runEchoing fuel echoing ⟨hflush, fun _ _ => trivial⟩ fun _ _ => trivial).1

end Closed

/-! ## The standard host -/

section Standard

variable (P : ∀ {α : Type}, EvalM α → Prop)
  (hdone : ∀ {α : Type} (outcome : Except RuntimeError α), P (EvalM.done outcome))
  (hbind : ∀ {α β : Type} {m : EvalM α} {f : α → EvalM β},
    P m → (∀ a, m.Gives a → P (f a)) → P (m >>= f))
  {eval : Expr → EvalM Expr} (heval : ∀ e, P (eval e))
include hdone hbind heval

theorem Extension.chooseLazily_closed (arguments : List Expr) :
    P (chooseLazily eval arguments) := by
  fun_induction chooseLazily eval arguments with
  | case1 condition result rest ih =>
    refine hbind (heval condition) fun value _ => ?_
    split
    · exact ih
    · exact heval result
  | case2 otherwise => exact heval otherwise
  | case3 => exact hdone _

variable {call : Expr → List Expr → EvalM Expr} (hcall : ∀ target as, P (call target as))
  (hdefine : ∀ name value, P (EvalM.define name value)) (hdepth : P Extension.scopeDepth)
include hcall hdefine hdepth

/-- The standard extensions evaluate, call, bind names, and read off the depth of the chain. -/
theorem Extension.Standard.run_closed (k : Standard) (arguments : List Expr) :
    P (k.run eval call arguments) := by
  unfold run
  split
  · exact chooseLazily_closed P hdone hbind heval _
  · exact hdone _
  · exact heval _
  · refine hbind (heval _) fun value _ => ?_
    exact hbind (hdefine _ value) fun _ _ => hdone _
  · exact hdepth
  · exact hcall _ _
  · exact hdone _

theorem Host.standard_closed (hexhausted : P (outOfFuel : EvalM Expr)) (x : Extension)
    (arguments : List Expr) : P (Host.standard x eval call arguments) := by
  unfold standard
  split
  · exact Extension.Standard.run_closed P hdone hbind heval hcall hdefine hdepth _ arguments
  · exact hexhausted

end Standard

end Lisplet
