import Lisplet.Proofs.Evaluation
import Lisplet.Proofs.RoundTrip
/-!
# Where values come from

Expressions are code and values at once, but in the run of a program that was read from source the
two do not mix: a value is a number, `void`, a primitive, or a function that stands in the program
word for word (`Originates`). So no extension is ever called, whatever the host has
(`runEchoing_host`), code never holds `void`, and the target of a failed call is a number or `void`:
`runSources_failures`.
-/

namespace Lisplet

open EvalM

/-! ## Parts of programs -/

/-- `a` is the expression or a part of it. -/
inductive Expr.Occurs (a : Expr) : Expr → Prop
  | refl : Occurs a a
  | callee {callee : Expr} {arguments : List Expr} :
    Occurs a callee → Occurs a (.call callee arguments)
  | argument {callee x : Expr} {arguments : List Expr} :
    x ∈ arguments → Occurs a x → Occurs a (.call callee arguments)
  | body {name : String} {parameters : List String} {body : Expr} :
    Occurs a body → Occurs a (.function name parameters body)

theorem Expr.Occurs.trans {a b c : Expr} (hab : Occurs a b) (hbc : Occurs b c) : Occurs a c := by
  induction hbc with
  | refl => exact hab
  | callee _ ih => exact .callee ih
  | argument hx _ ih => exact .argument hx ih
  | body _ ih => exact .body ih

/-- What a source text can say, it says part by part. -/
theorem Expr.Occurs.expressible {a b : Expr} (h : Occurs a b) (hb : b.expressible = true) :
    a.expressible = true := by
  induction h with
  | refl => exact hb
  | callee _ ih =>
    rw [Expr.expressible, Bool.and_eq_true, Bool.and_eq_true] at hb
    exact ih hb.1.2
  | argument hx _ ih =>
    rw [Expr.expressible, Bool.and_eq_true] at hb
    exact ih (Expr.allExpressible_iff.1 hb.2 _ hx)
  | body _ ih =>
    rw [Expr.expressible, Bool.and_eq_true] at hb
    exact ih hb.2

/-- `a` stands somewhere in the program. -/
def Expr.OccursIn (a : Expr) (program : Program) : Prop := ∃ e ∈ program, a.Occurs e

theorem Expr.Occurs.transIn {a b : Expr} {program : Program} (h : a.Occurs b)
    (hb : b.OccursIn program) : a.OccursIn program := by
  obtain ⟨e, he, hbe⟩ := hb
  exact ⟨e, he, h.trans hbe⟩

/-- The values that the run of a program can have. -/
inductive Originates (program : Program) : Expr → Prop
  | number (value : Number) : Originates program (.number value)
  | void : Originates program .void
  | primitive (p : Primitive) : Originates program (.builtIn (.primitive p))
  | function {name : String} {parameters : List String} {body : Expr} :
    (Expr.function name parameters body).OccursIn program →
    Originates program (.function name parameters body)

/-! ## Bound values -/

/-- Every value that the scope binds has `P`. -/
def Scope.All (P : Expr → Prop) (s : Scope) : Prop := ∀ b ∈ s.bindings, P b.2

/-- Every value that a scope of the chain binds has `P`. -/
def Env.All (P : Expr → Prop) (env : Env) : Prop := ∀ s ∈ env.innermost :: env.outer, s.All P

section Bound

variable {P : Expr → Prop}

theorem Scope.all_empty : Scope.empty.All P := by
  intro b hb
  cases hb

theorem Scope.All.insert {s : Scope} (h : s.All P) (name : String) {value : Expr} (hv : P value) :
    (s.insert name value).All P := by
  intro b hb
  rcases List.mem_cons.1 hb with rfl | hb
  · exact hv
  · exact h b (List.mem_filter.1 hb).1

theorem Scope.All.insertAll {s : Scope} (h : s.All P) {bindings : List (String × Expr)}
    (hb : ∀ b ∈ bindings, P b.2) : (s.insertAll bindings).All P := by
  induction bindings generalizing s with
  | nil => exact h
  | cons b bindings ih =>
    refine ih (h.insert b.1 (hb b List.mem_cons_self)) ?_
    exact fun b' hb' => hb b' (List.mem_cons_of_mem _ hb')

theorem Scope.All.get? {s : Scope} (h : s.All P) {name : String} {value : Expr}
    (hv : s.get? name = some value) : P value := by
  obtain ⟨before, rest, hb, -⟩ := List.lookup_eq_some_iff.1 hv
  exact h (name, value) (by simp [hb])

theorem Env.All.get? {env : Env} (h : env.All P) {name : String} {value : Expr}
    (hv : env.get? name = some value) : P value := by
  obtain ⟨s, hs, hsv⟩ := List.exists_of_findSome?_eq_some hv
  exact (h s hs).get? hsv

theorem Env.All.define {env : Env} (h : env.All P) (name : String) {value : Expr} (hv : P value) :
    (env.define name value).All P := by
  intro s hs
  rcases List.mem_cons.1 hs with rfl | hs
  · exact (h _ List.mem_cons_self).insert name hv
  · exact h s (List.mem_cons_of_mem _ hs)

theorem Env.All.push {env : Env} (h : env.All P) {scope : Scope} (hs : scope.All P) :
    (env.push scope).All P := by
  intro s hs'
  rcases List.mem_cons.1 hs' with rfl | hs'
  · exact hs
  · exact h s hs'

theorem Env.All.parent {env : Env} (h : env.All P) : (env.parent?.getD env).All P := by
  obtain ⟨innermost, outer⟩ := env
  cases outer with
  | nil => exact h
  | cons scope outer => exact fun s hs => h s (List.mem_cons_of_mem _ hs)

theorem Env.all_initial (h : ∀ p, P (.builtIn (.primitive p))) : Env.initial.All P := by
  intro s hs
  rcases List.mem_cons.1 hs with rfl | hs
  · refine Scope.all_empty.insertAll ?_
    intro b hb
    obtain ⟨p, -, rfl⟩ := List.mem_map.1 hb
    exact h p
  · cases hs

end Bound

/-! ## Programs read from source -/

/-- How the run of such a program can fail; output does not fail if it is to be `quiet`. -/
def Foreseen (quiet : Prop) : RuntimeError → Prop
  | .voidEvaluation | .missingArgument _ => False
  | .notCallable found => Primitive.IsNumber found ∨ found = .void
  | .output _ => ¬ quiet
  | _ => True

theorem foreseen_of_fails {p : Primitive} {e : RuntimeError} (quiet : Prop) (h : p.Fails e) :
    Foreseen quiet e := by
  rcases h with rfl | rfl | rfl | rfl <;> exact trivial

theorem originates_of_returns {program : Program} {arguments : List Expr} {value : Expr}
    (ha : ∀ a ∈ arguments, Originates program a) (h : Primitive.Returns arguments value) :
    Originates program value := by
  rcases h with ⟨n, rfl⟩ | rfl | h
  · exact .number n
  · exact .void
  · exact ha value h

/-- The code is what stands in the program. -/
def Vocabulary.ofProgram {program : Program} (hp : ∀ e ∈ program, e.expressible = true)
    (quiet : Prop) : Vocabulary where
  Code e := e.OccursIn program
  Value := Originates program
  Failure := Foreseen quiet
  code_callee h := (Expr.Occurs.callee .refl).transIn h
  code_argument h ha := (Expr.Occurs.argument ha .refl).transIn h
  code_body h := by
    cases h with
    | function h => exact (Expr.Occurs.body .refl).transIn h
  value_number _ := .number _
  value_builtIn := by
    rintro b ⟨e, he, hb⟩
    cases hb.expressible (hp e he)
  failure_void := by
    rintro ⟨e, he, hv⟩
    cases hv.expressible (hp e he)
  failure_target ht hc := by
    cases ht with
    | number n => exact .inl ⟨n, rfl⟩
    | void => exact .inr rfl
    | primitive p => cases hc
    | function h => cases hc
  failure_count _ _ _ := trivial
  yields_result hv ha := (Primitive.yields_result ha).imp
    (fun _ h => originates_of_returns hv h) fun _ h => foreseen_of_fails quiet h

/-- All that is bound comes from the program, and the sink is as it is to be. -/
structure Regular (program : Program) (quiet : Prop) (s : State) : Prop where
  bound : s.env.All (Originates program)
  sink : quiet → s.sink.NeverFails

/-- Regular states are left as regular ones, with a result that has `Q` or a failure that is
foreseen. -/
def KeepsRegular (program : Program) (quiet : Prop) {α : Type} (Q : α → Prop) (m : EvalM α) :
    Prop :=
  ∀ s outcome after, Regular program quiet s → m s = some (outcome, after) →
    Regular program quiet after ∧ Yields Q (Foreseen quiet) outcome

section Regular

variable {program : Program} {quiet : Prop} {α β : Type} {Q : α → Prop} {R : β → Prop}

theorem keepsRegular_done {outcome : Except RuntimeError α}
    (h : Yields Q (Foreseen quiet) outcome) :
    KeepsRegular program quiet Q (done outcome) := by
  intro s outcome' after hs hrun
  cases hrun
  exact ⟨hs, h⟩

theorem KeepsRegular.bind {m : EvalM α} {f : α → EvalM β} (hm : KeepsRegular program quiet Q m)
    (hf : ∀ a, Q a → KeepsRegular program quiet R (f a)) :
    KeepsRegular program quiet R (m >>= f) := by
  intro s outcome after hs hrun
  rcases bind_eq_some hrun with ⟨a, mid, hfirst, hrest⟩ | ⟨e, hfirst, rfl⟩
  · obtain ⟨hmid, ha⟩ := hm s _ mid hs hfirst
    exact hf a ha mid outcome after hmid hrest
  · exact hm s _ after hs hfirst

theorem keepsRegular_lookup (name : String) :
    KeepsRegular program quiet (Originates program) (lookup name) := by
  intro s outcome after hs hrun
  unfold lookup at hrun
  split at hrun
  · next value hv =>
    cases hrun
    exact ⟨hs, hs.bound.get? hv⟩
  · cases hrun
    exact ⟨hs, trivial⟩

theorem keepsRegular_define {value : Expr} (hv : Originates program value) (name : String) :
    KeepsRegular program quiet (fun _ => True) (define name value) := by
  intro s outcome after hs hrun
  cases hrun
  exact ⟨⟨hs.bound.define name hv, hs.sink⟩, trivial⟩

theorem KeepsRegular.inScope {bindings : List (String × Expr)} {body : EvalM α}
    (hv : ∀ b ∈ bindings, Originates program b.2) (hb : KeepsRegular program quiet Q body) :
    KeepsRegular program quiet Q (inScope (Scope.empty.insertAll bindings) body) := by
  intro s outcome after hs hrun
  obtain ⟨inner, hinner, rfl⟩ := inScope_eq_some_iff.1 hrun
  have hpush := hs.bound.push (Scope.all_empty.insertAll hv)
  obtain ⟨hafter, hq⟩ := hb ⟨_, s.sink⟩ outcome inner ⟨hpush, hs.sink⟩ hinner
  exact ⟨⟨hafter.bound.parent, hafter.sink⟩, hq⟩

theorem keepsRegular_write (bytes : List UInt8) :
    KeepsRegular program quiet (fun _ => True) (write bytes) := by
  intro s outcome after hs hrun
  cases hrun
  refine ⟨⟨hs.bound, fun hq => ?_⟩, ?_⟩
  · rw [Sink.write_of_unlimited (Sink.neverFails_iff.1 (hs.sink hq)).1]
    exact (hs.sink hq).extend bytes
  · cases hw : (s.sink.write bytes).1 with
    | ok u => exact trivial
    | error fault =>
      intro hq
      rw [(hs.sink hq).1 bytes] at hw
      cases hw

theorem keepsRegular_writeValue (value : Expr) :
    KeepsRegular program quiet (fun _ => True) (writeValue value) := by
  unfold writeValue
  split
  · exact keepsRegular_done trivial
  · exact keepsRegular_write _

theorem keepsRegular_flush : KeepsRegular program quiet (fun _ => True) flush := by
  intro s outcome after hs hrun
  cases hrun
  refine ⟨hs, ?_⟩
  cases hf : s.sink.flush with
  | ok u => exact trivial
  | error fault =>
    intro hq
    rw [(hs.sink hq).2] at hf
    cases hf

/-- An extension is no value here, so the host does not matter. -/
theorem regular_rules (host : Host) (hp : ∀ e ∈ program, e.expressible = true) (quiet : Prop) :
    Rules host (.ofProgram hp quiet) (KeepsRegular program quiet) where
  exhausted := by
    intro α Q s outcome after hs hrun
    cases hrun
  value hq := keepsRegular_done hq
  failure he := keepsRegular_done he
  bind := KeepsRegular.bind
  lookup _ := keepsRegular_lookup _
  register he := (keepsRegular_define (.function he) _).bind fun _ _ =>
    keepsRegular_done (.function he)
  inScope := KeepsRegular.inScope
  write _ := keepsRegular_writeValue _
  extension hx := by cases hx

end Regular

theorem regular_initial (program : Program) (sink : Sink) :
    Regular program sink.NeverFails ⟨.initial, sink⟩ :=
  ⟨Env.all_initial fun p => .primitive p, fun h => h⟩

/-! ## The host does not matter -/

/-- From every regular state both computations come to the same. -/
def SameRegular (program : Program) (quiet : Prop) {α : Type} (m m' : EvalM α) : Prop :=
  ∀ s, Regular program quiet s → m s = m' s

section SameRegular

variable {program : Program} {quiet : Prop} {α β : Type} {Q : α → Prop} {R : β → Prop}

/-- The first parts leave the same regular state, and from there the second parts go on. -/
theorem SameRegular.bind {m m' : EvalM α} {f f' : α → EvalM β}
    (hm : SameRegular program quiet m m') (hkeeps : KeepsRegular program quiet Q m)
    (hf : ∀ a, Q a → SameRegular program quiet (f a) (f' a)) :
    SameRegular program quiet (m >>= f) (m' >>= f') := by
  intro s hs
  rw [bind_run, bind_run, ← hm s hs]
  cases hrun : m s with
  | none => rfl
  | some r =>
    obtain ⟨_ | a, mid⟩ := r
    · rfl
    · obtain ⟨hmid, ha⟩ := hkeeps s _ mid hs hrun
      exact hf a ha mid hmid

theorem SameRegular.mapM {f f' : α → EvalM β} {xs : List α}
    (hf : ∀ x ∈ xs, SameRegular program quiet (f x) (f' x))
    (hkeeps : ∀ x ∈ xs, KeepsRegular program quiet R (f x)) :
    SameRegular program quiet (xs.mapM f) (xs.mapM f') := by
  induction xs with
  | nil => exact fun _ _ => rfl
  | cons x xs ih =>
    obtain ⟨hfirst, hrest⟩ := List.forall_mem_cons.1 hf
    obtain ⟨hfirst', hrest'⟩ := List.forall_mem_cons.1 hkeeps
    rw [List.mapM_cons, List.mapM_cons]
    refine hfirst.bind hfirst' fun y _ s hs => ?_
    rw [bind_run, bind_run, ih hrest hrest' s hs]

theorem SameRegular.inScope {bindings : List (String × Expr)} {body body' : EvalM α}
    (hv : ∀ b ∈ bindings, Originates program b.2) (hb : SameRegular program quiet body body') :
    SameRegular program quiet (inScope (Scope.empty.insertAll bindings) body)
      (inScope (Scope.empty.insertAll bindings) body') := by
  intro s hs
  have hpush := hs.bound.push (Scope.all_empty.insertAll hv)
  unfold EvalM.inScope
  rw [hb ⟨s.env.push (Scope.empty.insertAll bindings), s.sink⟩ ⟨hpush, hs.sink⟩]

variable (hp : ∀ e ∈ program, e.expressible = true) (host host' : Host)
include hp

/-- What is called comes from the program, and so it is no extension. -/
theorem sameRegular_evaluation (fuel : Nat) :
    (∀ e, e.OccursIn program →
      SameRegular program quiet (evalWith host fuel e) (evalWith host' fuel e)) ∧
    ∀ target arguments, Originates program target → (∀ a ∈ arguments, a.OccursIn program) →
      SameRegular program quiet (callWith host fuel target arguments)
        (callWith host' fuel target arguments) := by
  have rules := regular_rules host hp quiet
  induction fuel with
  | zero =>
    refine ⟨fun e _ s _ => ?_, fun target arguments _ _ s _ => ?_⟩
    · rw [evalWith, evalWith]
    · rw [callWith, callWith]
  | succ fuel ih =>
    obtain ⟨heval, hcall⟩ := ih
    refine ⟨fun e he => ?_, fun target arguments ht ha => ?_⟩
    · cases e with
      | call callee arguments =>
        have hcallee := (Expr.Occurs.callee .refl).transIn he
        refine (heval callee hcallee).bind (rules.eval fuel hcallee) fun target ht => ?_
        exact hcall target arguments ht fun a ha => (Expr.Occurs.argument ha .refl).transIn he
      | _ => exact fun _ _ => rfl
    · have hvalues : SameRegular program quiet (evalAll (evalWith host fuel) arguments)
          (evalAll (evalWith host' fuel) arguments) :=
        .mapM (fun a h => heval a (ha a h)) fun a h => rules.eval fuel (ha a h)
      have hkeeps := rules.evalEach (fun e he => rules.eval fuel he) ha
      cases ht with
      | number value => exact fun _ _ => rfl
      | void => exact fun _ _ => rfl
      | primitive p => exact hvalues.bind hkeeps fun _ _ _ _ => rfl
      | function hf =>
        have hbody := heval _ ((Expr.Occurs.body .refl).transIn hf)
        refine hvalues.bind hkeeps fun values hv => ?_
        unfold invoke
        split
        · exact fun _ _ => rfl
        · split
          · exact hbody.inScope fun b hb => hv b.2 (List.of_mem_zip hb).2
          · exact hbody

theorem sameRegular_runWith (fuel : Nat) {onResult : Expr → EvalM Unit}
    (ho : ∀ v, Originates program v → KeepsRegular program quiet (fun _ => True) (onResult v)) :
    SameRegular program quiet (runWith host fuel onResult program)
      (runWith host' fuel onResult program) := by
  have rules := regular_rules host hp quiet
  have hcode : ∀ e ∈ program, e.OccursIn program := fun e he => ⟨e, he, .refl⟩
  have hkeeps := fun e he => rules.form fuel ho (hcode e he)
  refine SameRegular.bind (.mapM (fun e he => ?_) hkeeps) (rules.mapM hkeeps) fun _ _ _ _ => rfl
  refine SameRegular.bind ?_ (rules.eval fuel (hcode e he)) fun _ _ _ _ => rfl
  exact (sameRegular_evaluation hp host host' fuel).1 e (hcode e he)

end SameRegular

/-- The run of a program that was read from source is the same with every host. -/
theorem runEchoing_host {sources : List String} {program : Program}
    (h : Reader.load sources = .ok program) (host host' : Host) (fuel : Nat) (echoing : Bool)
    (sink : Sink) :
    runEchoing host fuel echoing program ⟨.initial, sink⟩ =
      runEchoing host' fuel echoing program ⟨.initial, sink⟩ := by
  have hp := Reader.expressible_of_load h
  have rules := regular_rules host hp sink.NeverFails
  have hs := regular_initial program sink
  cases echoing with
  | true => exact sameRegular_runWith hp host host' fuel (fun _ hv => rules.echo hv) _ hs
  | false => exact sameRegular_runWith hp host host' fuel (fun _ _ => rules.value trivial) _ hs

theorem foreseen_of_runSources {fuel : Nat} {echoing : Bool} {sources : List String}
    {sink after : Sink} {e : RuntimeError}
    (h : runSources fuel echoing sources sink = some (.error (.runtime e), after)) :
    Foreseen sink.NeverFails e := by
  obtain ⟨program, s, hload, hrun⟩ := runSources_eq_runtime h
  have hp := Reader.expressible_of_load hload
  have hcode : ∀ x ∈ program, x.OccursIn program := fun x hx => ⟨x, hx, .refl⟩
  have hkeeps := (regular_rules .empty hp sink.NeverFails).runEchoing fuel echoing
    keepsRegular_flush hcode
  exact (hkeeps _ _ s (regular_initial program sink) hrun).2

/-- A run of sources never fails for want of a value or of an argument that arity promises. A call
fails for its target only if that is a number or `void`, and output fails only if the sink does. -/
theorem runSources_failures (fuel : Nat) (echoing : Bool) (sources : List String)
    (sink after : Sink) (e : RuntimeError)
    (h : runSources fuel echoing sources sink = some (.error (.runtime e), after)) :
    e ≠ .voidEvaluation ∧ (∀ function, e ≠ .missingArgument function) ∧
      (∀ found, e = .notCallable found →
        (∃ n : Number, found = .number n ∧ found.describe = "number " ++ n.text) ∨
          found = .void ∧ found.describe = "void") ∧
      (sink.NeverFails → ∀ fault, e ≠ .output fault) := by
  have hf := foreseen_of_runSources h
  refine ⟨?_, ?_, ?_, ?_⟩
  · rintro rfl
    exact hf
  · rintro function rfl
    exact hf
  · rintro found rfl
    rcases hf with ⟨n, rfl⟩ | rfl
    · exact .inl ⟨n, rfl, rfl⟩
    · exact .inr ⟨rfl, rfl⟩
  · rintro hs fault rfl
    exact hf hs

/-- `((batch) 1)`, which calls what is no function. -/
def callVoid : Expr := .call (.call (.symbol "batch") []) [.number .one]

theorem runSources_failures_callVoid :
    ∃ after, runSources 9 true ([callVoid].map Expr.text) .unlimited =
        some (.error (.runtime (.notCallable .void)), after) ∧
      Expr.void.describe = "void" ∧
      ∀ fault, RuntimeError.notCallable .void ≠ .output fault := by
  have hload : Reader.load ([callVoid].map Expr.text) = .ok [callVoid] :=
    Reader.load_text (by simp) (by decide +kernel)
  obtain ⟨s, hs⟩ : ∃ s, runEchoing .empty 9 true [callVoid] ⟨.initial, .unlimited⟩ =
      some (.error (.notCallable .void), s) := ⟨_, rfl⟩
  have hrun : runSources 9 true ([callVoid].map Expr.text) .unlimited =
      some (.error (.runtime (.notCallable .void)), s.sink) := by
    rw [runSources_of_load hload, hs]
    rfl
  obtain ⟨-, -, hfound, hout⟩ := runSources_failures _ _ _ _ _ _ hrun
  refine ⟨s.sink, hrun, ?_, hout (Sink.neverFails_iff.2 ⟨rfl, rfl⟩)⟩
  rcases hfound .void rfl with ⟨n, hn, -⟩ | ⟨-, hd⟩
  · cases hn
  · exact hd

end Lisplet
