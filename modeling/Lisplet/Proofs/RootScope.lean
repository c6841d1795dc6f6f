import Lisplet.Proofs.Registration
import Lisplet.Proofs.Tasks
/-!
# The root scope in the course of a run

In the run of a program the root scope starts with the primitives and only grows: by functions of
the program, each under its own name. Growth holds from the beginning of a task to the beginning of
each task that it starts (`Starts.grows`), and from the end of that one to its own end
(`Starts.endsIn`), so for all points of a run. A run that fails for an undefined symbol leaves it
unbound, hence the symbol is neither a primitive's name nor that of a function which was ever
registered in the root scope: `bindings_grow_by_registration`.
-/

namespace Lisplet

open EvalM

/-! ## The outermost scope -/

/-- The outermost scope of the chain. -/
def Env.rootScope (env : Env) : Scope := env.outer.getLastD env.innermost

@[simp] theorem Env.rootScope_push (env : Env) (scope : Scope) :
    (env.push scope).rootScope = env.rootScope :=
  List.getLastD_cons

theorem Env.rootScope_of_isRoot {env : Env} (h : env.isRoot = true) :
    env.rootScope = env.innermost := by
  rw [Env.rootScope, List.isEmpty_iff.1 h]
  rfl

theorem Env.rootScope_define {env : Env} (h : env.isRoot = true) (name : String) (value : Expr) :
    (env.define name value).rootScope = env.rootScope.insert name value := by
  have hdefine : (env.define name value).isRoot = true := h
  rw [Env.rootScope_of_isRoot hdefine, Env.rootScope_of_isRoot h]
  rfl

theorem Env.rootScope_parent (env : Env) : (env.parent?.getD env).rootScope = env.rootScope := by
  obtain ⟨innermost, outer⟩ := env
  cases outer with
  | nil => rfl
  | cons scope outer => exact (Env.rootScope_push ⟨scope, outer⟩ innermost).symm

theorem Env.rootScope_mem (env : Env) : env.rootScope ∈ env.innermost :: env.outer :=
  List.getLastD_mem_cons

theorem Env.get?_isSome_of_rootScope {env : Env} {name : String}
    (h : (env.rootScope.get? name).isSome) : (env.get? name).isSome := by
  rw [Env.get?, List.findSome?_isSome_iff]
  exact ⟨env.rootScope, env.rootScope_mem, h⟩

theorem Env.Grows.rootScope {before after : Env} (h : before.Grows after) :
    before.rootScope.Grows after.rootScope := by
  obtain ⟨innermost, outer⟩ := before
  obtain ⟨innermost', outer'⟩ := after
  obtain rfl : outer' = outer := h.outer
  cases outer' with
  | nil => exact h.innermost
  | cons scope outer => exact .refl _

/-! ## Where computations end -/

namespace EvalM

variable {α β : Type} {m : Nat → EvalM α} {s after : State}

/-- With enough fuel the computation ends in the state `after`, in success or failure. -/
def EndsIn (m : Nat → EvalM α) (s after : State) : Prop :=
  ∃ fuel outcome, m fuel s = some (outcome, after)

theorem endsIn_map (f : α → β) :
    EndsIn (fun fuel => do return f (← m fuel)) s after ↔ EndsIn m s after := by
  constructor
  · rintro ⟨fuel, outcome, h⟩
    rcases bind_eq_some h with ⟨a, mid, hm, hpure⟩ | ⟨e, hm, -⟩
    · cases hpure
      exact ⟨fuel, _, hm⟩
    · exact ⟨fuel, _, hm⟩
  · rintro ⟨fuel, _ | a, h⟩
    · exact ⟨fuel, _, bind_of_error h _⟩
    · exact ⟨fuel, _, bind_of_ok h _⟩

theorem EndsIn.of_succ {m' : Nat → EvalM α} (hm : Steady m)
    (hsucc : ∀ fuel, m (fuel + 1) = m' fuel) (h : EndsIn m s after) : EndsIn m' s after := by
  obtain ⟨fuel, outcome, hrun⟩ := h
  refine ⟨fuel, outcome, ?_⟩
  rw [← hsucc]
  exact hm _ _ (Nat.le_succ fuel) _ _ hrun

/-- The first part of a sequence ends, and the scopes only grow from there. -/
theorem EndsIn.first {names : Set String} {f : Nat → α → EvalM β} {Q : α → Prop} {R : β → Prop}
    (h : EndsIn (fun fuel => m fuel >>= f fuel) s after) (hs : s.env.Avoids names)
    (hm : ∀ fuel, Registers names Q (m fuel)) (hf : ∀ fuel a, Q a → Registers names R (f fuel a)) :
    ∃ mid, EndsIn m s mid ∧ mid.env.rootScope.Grows after.env.rootScope := by
  obtain ⟨fuel, outcome, hrun⟩ := h
  rcases bind_eq_some hrun with ⟨a, mid, hfirst, hrest⟩ | ⟨e, hfirst, -⟩
  · obtain ⟨hmid, -, ha⟩ := hm fuel s _ mid hs hfirst
    obtain ⟨-, hgrows, -⟩ := hf fuel a ha mid outcome after hmid hrest
    exact ⟨mid, ⟨fuel, _, hfirst⟩, hgrows.rootScope⟩
  · exact ⟨after, ⟨fuel, _, hfirst⟩, .refl _⟩

/-- After a first part that succeeds, the second part ends where the sequence does. -/
theorem EndsIn.second {f : Nat → α → EvalM β} {a : α} {mid : State}
    (h : EndsIn (fun fuel => m fuel >>= f fuel) s after) (hm : Steady m) (fuel : Nat)
    (hmid : m fuel s = some (.ok a, mid)) : EndsIn (fun fuel => f fuel a) mid after := by
  obtain ⟨fuel', outcome, hrun⟩ := h
  rcases bind_eq_some hrun with ⟨a', mid', hfirst, hrest⟩ | ⟨e, hfirst, -⟩
  · cases hm.unique hfirst hmid
    exact ⟨fuel', outcome, hrest⟩
  · cases hm.unique hfirst hmid

end EvalM

/-- The task of the point ends in this state. -/
def Point.EndsIn (p : Point) (after : State) : Prop := EvalM.EndsIn p.task.perform p.state after

/-! ### Tasks as sequences -/

section Sequences

variable {s after : State}

theorem endsIn_run {echoing : Bool} {e : Expr} {program : Program}
    (h : Point.EndsIn ⟨.run echoing (e :: program), s⟩ after) :
    EvalM.EndsIn (fun fuel => do
      let value ← eval fuel e
      report echoing value
      let results ← runEchoing .empty fuel echoing program
      return value :: results) s after := by
  simpa only [Point.EndsIn, Task.perform, runEchoing_cons] using h

theorem endsIn_evalCall {callee : Expr} {as : List Expr}
    (h : Point.EndsIn ⟨.eval (.call callee as), s⟩ after) :
    EvalM.EndsIn (fun fuel => eval fuel callee >>= fun target => call fuel target as) s after := by
  have heval : EvalM.EndsIn (fun fuel => eval fuel (.call callee as)) s after := (endsIn_map _).1 h
  exact heval.of_succ (steady_eval Host.monotone_empty _) fun fuel => by rw [evalWith]

theorem endsIn_evalAll {e : Expr} {es : List Expr}
    (h : Point.EndsIn ⟨.evalAll (e :: es), s⟩ after) :
    EvalM.EndsIn (fun fuel => do
      let value ← eval fuel e
      let values ← evalAll (eval fuel) es
      return value :: values) s after := by
  simpa only [Point.EndsIn, Task.perform, evalAll, List.mapM_cons] using h

theorem endsIn_callFunction {name : String} {parameters : List String} {body : Expr}
    {as : List Expr} (h : Point.EndsIn ⟨.call (.function name parameters body) as, s⟩ after) :
    EvalM.EndsIn (fun fuel => evalAll (eval fuel) as >>=
      invoke (eval fuel) name parameters body) s after := by
  have hcall : EvalM.EndsIn (fun fuel => call fuel (.function name parameters body) as) s after :=
    (endsIn_map _).1 h
  exact hcall.of_succ (steady_call Host.monotone_empty _ _) fun fuel => by rw [callWith]

theorem endsIn_callPrimitive {p : Primitive} {as : List Expr}
    (h : Point.EndsIn ⟨.call (.builtIn (.primitive p)) as, s⟩ after) :
    EvalM.EndsIn (fun fuel => evalAll (eval fuel) as >>=
      applyBuiltIn .empty (eval fuel) (call fuel) (.primitive p)) s after := by
  have hcall : EvalM.EndsIn (fun fuel => call fuel (.builtIn (.primitive p)) as) s after :=
    (endsIn_map _).1 h
  exact hcall.of_succ (steady_call Host.monotone_empty _ _) fun _ => rfl

end Sequences

/-! ## Growth along a run -/

section Growth

variable {program : Program}

theorem avoids_of_occursIn (hp : ∀ e ∈ program, e.expressible = true) {a : Expr}
    (h : a.OccursIn program) : a.Avoids ∅ := by
  obtain ⟨e, he, ha⟩ := h
  exact (Expr.avoids_of_expressible (hp e he)).part ha

theorem Env.All.avoids (hp : ∀ e ∈ program, e.expressible = true) {env : Env}
    (h : env.All (Originates program)) : env.Avoids ∅ :=
  fun _ _ _ hv => (h.get? hv).avoids hp

/-- Here the course of a task is seen from its own beginning. -/
theorem Starts.grows (hp : ∀ e ∈ program, e.expressible = true) {p q : Point} (hpq : Starts p q)
    (h : p.Sound program) : p.state.env.rootScope.Grows q.state.env.rootScope := by
  have rules := registers_rules ∅ .empty
  have hs := h.bound.avoids hp
  have hcode : ∀ e ∈ p.task.code, e.Avoids ∅ := fun e he => avoids_of_occursIn hp (h.code e he)
  cases hpq with
  | first | callee | argument | forFunction | forPrimitive | body => exact .refl _
  | rest hv hr =>
    obtain ⟨hmid, hgrows, hvalue⟩ := rules.eval _ (hcode _ List.mem_cons_self) _ _ _ hs hv
    obtain ⟨-, hgrows', -⟩ := rules.report hvalue _ _ _ _ hmid hr
    exact (hgrows.trans hgrows').rootScope
  | target hv =>
    have hcallee := (hcode _ List.mem_cons_self).part (.callee .refl)
    obtain ⟨-, hgrows, -⟩ := rules.eval _ hcallee _ _ _ hs hv
    exact hgrows.rootScope
  | arguments hv =>
    obtain ⟨-, hgrows, -⟩ := rules.eval _ (hcode _ List.mem_cons_self) _ _ _ hs hv
    exact hgrows.rootScope
  | invoke hv | apply hv =>
    obtain ⟨-, hgrows, -⟩ := rules.evalEach (fun e he => rules.eval _ he) hcode _ _ _ hs hv
    exact hgrows.rootScope
  | scopedBody =>
    rw [Env.rootScope_push]
    exact .refl _

theorem Passes.grows (hp : ∀ e ∈ program, e.expressible = true) {p q : Point} (hpq : Passes p q)
    (h : p.Sound program) : p.state.env.rootScope.Grows q.state.env.rootScope := by
  induction hpq with
  | refl => exact .refl _
  | tail hpass hstep ih => exact ih.trans (hstep.grows hp (Passes.sound hp hpass h))

/-- A task that ends has ended all that it started, and the root scope has only grown since. -/
theorem Starts.endsIn (hp : ∀ e ∈ program, e.expressible = true) {p q : Point} (hpq : Starts p q)
    (h : p.Sound program) {after : State} (hend : p.EndsIn after) :
    ∃ after', q.EndsIn after' ∧ after'.env.rootScope.Grows after.env.rootScope := by
  have rules := registers_rules ∅ .empty
  have hs := h.bound.avoids hp
  have hcode : ∀ e ∈ p.task.code, e.Avoids ∅ := fun e he => avoids_of_occursIn hp (h.code e he)
  have hgiven : ∀ v ∈ p.task.given, v.Avoids ∅ := fun v hv => (h.given v hv).avoids hp
  have heval : ∀ fuel e, e.Avoids ∅ → Registers ∅ (Expr.Avoids ∅) (eval fuel e) :=
    fun fuel e he => rules.eval fuel he
  have hevalAll : ∀ fuel es, (∀ e ∈ es, e.Avoids ∅) →
      Registers ∅ (fun vs => ∀ v ∈ vs, v.Avoids ∅) (evalAll (eval fuel) es) :=
    fun fuel es he => rules.evalEach (heval fuel) he
  cases hpq with
  | first =>
    obtain ⟨he, hrest⟩ := List.forall_mem_cons.1 hcode
    obtain ⟨mid, hmid, hgrows⟩ := (endsIn_run hend).first (R := fun _ => True) hs
      (fun fuel => heval fuel _ he) fun fuel value hv =>
        rules.bind (rules.report hv _) fun _ _ =>
          rules.bind (rules.runEchoing fuel _ registers_flush hrest) fun _ _ => rules.value trivial
    exact ⟨mid, (endsIn_map _).2 hmid, hgrows⟩
  | rest hv hr =>
    have hreport := (endsIn_run hend).second (steady_eval Host.monotone_empty _) _ hv
    have hrest := hreport.second (steady_const _) 0 hr
    exact ⟨after, (endsIn_map _).1 hrest, .refl _⟩
  | callee =>
    have hcall := hcode _ List.mem_cons_self
    obtain ⟨mid, hmid, hgrows⟩ := (endsIn_evalCall hend).first hs
      (fun fuel => heval fuel _ (hcall.part (.callee .refl)))
      fun fuel target ht => rules.call fuel ht fun a ha => hcall.part (.argument ha .refl)
    exact ⟨mid, (endsIn_map _).2 hmid, hgrows⟩
  | target hv =>
    have hcall := (endsIn_evalCall hend).second (steady_eval Host.monotone_empty _) _ hv
    exact ⟨after, (endsIn_map _).2 hcall, .refl _⟩
  | argument =>
    obtain ⟨he, hrest⟩ := List.forall_mem_cons.1 hcode
    obtain ⟨mid, hmid, hgrows⟩ := (endsIn_evalAll hend).first (R := fun _ => True) hs
      (fun fuel => heval fuel _ he) fun fuel value _ =>
        rules.bind (hevalAll fuel _ hrest) fun _ _ => rules.value trivial
    exact ⟨mid, (endsIn_map _).2 hmid, hgrows⟩
  | arguments hv =>
    have hrest := (endsIn_evalAll hend).second (steady_eval Host.monotone_empty _) _ hv
    exact ⟨after, (endsIn_map _).1 hrest, .refl _⟩
  | forFunction =>
    exact (endsIn_callFunction hend).first hs (fun fuel => hevalAll fuel _ hcode)
      fun fuel values hv => rules.invoke (heval fuel) (hgiven _ List.mem_cons_self) hv
  | invoke hv =>
    have hinvoke := (endsIn_callFunction hend).second (steady_evalAll Host.monotone_empty _) _ hv
    exact ⟨after, (endsIn_map _).2 hinvoke, .refl _⟩
  | forPrimitive =>
    refine (endsIn_callPrimitive hend).first (R := Expr.Avoids ∅) hs
      (fun fuel => hevalAll fuel _ hcode) fun fuel values hv => ?_
    exact rules.applyBuiltIn (heval fuel) (fun _ _ ht ha => rules.call fuel ht ha)
      (hgiven _ List.mem_cons_self) hv
  | apply hv =>
    have happly := (endsIn_callPrimitive hend).second (steady_evalAll Host.monotone_empty _) _ hv
    exact ⟨after, (endsIn_map _).2 happly, .refl _⟩
  | scopedBody hcount hb =>
    obtain ⟨fuel, outcome, hrun⟩ := (endsIn_map _).1 hend
    simp only [Lisplet.invoke, hcount, hb, ne_eq, not_true_eq_false, if_false, if_true] at hrun
    obtain ⟨inner, hinner, rfl⟩ := inScope_eq_some_iff.1 hrun
    refine ⟨inner, (endsIn_map _).2 ⟨fuel, outcome, hinner⟩, ?_⟩
    rw [Env.rootScope_parent]
    exact .refl _
  | body hcount hb =>
    obtain ⟨fuel, outcome, hrun⟩ := (endsIn_map _).1 hend
    simp only [Lisplet.invoke, hcount, hb, ne_eq, not_true_eq_false, Bool.false_eq_true,
      if_false] at hrun
    exact ⟨after, (endsIn_map _).2 ⟨fuel, outcome, hrun⟩, .refl _⟩

theorem Passes.endsIn (hp : ∀ e ∈ program, e.expressible = true) {p q : Point} (hpq : Passes p q)
    (h : p.Sound program) {after : State} (hend : p.EndsIn after) :
    ∃ after', q.EndsIn after' ∧ after'.env.rootScope.Grows after.env.rootScope := by
  induction hpq with
  | refl => exact ⟨after, hend, .refl _⟩
  | tail hpass hstep ih =>
    obtain ⟨mid, hmid, hgrows⟩ := ih
    obtain ⟨after', hafter', hgrows'⟩ := hstep.endsIn hp (Passes.sound hp hpass h) hmid
    exact ⟨after', hafter', hgrows'.trans hgrows⟩

end Growth

/-! ## What the root scope binds -/

/-- The name of each primitive is bound, and whatever is bound is a primitive or a function of the
program, under its own name. -/
structure Scope.Registered (program : Program) (scope : Scope) : Prop where
  primitives : ∀ p : Primitive, (scope.get? p.name).isSome
  bound : ∀ name value, scope.get? name = some value →
    (∃ p : Primitive, name = p.name ∧ value = .builtIn (.primitive p)) ∨
      ∃ parameters body, value = .function name parameters body ∧ value.OccursIn program

theorem Env.isSome_initial (p : Primitive) : (Env.initial.rootScope.get? p.name).isSome := by
  cases p <;> rfl

theorem Env.primitive_of_initial {name : String} {value : Expr}
    (h : Env.initial.rootScope.get? name = some value) :
    ∃ p : Primitive, name = p.name ∧ value = .builtIn (.primitive p) := by
  rcases Scope.mem_of_get?_insertAll h with hempty | hmem
  · cases hempty
  · obtain ⟨p, -, hp⟩ := List.mem_map.1 hmem
    cases hp
    exact ⟨p, rfl, rfl⟩

section Registered

variable {program : Program} {echoing : Bool} {sink : Sink}

theorem Scope.Grows.registered {scope : Scope} (hgrows : Env.initial.rootScope.Grows scope)
    (hall : scope.All (Originates program)) : scope.Registered program := by
  refine ⟨fun p => hgrows.isSome (Env.isSome_initial p), fun name value hv => ?_⟩
  rcases hgrows name with hsame | ⟨parameters, body, hfunction⟩
  · exact .inl (Env.primitive_of_initial (hsame.symm.trans hv))
  · cases hv.symm.trans hfunction
    cases hall.get? hv with
    | function h => exact .inr ⟨parameters, body, rfl, h⟩

theorem Passes.registered (hp : ∀ e ∈ program, e.expressible = true) {p : Point}
    (hpass : Passes ⟨.run echoing program, ⟨.initial, sink⟩⟩ p) :
    p.state.env.rootScope.Registered program := by
  have hrun := sound_run program echoing sink
  exact (hpass.grows hp hrun).registered ((hpass.sound hp hrun).bound _ (Env.rootScope_mem _))

theorem Passes.registered_after (hp : ∀ e ∈ program, e.expressible = true) {p : Point}
    (hpass : Passes ⟨.run echoing program, ⟨.initial, sink⟩⟩ p) {fuel : Nat}
    {outcome : Except RuntimeError (List Expr)} {after : State}
    (hperform : p.task.perform fuel p.state = some (outcome, after)) :
    after.env.rootScope.Registered program := by
  have hrun := sound_run program echoing sink
  have hsound := hpass.sound hp hrun
  have hregisters := (registers_rules ∅ .empty).perform registers_flush
    (fun e he => avoids_of_occursIn hp (hsound.code e he))
    (fun v hv => (hsound.given v hv).avoids hp) fuel
  obtain ⟨-, hgrows, -⟩ := hregisters _ _ _ (hsound.bound.avoids hp) hperform
  refine ((hpass.grows hp hrun).trans hgrows.rootScope).registered ?_
  exact (hsound.perform hp hperform).1 _ (Env.rootScope_mem _)

/-! ### Undefined symbols -/

/-- A run that fails for an undefined symbol leaves the symbol unbound. -/
theorem get?_of_undefinedSymbol (hp : ∀ e ∈ program, e.expressible = true) {fuel : Nat}
    {name : String} {after : State}
    (hrun : runEchoing .empty fuel echoing program ⟨.initial, sink⟩ =
      some (.error (.undefinedSymbol name), after)) : after.env.get? name = none := by
  have hregisters := (registers_rules ∅ .empty).runEchoing fuel echoing registers_flush
    fun e he => Expr.avoids_of_expressible (hp e he)
  obtain ⟨-, -, hyields⟩ := hregisters _ _ _ Env.avoids_initial hrun
  exact hyields name rfl

/-- The evaluation of a definition ends with the name bound in the innermost scope. -/
theorem isSome_of_endsIn {name : String} {parameters : List String} {body : Expr}
    {s after : State} (hroot : s.env.isRoot = true)
    (h : Point.EndsIn ⟨.eval (.function name parameters body), s⟩ after) :
    (after.env.rootScope.get? name).isSome := by
  obtain ⟨fuel, outcome, hrun⟩ := (endsIn_map _).1 h
  cases fuel with
  | zero => cases hrun
  | succ fuel =>
    cases hrun
    have hget : (s.env.define name (.function name parameters body)).rootScope.get? name =
        some (.function name parameters body) := by
      rw [Env.rootScope_define hroot, Scope.get?_insert, if_pos rfl]
    exact Option.isSome_of_eq_some hget

end Registered

/-- An evaluation that gets at no extension only ever binds names to functions of that name. So all
through a run of sources the root scope binds the primitives and functions of the program, each
under its own name, and a run never fails for a symbol that a primitive has or that was once defined
in the root scope. -/
theorem bindings_grow_by_registration :
    (∀ (host : Host) (fuel : Nat) (e : Expr) (s : State) (outcome : Except RuntimeError Expr)
        (after : State), (∀ x, ¬ s.env.Reaches x e) →
        evalWith host fuel e s = some (outcome, after) → ∀ name,
      (after.env.innermost.get? name = s.env.innermost.get? name ∨ ∃ parameters body,
        after.env.innermost.get? name = some (.function name parameters body)) ∧
      (s.env.bindsLocally name = true → after.env.bindsLocally name = true)) ∧
    (∀ (sources : List String) (program : Program) (echoing : Bool) (sink : Sink) (p : Point),
        Reader.load sources = .ok program →
        Passes ⟨.run echoing program, ⟨.initial, sink⟩⟩ p →
      p.state.env.rootScope.Registered program ∧
      ∀ fuel outcome after, p.task.perform fuel p.state = some (outcome, after) →
        after.env.rootScope.Registered program) ∧
    ∀ (fuel : Nat) (echoing : Bool) (sources : List String) (sink after : Sink) (name : String),
        runSources fuel echoing sources sink =
          some (.error (.runtime (.undefinedSymbol name)), after) →
      (∀ p : Primitive, p.name ≠ name) ∧
      ∃ program, Reader.load sources = .ok program ∧ ∀ parameters body s,
        Passes ⟨.run echoing program, ⟨.initial, sink⟩⟩
          ⟨.eval (.function name parameters body), s⟩ → s.env.isRoot = false := by
  refine ⟨?_, ?_, ?_⟩
  · intro host fuel e s outcome after he hrun name
    have hregisters := (registers_rules s.env.tainted host).eval fuel (Expr.avoids_tainted he)
    obtain ⟨-, hgrows, -⟩ := hregisters _ _ _ s.env.avoids_tainted hrun
    exact ⟨hgrows.innermost name, hgrows.innermost.isSome⟩
  · intro sources program echoing sink p hload hpass
    have hp := Reader.expressible_of_load hload
    exact ⟨hpass.registered hp, fun _ _ _ hperform => hpass.registered_after hp hperform⟩
  · intro fuel echoing sources sink after name h
    obtain ⟨program, final, hload, hrun⟩ := runSources_eq_runtime h
    have hp := Reader.expressible_of_load hload
    have hend : Point.EndsIn ⟨.run echoing program, ⟨.initial, sink⟩⟩ final := ⟨fuel, _, hrun⟩
    have hnone : ¬ (final.env.rootScope.get? name).isSome := by
      intro hsome
      have hget := Env.get?_isSome_of_rootScope hsome
      rw [get?_of_undefinedSymbol hp hrun] at hget
      cases hget
    refine ⟨?_, program, hload, ?_⟩
    · rintro p rfl
      exact hnone ((Passes.registered_after hp .refl hrun).primitives p)
    · intro parameters body s hpass
      obtain ⟨after', hafter', hgrows⟩ := hpass.endsIn hp (sound_run program echoing sink) hend
      rw [Bool.eq_false_iff]
      intro hroot
      exact hnone (hgrows.isSome (isSome_of_endsIn hroot hafter'))

/-- `(function helper () 1)`. -/
def helper : Expr := .function "helper" [] (.number .one)

/-- `(function hide () (batch (function helper () 1)))`. -/
def hideHelper : Expr := .function "hide" [] (.call (.symbol "batch") [helper])

/-- Defines `helper` in the scope of a call, and calls it outside. -/
def lostHelper : Program :=
  [hideHelper, .call (.symbol "hide") [], .call (.symbol "helper") []]

/-- The definition is evaluated, but not in the root scope, and so the run may fail for its name. -/
theorem bindings_grow_by_registration_lostHelper :
    Reader.load (lostHelper.map Expr.text) = .ok lostHelper ∧
    (∃ after, runSources 9 true (lostHelper.map Expr.text) .unlimited =
      some (.error (.runtime (.undefinedSymbol "helper")), after)) ∧
    (∀ p : Primitive, p.name ≠ "helper") ∧
    ∃ s, Passes ⟨.run true lostHelper, ⟨.initial, .unlimited⟩⟩ ⟨.eval helper, s⟩ ∧
      s.env.isRoot = false ∧ s.env.rootScope.Registered lostHelper ∧
      ∃ after, eval 1 helper s = some (.ok helper, after) ∧
        after.env.rootScope.Registered lostHelper ∧ ∀ name,
          after.env.innermost.get? name = s.env.innermost.get? name ∨ ∃ parameters body,
            after.env.innermost.get? name = some (.function name parameters body) := by
  have hload : Reader.load (lostHelper.map Expr.text) = .ok lostHelper :=
    Reader.load_text (by simp [lostHelper]) (by decide +kernel)
  obtain ⟨final, hfinal⟩ : ∃ final, runEchoing .empty 9 true lostHelper ⟨.initial, .unlimited⟩ =
      some (.error (.undefinedSymbol "helper"), final) := ⟨_, rfl⟩
  have hrun : runSources 9 true (lostHelper.map Expr.text) .unlimited =
      some (.error (.runtime (.undefinedSymbol "helper")), final.sink) := by
    rw [runSources_of_load hload, hfinal]
    rfl
  let s : State := ⟨Env.initial.define "hide" hideHelper, .unlimited⟩
  let inner : State := { s with env := s.env.push .empty }
  have hdefine : eval 1 hideHelper ⟨.initial, .unlimited⟩ = some (.ok hideHelper, s) := rfl
  have htarget : eval 1 (.symbol "hide") s = some (.ok hideHelper, s) := rfl
  have hargs : evalAll (eval 1) [] s = some (.ok [], s) := rfl
  have hbatch : eval 1 (.symbol "batch") inner = some (.ok (.builtIn (.primitive .batch)), inner) :=
    rfl
  have hpass : Passes ⟨.run true lostHelper, ⟨.initial, .unlimited⟩⟩ ⟨.eval helper, inner⟩ := by
    refine Relation.ReflTransGen.head (.rest hdefine rfl) ?_
    refine Relation.ReflTransGen.head .first ?_
    refine Relation.ReflTransGen.head (.target htarget) ?_
    refine Relation.ReflTransGen.head (.invoke hargs) ?_
    refine Relation.ReflTransGen.head (.scopedBody rfl rfl) ?_
    refine Relation.ReflTransGen.head (.target hbatch) ?_
    refine Relation.ReflTransGen.head .forPrimitive ?_
    exact Relation.ReflTransGen.single .argument
  obtain ⟨hgrows, hregistered, hundefined⟩ := bindings_grow_by_registration
  obtain ⟨hbefore, hafter⟩ := hregistered _ _ _ _ _ hload hpass
  obtain ⟨hprimitive, program, hload', hroot⟩ := hundefined _ _ _ _ _ _ hrun
  cases hload.symm.trans hload'
  have hhelper : helper.Avoids ∅ := Expr.avoids_of_expressible (by decide +kernel)
  have hhide : hideHelper.Avoids ∅ := Expr.avoids_of_expressible (by decide +kernel)
  have hinner : inner.env.Avoids ∅ :=
    (Env.avoids_initial.define fun _ => hhide).push (List.forall_mem_nil _)
  refine ⟨hload, ⟨_, hrun⟩, hprimitive, inner, hpass, hroot _ _ _ hpass, hbefore, _, rfl,
    hafter 1 _ _ rfl, fun name => ?_⟩
  exact (hgrows .empty 1 helper inner _ _ (hinner.not_reaches hhelper) rfl name).1

end Lisplet
