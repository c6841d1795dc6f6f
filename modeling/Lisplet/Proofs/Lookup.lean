import Lisplet.Proofs.Registration
/-!
# Evaluation sees the scopes through lookup

As long as it gets at no extension, evaluation does not tell how bindings are spread over a chain of
scopes if every name means the same: `eval_agrees`. The local scopes of two such chains may
differ all the way, but a call runs in a scope of its own and a definition binds the same name in
both, so the chains keep agreeing.
-/

namespace Lisplet

open EvalM

/-! ## A chain as one scope -/

/-- The bindings of `inner`, and those of `outer` for names that `inner` does not bind. -/
def Scope.shadowing (inner outer : Scope) : Scope :=
  ⟨inner.bindings ++ outer.bindings.filter fun b => (inner.get? b.1).isNone⟩

theorem Scope.get?_shadowing (inner outer : Scope) (name : String) :
    (inner.shadowing outer).get? name = (inner.get? name).or (outer.get? name) := by
  rw [get?, shadowing, List.lookup_append]
  cases h : inner.get? name with
  | some value =>
    rw [show inner.bindings.lookup name = some value from h, Option.some_or, Option.some_or]
  | none =>
    rw [show inner.bindings.lookup name = none from h, Option.none_or, Option.none_or]
    exact lookup_filter (p := fun n => (inner.get? n).isNone) (by simp [h]) outer.bindings

/-- A root scope with the innermost binding of each name. -/
def Env.flat (env : Env) : Env := ⟨env.outer.foldl Scope.shadowing env.innermost, []⟩

theorem Env.get?_flat (env : Env) (name : String) : env.flat.get? name = env.get? name := by
  obtain ⟨innermost, outer⟩ := env
  induction outer generalizing innermost with
  | nil => rfl
  | cons scope outer ih =>
    have hflat : flat ⟨innermost, scope :: outer⟩ = flat ⟨innermost.shadowing scope, outer⟩ := rfl
    rw [hflat, ih]
    simp only [get?, List.findSome?_cons, Scope.get?_shadowing]
    cases innermost.get? name <;> rfl

/-! ## Two states -/

/-- Every name means the same in both states, and the output so far is the same. -/
structure State.Agrees (s s' : State) : Prop where
  lookup (name : String) : s.env.get? name = s'.env.get? name
  sink : s.sink = s'.sink

theorem State.Agrees.avoids {s s' : State} (h : s.Agrees s') {names : Set String}
    (hs : s.env.Avoids names) : s'.env.Avoids names := by
  intro name value hname hv
  rw [← h.lookup] at hv
  exact hs name value hname hv

theorem State.Agrees.push {s s' : State} (h : s.Agrees s') (scope : Scope) :
    State.Agrees { s with env := s.env.push scope } { s' with env := s'.env.push scope } := by
  refine ⟨fun name => ?_, h.sink⟩
  simp only [Env.get?_push, h.lookup]

theorem State.Agrees.define {s s' : State} (h : s.Agrees s') (name : String) (value : Expr) :
    State.Agrees { s with env := s.env.define name value }
      { s' with env := s'.env.define name value } := by
  refine ⟨fun n => ?_, h.sink⟩
  simp only [Env.get?_define, h.lookup]

/-! ## Computations -/

/-- The computation only registers functions, and two states that agree it takes to the same outcome
and to states that agree. -/
structure Oblivious (names : Set String) {α : Type} (Q : α → Prop) (m : EvalM α) : Prop where
  registers : Registers names Q m
  follows {s s' : State} {outcome : Except RuntimeError α} {after : State} :
    s.env.Avoids names → s.Agrees s' → m s = some (outcome, after) →
    ∃ after', m s' = some (outcome, after') ∧ after.Agrees after'

section Oblivious

variable {names : Set String} {α β : Type} {Q : α → Prop} {R : β → Prop}

/-- A computation that has to do with nothing but the sink. -/
theorem oblivious_of_sink {m : EvalM α} (hm : Registers names Q m)
    {f : Sink → Except RuntimeError α × Sink}
    (h : ∀ s, m s = some ((f s.sink).1, { s with sink := (f s.sink).2 })) :
    Oblivious names Q m := by
  refine ⟨hm, ?_⟩
  intro s s' outcome after hs hagree hrun
  rw [h] at hrun
  cases hrun
  refine ⟨{ s' with sink := (f s'.sink).2 }, ?_, hagree.lookup, ?_⟩
  · rw [h, hagree.sink]
  · rw [hagree.sink]

theorem oblivious_done {outcome : Except RuntimeError α}
    (h : Yields Q RuntimeError.Resolved outcome) : Oblivious names Q (done outcome) :=
  oblivious_of_sink (f := fun sink => (outcome, sink)) (registers_done h) fun _ => rfl

theorem oblivious_writeValue (value : Expr) :
    Oblivious names (fun _ => True) (writeValue value) := by
  have hregisters : Registers names (fun _ => True) (writeValue value) := registers_writeValue value
  unfold writeValue at hregisters ⊢
  split
  · exact oblivious_done trivial
  · next hv =>
    rw [if_neg hv] at hregisters
    exact oblivious_of_sink hregisters
      (f := fun sink => (ofSink (sink.write _).1, (sink.write _).2)) fun _ => rfl

theorem Oblivious.bind {m : EvalM α} {f : α → EvalM β} (hm : Oblivious names Q m)
    (hf : ∀ a, Q a → Oblivious names R (f a)) : Oblivious names R (m >>= f) := by
  refine ⟨hm.registers.bind fun a ha => (hf a ha).registers, ?_⟩
  intro s s' outcome after hs hagree hrun
  rcases bind_eq_some hrun with ⟨a, mid, hfirst, hrest⟩ | ⟨e, hfirst, rfl⟩
  · obtain ⟨hmid, -, ha⟩ := hm.registers s _ mid hs hfirst
    obtain ⟨mid', hfirst', hagree'⟩ := hm.follows hs hagree hfirst
    rw [bind_of_ok hfirst']
    exact (hf a ha).follows hmid hagree' hrest
  · obtain ⟨after', hfirst', hagree'⟩ := hm.follows hs hagree hfirst
    exact ⟨after', bind_of_error hfirst' f, hagree'⟩

theorem oblivious_lookup {name : String} (hname : name ∉ names) :
    Oblivious names (Expr.Avoids names) (lookup name) := by
  refine ⟨registers_lookup hname, ?_⟩
  intro s s' outcome after hs hagree hrun
  unfold lookup at hrun ⊢
  rw [hagree.lookup] at hrun
  cases hv : s'.env.get? name with
  | some value =>
    rw [hv] at hrun
    cases hrun
    exact ⟨s', rfl, hagree⟩
  | none =>
    rw [hv] at hrun
    cases hrun
    exact ⟨s', rfl, hagree⟩

theorem oblivious_function {name : String} {parameters : List String} {body : Expr}
    (hf : (Expr.function name parameters body).Avoids names) :
    Oblivious names (Expr.Avoids names) do
      let _ ← define name (.function name parameters body)
      return .function name parameters body := by
  refine ⟨registers_function hf, ?_⟩
  intro s s' outcome after hs hagree hrun
  cases hrun
  -- What the name was bound to in the innermost scope may differ, and is thrown away.
  exact ⟨_, rfl, hagree.define name _⟩

/-- After the call both chains are what they were before it. -/
theorem Oblivious.inScope {bindings : List (String × Expr)} {body : EvalM α}
    (hv : ∀ b ∈ bindings, b.2.Avoids names) (hb : Oblivious names Q body) :
    Oblivious names Q (inScope (Scope.empty.insertAll bindings) body) := by
  refine ⟨hb.registers.inScope hv, ?_⟩
  intro s s' outcome after hs hagree hrun
  have hs' := hagree.avoids hs
  obtain ⟨inner, hinner, rfl⟩ := inScope_eq_some_iff.1 hrun
  obtain ⟨inner', hinner', hagree'⟩ := hb.follows (hs.push hv) (hagree.push _) hinner
  refine ⟨_, inScope_eq_some_iff.2 ⟨inner', hinner', rfl⟩, fun name => ?_, hagree'.sink⟩
  obtain ⟨-, hgrows, -⟩ := hb.registers _ _ _ (hs.push hv) hinner
  obtain ⟨-, hgrows', -⟩ := hb.registers _ _ _ (hs'.push hv) hinner'
  rw [hgrows.parent, hgrows'.parent]
  exact hagree.lookup name

theorem oblivious_rules (names : Set String) (host : Host) :
    Rules host (.avoiding names) (Oblivious names) where
  exhausted := ⟨(registers_rules names host).exhausted, fun _ _ hrun => by cases hrun⟩
  value hq := oblivious_done hq
  failure he := oblivious_done he
  bind := Oblivious.bind
  lookup h := oblivious_lookup (h.symbol .refl)
  register := oblivious_function
  inScope := Oblivious.inScope
  write _ := oblivious_writeValue _
  extension hx := absurd .refl (hx.extension _)

end Oblivious

/-! ## Evaluation -/

/-- An evaluation that gets at no extension comes to the same outcome and writes the same in all
environments in which each name means the same, and each name means the same in them afterwards. So
a chain of scopes may be replaced by one root scope. -/
theorem eval_agrees (host : Host) (fuel : Nat) (e : Expr) (env : Env) (sink : Sink)
    (outcome : Except RuntimeError Expr) (after : State) (he : ∀ x, ¬ env.Reaches x e)
    (hrun : evalWith host fuel e ⟨env, sink⟩ = some (outcome, after)) :
    (∀ env', (∀ name, env.get? name = env'.get? name) →
      ∃ after', evalWith host fuel e ⟨env', sink⟩ = some (outcome, after') ∧
        after'.sink = after.sink ∧ ∀ name, after.env.get? name = after'.env.get? name) ∧
    env.flat.isRoot = true ∧ (∀ name, env.flat.get? name = env.get? name) ∧
      ∃ after', evalWith host fuel e ⟨env.flat, sink⟩ = some (outcome, after') ∧
        after'.sink = after.sink ∧ after'.env.isRoot = true ∧
        ∀ name, after.env.get? name = after'.env.get? name := by
  have hoblivious := (oblivious_rules env.tainted host).eval fuel (Expr.avoids_tainted he)
  have hfollows : ∀ env', (∀ name, env.get? name = env'.get? name) →
      ∃ after', evalWith host fuel e ⟨env', sink⟩ = some (outcome, after') ∧
        after'.sink = after.sink ∧ ∀ name, after.env.get? name = after'.env.get? name := by
    intro env' hget
    have hagree : State.Agrees ⟨env, sink⟩ ⟨env', sink⟩ := ⟨hget, rfl⟩
    obtain ⟨after', hrun', hagree'⟩ := hoblivious.follows env.avoids_tainted hagree hrun
    exact ⟨after', hrun', hagree'.sink.symm, hagree'.lookup⟩
  refine ⟨hfollows, rfl, env.get?_flat, ?_⟩
  have hflat : State.Agrees ⟨env, sink⟩ ⟨env.flat, sink⟩ :=
    ⟨fun name => (env.get?_flat name).symm, rfl⟩
  obtain ⟨after', hrun', hsink, hget⟩ := hfollows env.flat hflat.lookup
  refine ⟨after', hrun', hsink, ?_, hget⟩
  obtain ⟨-, hgrows, -⟩ := hoblivious.registers _ _ _ (hflat.avoids env.avoids_tainted) hrun'
  rw [Env.isRoot, hgrows.outer]
  rfl

/-- `(batch (function show () (print x)) (show))`. -/
def showX : Expr :=
  .call (.symbol "batch")
    [.function "show" [] (.call (.symbol "print") [.symbol "x"]), .call (.symbol "show") []]

/-- A scope that binds `x` to zero, inside one that binds it to one. -/
def shadowedX : Env :=
  (Env.initial.push (Scope.empty.insertAll [("x", .number .one)])).push
    (Scope.empty.insertAll [("x", .number .zero)])

/-- The inner `x` is printed, in a deeper chain and in one scope as well, and all three know the
function afterwards. -/
theorem eval_agrees_showX : ∃ after,
    eval 9 showX ⟨shadowedX, .unlimited⟩ = some (.ok .void, after) ∧
    after.sink.written = [48, 10] ∧ (after.env.get? "show").isSome = true ∧
    (∃ after', eval 9 showX ⟨shadowedX.push .empty, .unlimited⟩ = some (.ok .void, after') ∧
      after'.sink = after.sink ∧ after.env.get? "show" = after'.env.get? "show") ∧
    ∃ after', eval 9 showX ⟨shadowedX.flat, .unlimited⟩ = some (.ok .void, after') ∧
      after'.sink = after.sink ∧ after'.env.isRoot = true ∧
      after.env.get? "show" = after'.env.get? "show" := by
  obtain ⟨after, hrun, hwritten, hshow⟩ : ∃ after,
      eval 9 showX ⟨shadowedX, .unlimited⟩ = some (.ok .void, after) ∧
        after.sink.written = [48, 10] ∧ (after.env.get? "show").isSome = true :=
    ⟨_, rfl, rfl, rfl⟩
  have hcode : showX.Avoids ∅ := Expr.avoids_of_expressible (by decide +kernel)
  have henv : shadowedX.Avoids ∅ :=
    (Env.avoids_initial.push (by simpa using Expr.avoids_number .one)).push
      (by simpa using Expr.avoids_number .zero)
  have hdeeper : ∀ name, shadowedX.get? name = (shadowedX.push .empty).get? name := by
    intro name
    rw [Env.get?_push, Scope.get?_empty, Option.none_or]
  obtain ⟨hall, -, -, after'', hflat, hsink, hroot, hget⟩ :=
    eval_agrees .empty 9 showX shadowedX .unlimited (.ok .void) after
      (henv.not_reaches hcode) hrun
  obtain ⟨after', hrun', hsink', hget'⟩ := hall _ hdeeper
  exact ⟨after, hrun, hwritten, hshow, ⟨after', hrun', hsink', hget' "show"⟩,
    after'', hflat, hsink, hroot, hget "show"⟩

end Lisplet
