import Lisplet.Proofs.Provenance
import Mathlib.Data.Set.Defs
/-!
# What evaluation does to the scopes

As long as it gets at no extension, evaluation does one thing to a chain of scopes: it registers
functions in the innermost scope, each under its own name (`Env.Grows`). So no name loses its
binding, and an evaluation fails for an undefined symbol only if nothing binds the symbol even
afterwards. `Registers` puts this together into one judgement, and `registers_rules` proves it for
every evaluation and every run.
-/

namespace Lisplet

open EvalM

/-! ## Only primitives -/

/-- The extension stands in the expression, or the expression leads to it by what its symbols
mean. -/
inductive Env.Reaches (env : Env) (x : Extension) : Expr → Prop
  | here {e : Expr} : (Expr.builtIn (.extension x)).Occurs e → Reaches env x e
  | symbol {e value : Expr} {name : String} :
    (Expr.symbol name).Occurs e → env.get? name = some value → Reaches env x value →
    Reaches env x e

/-- Neither an extension nor one of the names stands in the expression. -/
structure Expr.Avoids (names : Set String) (e : Expr) : Prop where
  extension (x : Extension) : ¬ (Expr.builtIn (.extension x)).Occurs e
  symbol {name : String} : (Expr.symbol name).Occurs e → name ∉ names

/-- Nor does one in what the other names mean. -/
def Env.Avoids (names : Set String) (env : Env) : Prop :=
  ∀ name value, name ∉ names → env.get? name = some value → value.Avoids names

/-- The names that lead to an extension. -/
def Env.tainted (env : Env) : Set String :=
  { name | ∃ value x, env.get? name = some value ∧ env.Reaches x value }

section Avoids

variable {names : Set String}

theorem Expr.avoids_tainted {env : Env} {e : Expr} (h : ∀ x, ¬ env.Reaches x e) :
    e.Avoids env.tainted := by
  refine ⟨fun x hx => h x (.here hx), ?_⟩
  rintro name hname ⟨value, x, hv, hx⟩
  exact h x (.symbol hname hv hx)

theorem Env.avoids_tainted (env : Env) : env.Avoids env.tainted := by
  intro name value hname hv
  exact Expr.avoids_tainted fun x hx => hname ⟨value, x, hv, hx⟩

/-- To avoid some names that include all that lead to extensions is enough. -/
theorem Env.Avoids.not_reaches {env : Env} (henv : env.Avoids names) {e : Expr}
    (he : e.Avoids names) (x : Extension) : ¬ env.Reaches x e := by
  intro hx
  induction hx with
  | here hx => exact he.extension x hx
  | symbol hname hv _ ih => exact ih (henv _ _ (he.symbol hname) hv)

theorem Expr.Avoids.part {a b : Expr} (hb : b.Avoids names) (h : a.Occurs b) : a.Avoids names :=
  ⟨fun x hx => hb.extension x (hx.trans h), fun hn => hb.symbol (hn.trans h)⟩

theorem Expr.avoids_of_expressible {e : Expr} (h : e.expressible = true) : e.Avoids ∅ := by
  refine ⟨fun x hx => ?_, fun _ => id⟩
  cases hx.expressible h

theorem Expr.avoids_number (n : Number) : (Expr.number n).Avoids names := ⟨nofun, nofun⟩

theorem Expr.avoids_primitive (p : Primitive) : (Expr.builtIn (.primitive p)).Avoids names :=
  ⟨nofun, nofun⟩

theorem Expr.avoids_void : Expr.void.Avoids names := ⟨nofun, nofun⟩

theorem Primitive.Returns.avoids {arguments : List Expr} {value : Expr}
    (h : Returns arguments value) (ha : ∀ a ∈ arguments, a.Avoids names) : value.Avoids names := by
  rcases h with ⟨n, rfl⟩ | rfl | h
  · exact Expr.avoids_number n
  · exact Expr.avoids_void
  · exact ha value h

theorem Originates.avoids {program : Program} {value : Expr}
    (hp : ∀ e ∈ program, e.expressible = true) (h : Originates program value) :
    value.Avoids ∅ := by
  cases h with
  | number n => exact Expr.avoids_number n
  | void => exact Expr.avoids_void
  | primitive p => exact Expr.avoids_primitive p
  | function hf =>
    obtain ⟨e, he, hf⟩ := hf
    exact (Expr.avoids_of_expressible (hp e he)).part hf

theorem Env.avoids_initial : Env.initial.Avoids names :=
  fun _ _ _ hv => (Env.all_initial Expr.avoids_primitive).get? hv

theorem Env.Avoids.define {env : Env} (h : env.Avoids names) {name : String} {value : Expr}
    (hv : name ∉ names → value.Avoids names) : (env.define name value).Avoids names := by
  intro n v hn hget
  rw [Env.get?_define] at hget
  split at hget
  · next hname =>
    cases hget
    exact hv (hname ▸ hn)
  · exact h n v hn hget

theorem Env.Avoids.push {env : Env} (h : env.Avoids names) {bindings : List (String × Expr)}
    (hb : ∀ b ∈ bindings, b.2.Avoids names) :
    (env.push (Scope.empty.insertAll bindings)).Avoids names := by
  intro n v hn hget
  rw [Env.get?_push, Option.or_eq_some_iff] at hget
  rcases hget with hget | ⟨-, hget⟩
  · rcases Scope.mem_of_get?_insertAll hget with hempty | hmem
    · cases hempty
    · exact hb _ hmem
  · exact h n v hn hget

end Avoids

/-- The failure is not for want of a binding. -/
def RuntimeError.Resolved (e : RuntimeError) : Prop := ∀ name, e ≠ .undefinedSymbol name

/-- What avoids the names is code and value, and no primitive fails for an undefined symbol. -/
def Vocabulary.avoiding (names : Set String) : Vocabulary where
  Code := Expr.Avoids names
  Value := Expr.Avoids names
  Failure := RuntimeError.Resolved
  code_callee h := h.part (.callee .refl)
  code_argument h ha := h.part (.argument ha .refl)
  code_body h := h.part (.body .refl)
  value_number h := h
  value_builtIn h := h
  failure_void _ _ := nofun
  failure_target _ _ _ := nofun
  failure_count _ _ _ _ := nofun
  yields_result hv ha := (Primitive.yields_result ha).imp (fun _ h => h.avoids hv) fun e he => by
    intro name
    rcases he with rfl | rfl | rfl | rfl <;> exact nofun

/-! ## Growth -/

/-- Each name is bound as before, or to a function of that name. -/
def Scope.Grows (before after : Scope) : Prop :=
  ∀ name, after.get? name = before.get? name ∨
    ∃ parameters body, after.get? name = some (.function name parameters body)

theorem Scope.Grows.refl (s : Scope) : s.Grows s := fun _ => .inl rfl

theorem Scope.Grows.trans {a b c : Scope} (hab : a.Grows b) (hbc : b.Grows c) : a.Grows c := by
  intro name
  rcases hbc name with hc | hc
  · rw [hc]
    exact hab name
  · exact .inr hc

theorem Scope.Grows.isSome {before after : Scope} (h : before.Grows after) {name : String}
    (hb : (before.get? name).isSome) : (after.get? name).isSome := by
  rcases h name with ha | ⟨parameters, body, ha⟩
  · rw [ha]
    exact hb
  · rw [ha]
    rfl

/-- The innermost scope grows and the scopes around it stay as they are. -/
structure Env.Grows (before after : Env) : Prop where
  innermost : before.innermost.Grows after.innermost
  outer : after.outer = before.outer

theorem Env.Grows.refl (env : Env) : env.Grows env := ⟨.refl _, rfl⟩

theorem Env.Grows.trans {a b c : Env} (hab : a.Grows b) (hbc : b.Grows c) : a.Grows c :=
  ⟨hab.innermost.trans hbc.innermost, hbc.outer.trans hab.outer⟩

theorem Env.grows_define (env : Env) (name : String) (parameters : List String) (body : Expr) :
    env.Grows (env.define name (.function name parameters body)) := by
  refine ⟨fun n => ?_, rfl⟩
  rw [Env.define, Scope.get?_insert]
  by_cases hn : n = name
  · rw [if_pos hn, hn]
    exact .inr ⟨parameters, body, rfl⟩
  · rw [if_neg hn]
    exact .inl rfl

/-- What has grown inside a new scope is the same chain with another innermost scope. -/
theorem Env.Grows.eq_push {env inner : Env} {scope : Scope} (h : (env.push scope).Grows inner) :
    inner = env.push inner.innermost := by
  obtain ⟨innermost, outer⟩ := inner
  have houter : outer = env.innermost :: env.outer := h.outer
  rw [houter]
  rfl

theorem Env.Grows.parent {env inner : Env} {scope : Scope} (h : (env.push scope).Grows inner) :
    inner.parent?.getD inner = env := by
  rw [h.eq_push, Env.parent?_push]
  rfl

/-! ## Computations -/

/-- In an environment that avoids the names the computation only registers functions. Its result has
`Q`, and if it fails for an undefined symbol, nothing binds the symbol. -/
def Registers (names : Set String) {α : Type} (Q : α → Prop) (m : EvalM α) : Prop :=
  ∀ s outcome after, s.env.Avoids names → m s = some (outcome, after) →
    after.env.Avoids names ∧ s.env.Grows after.env ∧
      Yields Q (fun e => ∀ name, e = .undefinedSymbol name → after.env.get? name = none) outcome

section Registers

variable {names : Set String} {α β : Type} {Q : α → Prop} {R : β → Prop}

/-- A computation that leaves the environment alone and fails for another reason. -/
theorem registers_of_env {m : EvalM α}
    (henv : ∀ s outcome after, m s = some (outcome, after) → after.env = s.env)
    (hyields : ∀ s outcome after, m s = some (outcome, after) →
      Yields Q RuntimeError.Resolved outcome) : Registers names Q m := by
  intro s outcome after hs hrun
  rw [henv s outcome after hrun]
  refine ⟨hs, .refl _, (hyields s outcome after hrun).imp (fun _ hq => hq) ?_⟩
  intro e he name h
  exact absurd h (he name)

theorem registers_done {outcome : Except RuntimeError α}
    (h : Yields Q RuntimeError.Resolved outcome) : Registers names Q (done outcome) := by
  refine registers_of_env ?_ ?_
  · intro s outcome' after hrun
    cases hrun
    rfl
  · intro s outcome' after hrun
    cases hrun
    exact h

theorem Registers.bind {m : EvalM α} {f : α → EvalM β} (hm : Registers names Q m)
    (hf : ∀ a, Q a → Registers names R (f a)) : Registers names R (m >>= f) := by
  intro s outcome after hs hrun
  rcases bind_eq_some hrun with ⟨a, mid, hfirst, hrest⟩ | ⟨e, hfirst, rfl⟩
  · obtain ⟨hmid, hgrows, ha⟩ := hm s _ mid hs hfirst
    obtain ⟨hafter, hgrows', hyields⟩ := hf a ha mid outcome after hmid hrest
    exact ⟨hafter, hgrows.trans hgrows', hyields⟩
  · exact hm s _ after hs hfirst

theorem registers_lookup {name : String} (hname : name ∉ names) :
    Registers names (Expr.Avoids names) (lookup name) := by
  intro s outcome after hs hrun
  unfold lookup at hrun
  split at hrun
  · next value hv =>
    cases hrun
    exact ⟨hs, .refl _, hs name value hname hv⟩
  · next hnone =>
    cases hrun
    refine ⟨hs, .refl _, ?_⟩
    rintro n h
    cases h
    exact hnone

theorem registers_function {name : String} {parameters : List String} {body : Expr}
    (hf : (Expr.function name parameters body).Avoids names) :
    Registers names (Expr.Avoids names) do
      let _ ← define name (.function name parameters body)
      return .function name parameters body := by
  intro s outcome after hs hrun
  cases hrun
  exact ⟨hs.define fun _ => hf, s.env.grows_define name parameters body, hf⟩

theorem Registers.inScope {bindings : List (String × Expr)} {body : EvalM α}
    (hv : ∀ b ∈ bindings, b.2.Avoids names) (hb : Registers names Q body) :
    Registers names Q (inScope (Scope.empty.insertAll bindings) body) := by
  intro s outcome after hs hrun
  obtain ⟨inner, hinner, rfl⟩ := inScope_eq_some_iff.1 hrun
  obtain ⟨-, hgrows, hyields⟩ := hb _ outcome inner (hs.push hv) hinner
  rw [hgrows.parent]
  refine ⟨hs, .refl _, hyields.imp (fun _ hq => hq) ?_⟩
  -- What the scope inside does not bind, the chain around it does not bind either.
  intro e he name h
  have hnone := he name h
  rw [hgrows.eq_push, Env.get?_push, Option.or_eq_none_iff] at hnone
  exact hnone.2

theorem yields_ofSink (result : Except Sink.Fault Unit) :
    Yields (fun _ => True) RuntimeError.Resolved (ofSink result) := by
  cases result with
  | ok u => exact trivial
  | error fault => exact fun name => nofun

theorem registers_writeValue (value : Expr) :
    Registers names (fun _ => True) (writeValue value) := by
  unfold writeValue
  split
  · exact registers_done trivial
  · refine registers_of_env ?_ ?_
    · intro s outcome after hrun
      cases hrun
      rfl
    · intro s outcome after hrun
      cases hrun
      exact yields_ofSink _

theorem registers_flush : Registers names (fun _ => True) flush := by
  refine registers_of_env ?_ ?_
  · intro s outcome after hrun
    cases hrun
    rfl
  · intro s outcome after hrun
    cases hrun
    exact yields_ofSink _

/-- An extension is no value here, so the host does not matter. -/
theorem registers_rules (names : Set String) (host : Host) :
    Rules host (.avoiding names) (Registers names) where
  exhausted := by
    intro α Q s outcome after hs hrun
    cases hrun
  value hq := registers_done hq
  failure he := registers_done he
  bind := Registers.bind
  lookup h := registers_lookup (h.symbol .refl)
  register := registers_function
  inScope := Registers.inScope
  write _ := registers_writeValue _
  extension hx := absurd .refl (hx.extension _)

end Registers

end Lisplet
