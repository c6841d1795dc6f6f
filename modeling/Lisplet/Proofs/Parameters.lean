import Lisplet.Eval
/-!
# Parameters in scope

A function whose body is a call starts it in a new scope that binds the parameters, inside the chain
of the caller. Of parameters with one name the last counts, and every other name means what it means
to the caller: `invoke_binds_parameters`.
-/

namespace Lisplet

/-! ## The new scope -/

/-- `i` is the last index at which `name` stands. -/
def IsLastIndex (names : List String) (name : String) (i : Nat) : Prop :=
  names[i]? = some name ∧ ∀ j, i < j → names[j]? ≠ some name

theorem isLastIndex_append {name : String} {after : List String} (h : name ∉ after)
    (before : List String) : IsLastIndex (before ++ name :: after) name before.length := by
  refine ⟨by simp, fun j hj hname => h ?_⟩
  obtain ⟨k, rfl⟩ := Nat.exists_eq_add_of_lt hj
  rw [List.getElem?_append_right (by omega)] at hname
  have hk : before.length + k + 1 - before.length = k + 1 := by omega
  rw [hk, List.getElem?_cons_succ] at hname
  exact List.mem_of_getElem? hname

theorem exists_append_of_mem {names : List String} {name : String} (h : name ∈ names) :
    ∃ before after, names = before ++ name :: after ∧ name ∉ after := by
  obtain ⟨after, before, hreverse, hlast⟩ := List.eq_append_cons_of_mem (List.mem_reverse.2 h)
  refine ⟨before.reverse, after.reverse, ?_, by simpa using hlast⟩
  simpa using congrArg List.reverse hreverse

namespace Scope

variable {parameters : List String} {arguments : List Expr} {name : String}

/-- The scope in which the body of a function starts. -/
def ofParameters (parameters : List String) (arguments : List Expr) : Scope :=
  empty.insertAll (parameters.zip arguments)

theorem get?_ofParameters_of_not_mem (h : name ∉ parameters) :
    (ofParameters parameters arguments).get? name = none := by
  rw [ofParameters, get?_insertAll_of_not_mem, get?_empty]
  rintro b hb rfl
  exact h (List.of_mem_zip hb).1

theorem get?_ofParameters (hcount : arguments.length = parameters.length) (h : name ∈ parameters) :
    ∃ i value, IsLastIndex parameters name i ∧ arguments[i]? = some value ∧
      (ofParameters parameters arguments).get? name = some value := by
  obtain ⟨before, after, rfl, hlast⟩ := exists_append_of_mem h
  have hlt : before.length < arguments.length := by simp [hcount]
  have hzip : (before ++ name :: after).zip arguments =
      before.zip (arguments.take before.length) ++ (name, arguments[before.length]) ::
        after.zip (arguments.drop (before.length + 1)) := by
    conv => lhs; rw [← List.take_append_drop before.length arguments]
    rw [List.zip_append (by simp; omega), List.drop_eq_getElem_cons hlt, List.zip_cons_cons]
  refine ⟨_, arguments[before.length], isLastIndex_append hlast before, by simp, ?_⟩
  rw [ofParameters, hzip]
  apply get?_insertAll_of_last
  rintro b hb rfl
  exact hlast (List.of_mem_zip hb).1

theorem isSome_get?_ofParameters (hcount : arguments.length = parameters.length) :
    ((ofParameters parameters arguments).get? name).isSome = true ↔ name ∈ parameters := by
  constructor
  · intro h
    apply Decidable.of_not_not
    intro hname
    rw [get?_ofParameters_of_not_mem hname] at h
    cases h
  · intro h
    obtain ⟨i, value, -, -, hvalue⟩ := get?_ofParameters hcount h
    rw [hvalue]
    rfl

end Scope

/-! ## The call -/

theorem invoke_of_isCall {body : Expr} (hbody : body.isCall = true) {parameters : List String}
    {arguments : List Expr} (hcount : arguments.length = parameters.length)
    (eval : Expr → EvalM Expr) (name : String) :
    invoke eval name parameters body arguments =
      EvalM.inScope (.ofParameters parameters arguments) (eval body) := by
  unfold invoke
  rw [if_neg fun h => h hcount, if_pos hbody]
  rfl

/-- There is an environment in which the body starts, whatever evaluates it. A name that is a
parameter means the argument in its last place there. Any other name means what it means to the
caller, and it means nothing only if no scope of the caller's chain binds it. -/
theorem invoke_binds_parameters (name : String) (parameters : List String) (body : Expr)
    (arguments : List Expr) (s : State) (hbody : body.isCall = true)
    (hcount : arguments.length = parameters.length) :
    ∃ inner : Env,
      (∀ eval outcome after,
        invoke eval name parameters body arguments s = some (outcome, after) ↔
          ∃ last, eval body { s with env := inner } = some (outcome, last) ∧
            after = { last with env := last.env.parent?.getD last.env }) ∧
      (∀ n ∈ parameters, ∃ i value, IsLastIndex parameters n i ∧ arguments[i]? = some value ∧
        inner.get? n = some value) ∧
      (∀ n, n ∉ parameters → inner.get? n = s.env.get? n ∧
        (inner.get? n = none ↔
          ∀ scope ∈ s.env.innermost :: s.env.outer, scope.get? n = none)) ∧
      inner.depth = s.env.depth + 1 ∧
      ∀ n, inner.bindsLocally n = true ↔ n ∈ parameters := by
  refine ⟨s.env.push (.ofParameters parameters arguments), ?_, ?_, ?_, ?_, ?_⟩
  · intro eval outcome after
    rw [invoke_of_isCall hbody hcount]
    exact EvalM.inScope_eq_some_iff
  · intro n hn
    obtain ⟨i, value, hlast, hvalue, hget⟩ := Scope.get?_ofParameters hcount hn
    exact ⟨i, value, hlast, hvalue, by rw [Env.get?_push, hget]; rfl⟩
  · intro n hn
    have hget : (s.env.push (.ofParameters parameters arguments)).get? n = s.env.get? n := by
      rw [Env.get?_push, Scope.get?_ofParameters_of_not_mem hn]
      rfl
    exact ⟨hget, by rw [hget, Env.get?_eq_none_iff]⟩
  · exact Env.depth_push _ _
  · intro n
    exact Scope.isSome_get?_ofParameters hcount

/-- A function with the parameters `x`, `y` and `x` again is called with 0, `void` and 1 in a scope
that binds `z`. -/
theorem invoke_binds_parameters_repeated :
    ∃ inner : Env, inner.get? "x" = some (.number .one) ∧ inner.get? "z" = some (.number .zero) ∧
      inner.get? "add" = some (.builtIn (.primitive .add)) ∧ inner.get? "w" = none ∧
      inner.depth = 2 ∧ inner.bindsLocally "x" = true := by
  let s : State := ⟨Env.initial.push (Scope.empty.insert "z" (.number .zero)), .unlimited⟩
  obtain ⟨inner, -, hparameter, hother, hdepth, hlocal⟩ :=
    invoke_binds_parameters "f" ["x", "y", "x"] (.call (.symbol "add") [.symbol "x"])
      [.number .zero, .void, .number .one] s rfl rfl
  refine ⟨inner, ?_, (hother "z" (by simp)).1, (hother "add" (by simp)).1,
    (hother "w" (by simp)).1, hdepth, (hlocal "x").2 (by simp)⟩
  obtain ⟨i, value, ⟨hi, hlast⟩, hvalue, hget⟩ := hparameter "x" (by simp)
  match i with
  | 0 | 1 => exact absurd rfl (hlast 2 (by omega))
  | 2 => rw [hget, ← hvalue]; rfl
  | i + 3 => cases hi

end Lisplet
