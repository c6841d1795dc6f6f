import Lisplet.Proofs.Fuel
/-!
# Choosing between branches

`if` evaluates all its arguments in order and only then chooses among their values, so an `if` in
the last place of another one may as well be written out there: the arguments are evaluated in the
same order, and the same value is chosen (`eval_flat`). Which one is chosen is settled by the first
condition other than zero (`branch_paired`).
-/

namespace Lisplet

open EvalM

/-! ## Values -/

namespace Choice

/-- Conditions with their results, and what stands after the last pair. -/
def paired (pairs : List (Expr × Expr)) (otherwise : Option Expr) : List Expr :=
  pairs.flatMap (fun (condition, result) => [condition, result]) ++ otherwise.toList

theorem exists_paired (arguments : List Expr) :
    ∃ pairs otherwise, arguments = paired pairs otherwise := by
  fun_induction branch arguments with
  | case1 condition result rest ih =>
    obtain ⟨pairs, otherwise, rfl⟩ := ih
    exact ⟨(condition, result) :: pairs, otherwise, rfl⟩
  | case2 otherwise => exact ⟨[], some otherwise, rfl⟩
  | case3 => exact ⟨[], none, rfl⟩

theorem branch_of_zero (result : Expr) (rest : List Expr) :
    branch (.number .zero :: result :: rest) = branch rest := by
  rw [branch]
  rfl

/-- A condition other than zero settles the matter, whatever comes after its result. -/
theorem branch_of_ne_zero {condition : Expr} (h : condition ≠ .number .zero) (result : Expr)
    (rest : List Expr) :
    branch (condition :: result :: rest) = match condition with
      | .number _ => .ok result
      | _ => .error (.argumentType "if") := by
  rw [branch]
  cases condition with
  | number n =>
    have htrue : n.isTrue = true := by
      have hval : n.val ≠ 0 := fun hzero => h (congrArg Expr.number (Number.ext hzero))
      simpa [Number.isTrue] using hval
    exact if_pos htrue
  | _ => rfl

theorem branch_paired (pairs : List (Expr × Expr)) (otherwise : Option Expr) :
    branch (paired pairs otherwise) =
      match pairs.find? fun (condition, _) => condition ≠ .number .zero with
      | some (.number _, result) => .ok result
      | some _ => .error (.argumentType "if")
      | none => .ok (otherwise.getD .void) := by
  induction pairs with
  | nil => cases otherwise <;> rfl
  | cons pair pairs ih =>
    obtain ⟨condition, result⟩ := pair
    change branch (condition :: result :: paired pairs otherwise) = _
    by_cases h : condition = .number .zero
    · rw [h, branch_of_zero, ih, List.find?_cons_of_neg (by simp)]
    · rw [branch_of_ne_zero h, List.find?_cons_of_pos (by simpa using h)]
      cases condition <;> rfl

theorem branch_of_zeros {pairs : List (Expr × Expr)} (h : ∀ p ∈ pairs, p.1 = .number .zero)
    (rest : List Expr) : branch (paired pairs none ++ rest) = branch rest := by
  induction pairs with
  | nil => rfl
  | cons pair pairs ih =>
    obtain ⟨condition, result⟩ := pair
    obtain ⟨rfl, hpairs⟩ := List.forall_mem_cons.1 h
    exact (branch_of_zero result _).trans (ih hpairs)

/-- What the last argument was chosen from may stand in its place. -/
theorem branch_flat {condition result value chosen : Expr} {values : List Expr}
    (hlast : branch values = .ok value) (h : branch [condition, result, value] = .ok chosen) :
    branch (condition :: result :: values) = .ok chosen := by
  by_cases hzero : condition = .number .zero
  · rw [hzero, branch_of_zero] at h ⊢
    exact hlast.trans h
  · rw [branch_of_ne_zero hzero] at h ⊢
    exact h

end Choice

/-! ## Evaluation -/

section Evaluation

variable {host : Host} {fuel : Nat} {s after : State}

theorem evalAll_cons_eq_ok_iff {eval : Expr → EvalM Expr} {e : Expr} {es values : List Expr} :
    evalAll eval (e :: es) s = some (.ok values, after) ↔
      ∃ value mid rest, eval e s = some (.ok value, mid) ∧
        evalAll eval es mid = some (.ok rest, after) ∧ values = value :: rest := by
  unfold evalAll
  rw [List.mapM_cons]
  constructor
  · intro h
    rcases bind_eq_some h with ⟨value, mid, he, h⟩ | ⟨_, _, h⟩
    · rcases bind_eq_some h with ⟨rest, last, hes, h⟩ | ⟨_, _, h⟩
      · cases h
        exact ⟨value, mid, rest, he, hes, rfl⟩
      · cases h
    · cases h
  · rintro ⟨value, mid, rest, he, hes, rfl⟩
    rw [bind_of_ok he, bind_of_ok hes]
    rfl

/-- A call of `if` itself, whatever its name is bound to. -/
def ifCall (arguments : List Expr) : Expr := .call (.builtIn (.primitive .if)) arguments

theorem eval_ifCall (host : Host) (fuel : Nat) (arguments : List Expr) :
    evalWith host (fuel + 2) (ifCall arguments) =
      evalAll (evalWith host fuel) arguments >>= fun values => done (Choice.branch values) :=
  rfl

/-- An `if` succeeds if its arguments do and one of their values can be chosen. -/
theorem eval_ifCall_eq_ok_iff {arguments : List Expr} {value : Expr} :
    evalWith host fuel (ifCall arguments) s = some (.ok value, after) ↔
      ∃ less values, fuel = less + 2 ∧
        evalAll (evalWith host less) arguments s = some (.ok values, after) ∧
        Choice.branch values = .ok value := by
  constructor
  · intro h
    match fuel with
    | 0 => cases h
    | 1 => cases h
    | less + 2 =>
      rw [eval_ifCall] at h
      rcases bind_eq_some h with ⟨values, mid, hvalues, h⟩ | ⟨_, _, h⟩
      · obtain ⟨hbranch, rfl⟩ := Prod.mk.inj (Option.some.inj h)
        exact ⟨less, values, rfl, hvalues, hbranch⟩
      · cases h
  · rintro ⟨less, values, rfl, hvalues, hbranch⟩
    rw [eval_ifCall, bind_of_ok hvalues, hbranch]
    rfl

theorem eval_flat (hh : host.Monotone) {c r v : Expr} {rest : List Expr}
    (h : evalWith host fuel (ifCall [c, r, ifCall rest]) s = some (.ok v, after)) :
    evalWith host fuel (ifCall (c :: r :: rest)) s = some (.ok v, after) := by
  obtain ⟨less, values, rfl, hall, hbranch⟩ := eval_ifCall_eq_ok_iff.1 h
  obtain ⟨condition, s₁, _, hc, hall₁, rfl⟩ := evalAll_cons_eq_ok_iff.1 hall
  obtain ⟨result, s₂, _, hr, hall₂, rfl⟩ := evalAll_cons_eq_ok_iff.1 hall₁
  obtain ⟨value, s₃, _, hinner, hall₃, rfl⟩ := evalAll_cons_eq_ok_iff.1 hall₂
  cases hall₃
  obtain ⟨least, values, rfl, hrest, hlast⟩ := eval_ifCall_eq_ok_iff.1 hinner
  -- Written out, the inner arguments are evaluated two levels further up.
  have hrest' : evalAll (evalWith host (least + 2)) rest s₂ = some (.ok values, after) :=
    Approximates.mapM (evaluation_approximates hh (Nat.le_add_right least 2)).1 rest _ _ hrest
  refine eval_ifCall_eq_ok_iff.2 ⟨_, condition :: result :: values, rfl, ?_, ?_⟩
  · refine evalAll_cons_eq_ok_iff.2 ⟨condition, s₁, _, hc, ?_, rfl⟩
    exact evalAll_cons_eq_ok_iff.2 ⟨result, s₂, _, hr, hrest', rfl⟩
  · exact Choice.branch_flat hlast hbranch

end Evaluation

/-- If an `if` whose last argument is another `if` has a value, then the `if` with the arguments of
both has that value and leaves the same bindings and output. Among values, the first condition other
than zero chooses its result if it is a number and fails if it is not, and what stands after that
has no part in it; without such a condition it is the value after the last pair, or `void`. -/
theorem else_if_flat :
    (∀ host : Host, host.Monotone → ∀ fuel c r rest s v after,
      evalWith host fuel (ifCall [c, r, ifCall rest]) s = some (.ok v, after) →
      evalWith host fuel (ifCall (c :: r :: rest)) s = some (.ok v, after)) ∧
    (∀ arguments, ∃ pairs otherwise, arguments = Choice.paired pairs otherwise) ∧
    (∀ pairs otherwise, Choice.branch (Choice.paired pairs otherwise) =
      match pairs.find? fun (condition, _) => condition ≠ .number .zero with
      | some (.number _, result) => .ok result
      | some _ => .error (.argumentType "if")
      | none => .ok (otherwise.getD .void)) ∧
    ∀ pairs : List (Expr × Expr), (∀ p ∈ pairs, p.1 = .number .zero) → ∀ n : Number, n ≠ .zero →
      ∀ result rest,
        Choice.branch (Choice.paired pairs none ++ .number n :: result :: rest) = .ok result := by
  refine ⟨?_, Choice.exists_paired, Choice.branch_paired, ?_⟩
  · intro host hh fuel c r rest s v after h
    exact eval_flat hh h
  · intro pairs hzero n hn result rest
    rw [Choice.branch_of_zeros hzero, Choice.branch_of_ne_zero (by simpa using hn)]

/-- The arguments of `(if 0 (print 1) f)`. -/
def printsOrF : List Expr :=
  [.number .zero, .call (.symbol "print") [.number .one], .symbol "f"]

/-- `(if 0 (function f () 1) (if 0 (print 1) f))` evaluates every branch, the one that binds `f` and
the one that prints; so does the flat `if`. -/
theorem else_if_flat_printsOrF :
    (∃ after : State, after.env.get? "f" = some (.function "f" [] (.number .one)) ∧
      after.sink = ⟨none, false, [49, 10]⟩ ∧
      eval 9 (ifCall [.number .zero, .function "f" [] (.number .one), ifCall printsOrF])
        ⟨.initial, .unlimited⟩ = some (.ok (.function "f" [] (.number .one)), after) ∧
      eval 9 (ifCall (.number .zero :: .function "f" [] (.number .one) :: printsOrF))
        ⟨.initial, .unlimited⟩ = some (.ok (.function "f" [] (.number .one)), after)) ∧
    Choice.branch [.number .zero, .void, .number .one, .number .zero, .void, .void] =
      .ok (.number .zero) := by
  constructor
  · obtain ⟨after, hf, hsink, hnested⟩ : ∃ after : State,
        after.env.get? "f" = some (.function "f" [] (.number .one)) ∧
        after.sink = ⟨none, false, [49, 10]⟩ ∧
        eval 9 (ifCall [.number .zero, .function "f" [] (.number .one), ifCall printsOrF])
          ⟨.initial, .unlimited⟩ = some (.ok (.function "f" [] (.number .one)), after) :=
      ⟨_, rfl, rfl, rfl⟩
    exact ⟨after, hf, hsink, hnested,
      else_if_flat.1 _ Host.monotone_empty _ _ _ _ _ _ _ hnested⟩
  · exact else_if_flat.2.2.2 [(.number .zero, .void)] (by simp) .one (by decide) _ _

end Lisplet
