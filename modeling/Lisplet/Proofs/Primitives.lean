import Lisplet.Primitive
/-!
# What primitives return

On as many arguments as it takes, a primitive returns a number, `void` or one of the arguments, and
it fails only for what the arguments are: `Primitive.yields_result`.
-/

namespace Lisplet

/-! ## Outcomes -/

/-- The result has `Q`, or the failure has `E`. -/
def Yields {α : Type} (Q : α → Prop) (E : RuntimeError → Prop) : Except RuntimeError α → Prop
  | .ok a => Q a
  | .error e => E e

namespace Yields

variable {α β : Type} {Q Q' : α → Prop} {R : β → Prop} {E E' : RuntimeError → Prop}

theorem imp {r : Except RuntimeError α} (h : Yields Q E r) (hq : ∀ a, Q a → Q' a)
    (he : ∀ e, E e → E' e) : Yields Q' E' r := by
  cases r with
  | ok a => exact hq a h
  | error e => exact he e h

theorem mono {r : Except RuntimeError α} (h : Yields Q E r) (hq : ∀ a, Q a → Q' a) :
    Yields Q' E r :=
  h.imp hq fun _ he => he

theorem bind {r : Except RuntimeError α} {f : α → Except RuntimeError β} (h : Yields Q E r)
    (hf : ∀ a, Q a → Yields R E (f a)) : Yields R E (r >>= f) := by
  cases r with
  | ok a => exact hf a h
  | error e => exact h

theorem mapM {f : α → Except RuntimeError β} (hf : ∀ a, Yields (fun _ => True) E (f a))
    (as : List α) : Yields (fun bs => bs.length = as.length) E (as.mapM f) := by
  induction as with
  | nil => exact rfl
  | cons a as ih =>
    rw [List.mapM_cons]
    refine (hf a).bind fun b _ => ih.bind fun bs hbs => ?_
    exact congrArg (· + 1) hbs

theorem foldlM {f : β → α → Except RuntimeError β} (hf : ∀ b a, Yields (fun _ => True) E (f b a))
    (as : List α) (b : β) : Yields (fun _ => True) E (as.foldlM f b) := by
  induction as generalizing b with
  | nil => exact trivial
  | cons a as ih =>
    rw [List.foldlM_cons]
    exact (hf b a).bind fun b' _ => ih b'

end Yields

namespace Primitive

/-! ## Numbers -/

/-- How a primitive fails on arguments that it takes as many of. -/
def Fails (p : Primitive) (e : RuntimeError) : Prop :=
  e = .argumentType p.name ∨ e = .overflow p.name ∨ e = .divisionByZero ∨ e = .remainderByZero

variable {p : Primitive} {arguments : List Expr}

theorem yields_number (argument : Expr) :
    Yields (fun _ => True) p.Fails (Operand.number p.name argument) := by
  unfold Operand.number
  split
  · exact trivial
  · exact .inl rfl

theorem yields_numbers (arguments : List Expr) :
    Yields (fun ns => ns.length = arguments.length) p.Fails (Operand.numbers p.name arguments) :=
  Yields.mapM yields_number arguments

theorem yields_orOverflow (n : Option Number) :
    Yields (fun _ => True) p.Fails (Fold.orOverflow p.name n) := by
  cases n with
  | some n => exact trivial
  | none => exact .inr (.inl rfl)

def IsNumber (value : Expr) : Prop := ∃ n, value = .number n

theorem yields_foldFrom {step : Fold.Step} (hs : ∀ a b, Yields (fun _ => True) p.Fails (step a b))
    (seed : Number) : Yields IsNumber p.Fails (Fold.foldFrom p.name step seed arguments) := by
  refine (yields_numbers arguments).bind fun ns _ => ?_
  exact (Yields.foldlM hs ns seed).bind fun n _ => ⟨n, rfl⟩

theorem yields_foldFirst {step : Fold.Step} (hs : ∀ a b, Yields (fun _ => True) p.Fails (step a b))
    (ha : arguments ≠ []) : Yields IsNumber p.Fails (Fold.foldFirst p.name step arguments) := by
  refine (yields_numbers arguments).bind fun ns hns => ?_
  cases ns with
  | nil => exact absurd (List.length_eq_zero_iff.1 hns.symm) ha
  | cons n ns => exact (Yields.foldlM hs ns n).bind fun n _ => ⟨n, rfl⟩

theorem yields_compare (relation : Relation) :
    Yields IsNumber p.Fails (Chain.compare p.name relation arguments) :=
  (yields_numbers arguments).bind fun _ _ => ⟨_, rfl⟩

theorem yields_countTrue : Yields (fun _ => True) p.Fails (Truth.countTrue p.name arguments) :=
  (yields_numbers arguments).bind fun _ _ => trivial

theorem yields_not (ha : arguments ≠ []) : Yields IsNumber (Fails .not) (Truth.not arguments) := by
  cases arguments with
  | nil => contradiction
  | cons a as => exact (yields_number a).bind fun _ _ => ⟨_, rfl⟩

/-! ## Choices -/

theorem last_cases (arguments : List Expr) :
    Choice.last arguments = .void ∨ Choice.last arguments ∈ arguments := by
  unfold Choice.last
  cases h : arguments.getLast? with
  | none => exact .inl rfl
  | some value => exact .inr (List.mem_of_getLast? h)

theorem yields_branch (arguments : List Expr) :
    Yields (fun v => v = .void ∨ v ∈ arguments) (Fails .if) (Choice.branch arguments) := by
  fun_induction Choice.branch arguments with
  | case1 condition result rest ih =>
    refine (yields_number condition).bind fun n _ => ?_
    split
    · exact .inr (by simp)
    · exact ih.mono fun v hv => hv.imp_right fun h => by simp [h]
  | case2 otherwise => exact .inr (by simp)
  | case3 => exact .inl rfl

/-! ## All primitives -/

/-- What a primitive may return on these arguments. -/
def Returns (arguments : List Expr) (value : Expr) : Prop :=
  IsNumber value ∨ value = .void ∨ value ∈ arguments

theorem yields_result (ha : p.arity.accepts arguments.length = true) :
    Yields (Returns arguments) p.Fails (p.result arguments) := by
  have hne : p.arity.accepts 0 = false → arguments ≠ [] := by
    rintro h rfl
    rw [List.length_nil, h] at ha
    cases ha
  have hstep : ∀ (b : Number) {zero : RuntimeError} {quotient : Option Number}, p.Fails zero →
      Yields (fun _ => True) p.Fails
        (if b.val = 0 then .error zero else Fold.orOverflow p.name quotient) := by
    intro b zero quotient hz
    split
    · exact hz
    · exact yields_orOverflow _
  have hnumber : ∀ {r : Except RuntimeError Expr}, Yields IsNumber p.Fails r →
      Yields (Returns arguments) p.Fails r := fun h => h.mono fun _ => .inl
  cases p with
  | add => exact hnumber (yields_foldFrom (fun _ _ => yields_orOverflow _) _)
  | sub => exact hnumber (yields_foldFirst (fun _ _ => yields_orOverflow _) (hne rfl))
  | mul => exact hnumber (yields_foldFrom (fun _ _ => yields_orOverflow _) _)
  | div => exact hnumber (yields_foldFirst (fun _ b => hstep b (by simp [Fails])) (hne rfl))
  | mod => exact hnumber (yields_foldFirst (fun _ b => hstep b (by simp [Fails])) (hne rfl))
  | print => exact .inr (.inl rfl)
  | batch => exact .inr (last_cases arguments)
  | «if» => exact (yields_branch arguments).mono fun _ => .inr
  | not => exact hnumber (yields_not (hne rfl))
  | and => exact hnumber (yields_countTrue.bind fun _ _ => ⟨_, rfl⟩)
  | or => exact hnumber (yields_countTrue.bind fun _ _ => ⟨_, rfl⟩)
  | xor => exact hnumber (yields_countTrue.bind fun _ _ => ⟨_, rfl⟩)
  | equal => exact hnumber (yields_compare _)
  | notEqual => exact hnumber (yields_compare _)
  | greater => exact hnumber (yields_compare _)
  | greaterOrEqual => exact hnumber (yields_compare _)
  | less => exact hnumber (yields_compare _)
  | lessOrEqual => exact hnumber (yields_compare _)

end Primitive

/-! ## Arguments as numbers -/

namespace Operand

theorem number_of_not_isNumber (function : String) {a : Expr} (h : ¬ Primitive.IsNumber a) :
    number function a = .error (.argumentType function) := by
  cases a with
  | number n => exact absurd ⟨n, rfl⟩ h
  | _ => rfl

theorem numbers_map (function : String) (ns : List Number) :
    numbers function (ns.map .number) = .ok ns := by
  unfold numbers
  induction ns with
  | nil => rfl
  | cons n ns ih =>
    rw [List.map_cons, List.mapM_cons, ih]
    rfl

theorem exists_map_number {arguments : List Expr} (h : ∀ a ∈ arguments, Primitive.IsNumber a) :
    ∃ ns : List Number, arguments = ns.map .number := by
  induction arguments with
  | nil => exact ⟨[], rfl⟩
  | cons a as ih =>
    rw [List.forall_mem_cons] at h
    obtain ⟨n, rfl⟩ := h.1
    obtain ⟨ns, rfl⟩ := ih h.2
    exact ⟨n :: ns, rfl⟩

/-- One argument that is no number is enough, wherever it stands. -/
theorem numbers_of_not_isNumber (function : String) {arguments : List Expr}
    (h : ∃ a ∈ arguments, ¬ Primitive.IsNumber a) :
    numbers function arguments = .error (.argumentType function) := by
  unfold numbers
  induction arguments with
  | nil => simp at h
  | cons a as ih =>
    rw [List.mapM_cons]
    by_cases ha : Primitive.IsNumber a
    · obtain ⟨n, rfl⟩ := ha
      obtain ⟨b, hb, hn⟩ := h
      have hmem : b ∈ as := by
        rcases List.mem_cons.1 hb with rfl | hb
        · exact absurd ⟨n, rfl⟩ hn
        · exact hb
      rw [ih ⟨b, hmem, hn⟩]
      rfl
    · rw [number_of_not_isNumber function ha]
      rfl

end Operand

end Lisplet
