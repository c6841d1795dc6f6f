import Lisplet.Proofs.Arithmetic
/-!
# Quotients and remainders

Dividing by several numbers in turn fails at a zero, and it overflows where the least number is
divided by minus one. `settled_foldlM` says how all the divisions end, given what a single one does
to the condition for an overflow and to the result (`Describes`). For quotients the condition is
about the first divisor other than one, since only one leaves the least number as it is. For
remainders it is about the first divisor, since the least number is no remainder.
-/

namespace Lisplet

/-! ## One division -/

namespace Number

variable {a b q r : Number}

theorem natAbs_le (n : Number) : n.val.natAbs ≤ 2 ^ 31 := by
  have hn := n.inRange
  simp only [InRange, least, greatest] at hn
  omega

theorem natAbs_tdiv_le (a b : Number) (h : 2 ≤ b.val.natAbs) :
    (a.val.tdiv b.val).natAbs ≤ 2 ^ 30 := by
  rw [Int.natAbs_tdiv]
  calc a.val.natAbs / b.val.natAbs
    _ ≤ a.val.natAbs / 2 := Nat.div_le_div_left h (by decide)
    _ ≤ 2 ^ 30 := by have ha := a.natAbs_le; omega

theorem inRange_tdiv_iff (hb : b.val ≠ 0) :
    InRange (a.val.tdiv b.val) ↔ ¬ (a.val = least ∧ b.val = -1) := by
  have ha := a.inRange
  simp only [InRange, least, greatest] at ha ⊢
  -- A divisor of size two or more leaves at most half of the range.
  by_cases htwo : 2 ≤ b.val.natAbs
  · have hq := a.natAbs_tdiv_le b htwo
    omega
  · obtain hone | hminus : b.val = 1 ∨ b.val = -1 := by omega
    · rw [hone, Int.tdiv_one]
      omega
    · rw [hminus, Int.tdiv_neg, Int.tdiv_one]
      omega

theorem quot?_eq_none_iff (hb : b.val ≠ 0) : a.quot? b = none ↔ a.val = least ∧ b.val = -1 := by
  rw [quot?, ofInt?_eq_none_iff, inRange_tdiv_iff hb, Classical.not_not]

/-- Of all divisors only one leads to the least number. -/
theorem ne_least_of_quot? (hb : b.val ≠ 0) (hone : b.val ≠ 1) (h : a.quot? b = some q) :
    q.val ≠ least := by
  rw [ofInt?_eq_some_iff.1 h]
  by_cases hminus : b.val = -1
  · have ha := a.le_greatest
    simp only [hminus, Int.tdiv_neg, Int.tdiv_one, least, greatest] at ha ⊢
    omega
  · have hq := a.natAbs_tdiv_le b (by omega)
    unfold least
    omega

theorem natAbs_tmod_lt (i : Int) {j : Int} (hj : j ≠ 0) : (i.tmod j).natAbs < j.natAbs := by
  rw [Int.natAbs_tmod]
  exact Nat.mod_lt _ (Int.natAbs_pos.2 hj)

/-- A remainder is in range and not the least number. -/
theorem natAbs_tmod_lt_two_pow (a b : Number) (hb : b.val ≠ 0) :
    (a.val.tmod b.val).natAbs < 2 ^ 31 :=
  (natAbs_tmod_lt a.val hb).trans_le b.natAbs_le

theorem rem?_eq_none_iff (hb : b.val ≠ 0) : a.rem? b = none ↔ a.val = least ∧ b.val = -1 := by
  have hmod : ofInt? (a.val.tmod b.val) ≠ none := by
    rw [Ne, ofInt?_eq_none_iff, Classical.not_not]
    have hlt := a.natAbs_tmod_lt_two_pow b hb
    simp only [InRange, least, greatest]
    omega
  -- So there is no remainder only where there is no quotient.
  rw [← quot?_eq_none_iff hb, rem?]
  cases a.quot? b with
  | none => exact Iff.rfl
  | some q => exact iff_of_false hmod (by simp)

theorem val_of_rem? (h : a.rem? b = some r) : r.val = a.val.tmod b.val := by
  obtain ⟨_, _, h⟩ := Option.bind_eq_some_iff.1 h
  exact ofInt?_eq_some_iff.1 h

theorem ne_least_of_rem? (hb : b.val ≠ 0) (h : a.rem? b = some r) : r.val ≠ least := by
  have hlt := a.natAbs_tmod_lt_two_pow b hb
  rw [val_of_rem? h]
  unfold least
  omega

end Number

namespace Fold

open Number

/-! ## Divisions in turn -/

/-- The step of quotients and of remainders. -/
def divisionStep (function : String) (byZero : RuntimeError)
    (op? : Number → Number → Option Number) : Step :=
  fun a b => if b.val = 0 then .error byZero else orOverflow function (op? a b)

/-- How a number divided by others in turn comes out: an overflow, else the error of a zero among
the divisors, else a number. -/
structure Settled (function : String) (byZero : RuntimeError) (overflows : Prop)
    (divisors : List Number) (Result : Int → Prop) (outcome : Except RuntimeError Expr) : Prop where
  overflow_iff : outcome = .error (.overflow function) ↔ overflows
  byZero_iff : ¬ overflows → (outcome = .error byZero ↔ ∃ b ∈ divisors, b.val = 0)
  result : ¬ overflows → (∀ b ∈ divisors, b.val ≠ 0) →
    ∃ n : Number, outcome = .ok (.number n) ∧ Result n.val

/-- More may be said of the result once no divisor is zero. -/
theorem Settled.imp {function : String} {byZero : RuntimeError} {overflows : Prop}
    {divisors : List Number} {R R' : Int → Prop} {outcome : Except RuntimeError Expr}
    (h : Settled function byZero overflows divisors R outcome)
    (hr : ∀ r, (∀ b ∈ divisors, b.val ≠ 0) → R r → R' r) :
    Settled function byZero overflows divisors R' outcome := by
  refine ⟨h.overflow_iff, h.byZero_iff, fun hover hnonzero => ?_⟩
  obtain ⟨n, hn, hresult⟩ := h.result hover hnonzero
  exact ⟨n, hn, hr n.val hnonzero hresult⟩

/-- What one division by `op?` does to the condition for an overflow and to the result. -/
structure Describes (op? : Number → Number → Option Number)
    (overflows : Number → List Number → Prop) (value : Number → List Number → Int) : Prop where
  overflows_nil (a : Number) : ¬ overflows a []
  overflows_zero {a b : Number} (bs : List Number) : b.val = 0 → ¬ overflows a (b :: bs)
  overflows_none {a b : Number} (bs : List Number) :
    b.val ≠ 0 → op? a b = none → overflows a (b :: bs)
  overflows_some {a b q : Number} (bs : List Number) :
    b.val ≠ 0 → op? a b = some q → (overflows a (b :: bs) ↔ overflows q bs)
  value_nil (a : Number) : value a [] = a.val
  value_some {a b q : Number} (bs : List Number) :
    op? a b = some q → value a (b :: bs) = value q bs

/-- How all divisions end, from what each of them does. -/
theorem settled_foldlM {function : String} {byZero : RuntimeError}
    {op? : Number → Number → Option Number} {overflows : Number → List Number → Prop}
    {value : Number → List Number → Int} (d : Describes op? overflows value)
    (hne : byZero ≠ .overflow function) (a : Number) (bs : List Number) :
    Settled function byZero (overflows a bs) bs (· = value a bs)
      (.number <$> bs.foldlM (divisionStep function byZero op?) a) := by
  induction bs generalizing a with
  | nil =>
    refine ⟨iff_of_false nofun (d.overflows_nil a), fun _ => iff_of_false nofun (by simp), ?_⟩
    exact fun _ _ => ⟨a, rfl, (d.value_nil a).symm⟩
  | cons b bs ih =>
    rw [List.foldlM_cons]
    by_cases hb : b.val = 0
    · have hstep : divisionStep function byZero op? a b = .error byZero := if_pos hb
      rw [hstep]
      refine ⟨iff_of_false (fun h => hne (Except.error.inj h)) (d.overflows_zero bs hb), ?_, ?_⟩
      · exact fun _ => iff_of_true rfl ⟨b, List.mem_cons_self, hb⟩
      · exact fun _ h => absurd hb (h b List.mem_cons_self)
    · have hstep : divisionStep function byZero op? a b = orOverflow function (op? a b) := if_neg hb
      rw [hstep]
      cases hq : op? a b with
      | none =>
        have hover := d.overflows_none bs hb hq
        exact ⟨iff_of_true rfl hover, fun h => absurd hover h, fun h => absurd hover h⟩
      | some q =>
        obtain ⟨hover, hzero, hresult⟩ := ih q
        rw [d.overflows_some bs hb hq, d.value_some bs hq]
        refine ⟨hover, fun h => ?_, fun h hbs => ?_⟩
        · rw [List.exists_mem_cons_iff, or_iff_right hb]
          exact hzero h
        · exact hresult h (List.forall_mem_cons.1 hbs).2

/-! ## Quotients -/

theorem tdiv_tdiv (i j k : Int) : (i.tdiv j).tdiv k = i.tdiv (j * k) := by
  -- Both sides change sign with each of the three, and for natural numbers this is known.
  obtain ⟨l, rfl | rfl⟩ := i.eq_nat_or_neg <;> obtain ⟨m, rfl | rfl⟩ := j.eq_nat_or_neg <;>
    obtain ⟨n, rfl | rfl⟩ := k.eq_nat_or_neg <;>
    simp only [Int.neg_tdiv, Int.tdiv_neg, Int.neg_mul, Int.mul_neg, Int.neg_neg, ← Int.natCast_mul,
      ← Int.ofNat_tdiv, Nat.div_div_eq_div_mul]

/-- The least number comes up against minus one before any other divisor but one. -/
def QuotientOverflows (a : Number) (bs : List Number) : Prop :=
  a.val = least ∧ (bs.map val).find? (· ≠ 1) = some (-1)

theorem quotientOverflows_cons {a b : Number} {bs : List Number} :
    QuotientOverflows a (b :: bs) ↔
      if b.val = 1 then QuotientOverflows a bs else a.val = least ∧ b.val = -1 := by
  unfold QuotientOverflows
  split
  · next h => simp [h]
  · next h => simp [h]

theorem describes_quot? :
    Describes quot? QuotientOverflows fun a bs => a.val.tdiv (product bs) where
  overflows_nil a := by simp [QuotientOverflows]
  overflows_zero bs hb := by simp [quotientOverflows_cons, hb]
  overflows_none bs hb hq := by
    have hfirst := (quot?_eq_none_iff hb).1 hq
    simpa [quotientOverflows_cons, hfirst.2] using hfirst.1
  overflows_some {a b q} bs hb hq := by
    rw [quotientOverflows_cons]
    split
    · next hone =>
      have hval : q.val = a.val := by rw [ofInt?_eq_some_iff.1 hq, hone, Int.tdiv_one]
      rw [QuotientOverflows, QuotientOverflows, hval]
    · next hone =>
      rw [← quot?_eq_none_iff hb, hq]
      exact iff_of_false nofun fun h => ne_least_of_quot? hb hone hq h.1
  value_nil a := by simp [product]
  value_some {a b q} bs hq := by
    rw [ofInt?_eq_some_iff.1 hq, tdiv_tdiv]
    rfl

/-- Division gives the quotient by the product of all divisors, rounded toward zero once; without
divisors the product is one. It overflows where the least number is divided by minus one after
nothing but ones, even if a zero follows. Otherwise one zero among the divisors is enough for it to
fail. An argument that is no number is an error before all others. -/
theorem div_closed_form :
    (∀ a bs, Settled "div" .divisionByZero
      (a.val = least ∧ (bs.map val).find? (· ≠ 1) = some (-1)) bs
      (· = a.val.tdiv (product bs)) (div ((a :: bs).map .number))) ∧
    ∀ arguments, (∃ a ∈ arguments, ¬ Primitive.IsNumber a) →
      div arguments = .error (.argumentType "div") := by
  constructor
  · intro a bs
    rw [div, foldFirst_map]
    exact settled_foldlM describes_quot? (by simp) a bs
  · intro arguments h
    exact foldFirst_of_not_isNumber _ _ h

/-- Minus one after a one still overflows, and after a two it does not. -/
theorem div_closed_form_order :
    div ([ofInt (-2147483648), ofInt 1, ofInt (-1), ofInt 0].map .number) =
      .error (.overflow "div") ∧
    div ([ofInt (-2147483648), ofInt 2, ofInt (-1), ofInt 0].map .number) =
      .error .divisionByZero ∧
    div ([ofInt (-7), ofInt 2, ofInt (-1), ofInt 2].map .number) =
      .ok (.number (ofInt 1)) ∧
    div [.number (ofInt 1), .number (ofInt 0), .void] = .error (.argumentType "div") := by
  obtain ⟨hsettled, htype⟩ := div_closed_form
  refine ⟨?_, ?_, ?_, ?_⟩
  · exact (hsettled _ [ofInt 1, ofInt (-1), ofInt 0]).overflow_iff.2 (by decide)
  · exact ((hsettled _ [ofInt 2, ofInt (-1), ofInt 0]).byZero_iff (by decide)).2 (by decide)
  · obtain ⟨n, hdiv, hn⟩ := (hsettled (ofInt (-7)) [ofInt 2, ofInt (-1), ofInt 2]).result
      (by decide) (by decide)
    rw [hdiv, Number.ext (n := ofInt 1) (hn.trans (by decide))]
  · exact htype _ ⟨.void, by simp, by rintro ⟨n, h⟩; cases h⟩

/-! ## Remainders -/

theorem foldl_tmod_bounds (i : Int) {js : List Int} (h : ∀ j ∈ js, j ≠ 0) :
    (js.foldl Int.tmod i).natAbs ≤ i.natAbs ∧
      (∀ j ∈ js, (js.foldl Int.tmod i).natAbs < j.natAbs) ∧
      (js.foldl Int.tmod i = 0 ∨ (js.foldl Int.tmod i).sign = i.sign) := by
  induction js generalizing i with
  | nil => simp
  | cons j js ih =>
    rw [List.forall_mem_cons] at h
    obtain ⟨hle, hlt, hsign⟩ := ih (i.tmod j) h.2
    rw [List.foldl_cons]
    refine ⟨?_, ?_, ?_⟩
    · rw [Int.natAbs_tmod] at hle
      exact hle.trans (Nat.mod_le _ _)
    · rw [List.forall_mem_cons]
      exact ⟨hle.trans_lt (natAbs_tmod_lt i h.1), hlt⟩
    · rw [Int.sign_tmod] at hsign
      split at hsign
      · exact .inl (hsign.elim id Int.sign_eq_zero_iff_zero.1)
      · exact hsign

/-- The least number comes up against minus one at once. -/
def RemainderOverflows (a : Number) (bs : List Number) : Prop :=
  a.val = least ∧ (bs.map val).head? = some (-1)

theorem remainderOverflows_cons {a b : Number} {bs : List Number} :
    RemainderOverflows a (b :: bs) ↔ a.val = least ∧ b.val = -1 := by
  simp [RemainderOverflows]

theorem describes_rem? :
    Describes rem? RemainderOverflows fun a bs => (bs.map val).foldl Int.tmod a.val where
  overflows_nil a := by simp [RemainderOverflows]
  overflows_zero bs hb := by simp [remainderOverflows_cons, hb]
  overflows_none bs hb hr := remainderOverflows_cons.2 ((rem?_eq_none_iff hb).1 hr)
  overflows_some bs hb hr := by
    rw [remainderOverflows_cons, ← rem?_eq_none_iff hb, hr]
    exact iff_of_false nofun fun h => ne_least_of_rem? hb hr h.1
  value_nil a := rfl
  value_some bs hr := by
    rw [val_of_rem? hr]
    rfl

/-- Taking remainders overflows at the first divisor or not at all: where that is minus one and the
number to divide is the least. Otherwise one zero among the divisors is enough for it to fail. The
last remainder is in size at most the number to divide and less than every divisor, and unless it is
zero it has the sign of the number to divide. An argument that is no number is an error before all
others. -/
theorem mod_closed_form :
    (∀ a bs, Settled "mod" .remainderByZero
      (a.val = least ∧ (bs.map val).head? = some (-1)) bs
      (fun r => r = (bs.map val).foldl Int.tmod a.val ∧ r.natAbs ≤ a.val.natAbs ∧
        (∀ b ∈ bs, r.natAbs < b.val.natAbs) ∧ (r = 0 ∨ r.sign = a.val.sign))
      (mod ((a :: bs).map .number))) ∧
    ∀ arguments, (∃ a ∈ arguments, ¬ Primitive.IsNumber a) →
      mod arguments = .error (.argumentType "mod") := by
  constructor
  · intro a bs
    rw [mod, foldFirst_map]
    refine (settled_foldlM describes_rem? (by simp) a bs).imp ?_
    rintro r hbs rfl
    obtain ⟨hle, hlt, hsign⟩ := foldl_tmod_bounds a.val (List.forall_mem_map.2 hbs)
    exact ⟨rfl, hle, fun b hb => hlt b.val (List.mem_map_of_mem hb), hsign⟩
  · intro arguments h
    exact foldFirst_of_not_isNumber _ _ h

/-- Minus one overflows as the first divisor only. -/
theorem mod_closed_form_order :
    mod ([ofInt (-2147483648), ofInt (-1), ofInt 0].map .number) =
      .error (.overflow "mod") ∧
    mod ([ofInt (-2147483648), ofInt 1, ofInt (-1), ofInt 0].map .number) =
      .error .remainderByZero ∧
    mod ([ofInt (-7), ofInt 5, ofInt (-3)].map .number) = .ok (.number (ofInt (-2))) ∧
    mod [.number (ofInt 1), .number (ofInt 0), .void] = .error (.argumentType "mod") := by
  obtain ⟨hsettled, htype⟩ := mod_closed_form
  refine ⟨?_, ?_, ?_, ?_⟩
  · exact (hsettled _ [ofInt (-1), ofInt 0]).overflow_iff.2 (by decide)
  · exact ((hsettled _ [ofInt 1, ofInt (-1), ofInt 0]).byZero_iff (by decide)).2 (by decide)
  · obtain ⟨n, hmod, hn, -⟩ := (hsettled (ofInt (-7)) [ofInt 5, ofInt (-3)]).result
      (by decide) (by decide)
    rw [hmod, Number.ext (n := ofInt (-2)) (hn.trans (by decide))]
  · exact htype _ ⟨.void, by simp, by rintro ⟨n, h⟩; cases h⟩

end Fold

end Lisplet
