import Lisplet.Proofs.Primitives
import Mathlib.Algebra.Order.BigOperators.Group.List
import Mathlib.Algebra.Ring.Int.Defs
/-!
# Sums, differences and products

Addition, subtraction and multiplication take exact steps between integers: the outcome is the exact
integer if every integer on the way is in range, and an overflow otherwise (`exact_foldlM`). So the
order of the arguments may decide whether there is a result, but not which one it is.
-/

namespace Lisplet.Fold

open Number

/-! ## Folds over arguments -/

section Arguments

variable (function : String) (step : Step)

theorem foldFrom_map (seed : Number) (ns : List Number) :
    foldFrom function step seed (ns.map .number) = .number <$> ns.foldlM step seed := by
  unfold foldFrom
  rw [Operand.numbers_map]
  rfl

theorem foldFirst_map (a : Number) (ns : List Number) :
    foldFirst function step ((a :: ns).map .number) = .number <$> ns.foldlM step a := by
  unfold foldFirst
  rw [Operand.numbers_map]
  rfl

variable {arguments : List Expr} (h : ∃ a ∈ arguments, ¬ Primitive.IsNumber a)
include h

theorem foldFrom_of_not_isNumber (seed : Number) :
    foldFrom function step seed arguments = .error (.argumentType function) := by
  unfold foldFrom
  rw [Operand.numbers_of_not_isNumber function h]
  rfl

theorem foldFirst_of_not_isNumber :
    foldFirst function step arguments = .error (.argumentType function) := by
  unfold foldFirst
  rw [Operand.numbers_of_not_isNumber function h]
  rfl

end Arguments

/-! ## Exact steps -/

/-- The step that takes the exact result of `op`, if it is in range. -/
def exactStep (function : String) (op : Int → Int → Int) : Step :=
  fun a b => orOverflow function (ofInt? (op a.val b.val))

/-- Every integer on the way is in range: the one after no number, after one, and so on. -/
def Fits (op : Int → Int → Int) (seed : Int) (ns : List Number) : Prop :=
  ∀ before, before <+: ns → InRange ((before.map val).foldl op seed)

/-- The outcome is the number of that value if `fits`, and an overflow otherwise. -/
def Exact (function : String) (fits : Prop) (value : Int) (outcome : Except RuntimeError Expr) :
    Prop :=
  (fits ∧ ∃ n : Number, n.val = value ∧ outcome = .ok (.number n)) ∨
    (¬ fits ∧ outcome = .error (.overflow function))

theorem Exact.exists_number {function : String} {fits : Prop} {value : Int} {v : Expr}
    (h : Exact function fits value (.ok v)) : ∃ n : Number, n.val = value ∧ v = .number n := by
  rcases h with ⟨-, n, hn, h⟩ | ⟨-, h⟩
  · cases h
    exact ⟨n, hn, rfl⟩
  · cases h

/-- Lists of one value that both have a result have the same one. -/
theorem eq_of_exact {function : String} {operation : List Expr → Except RuntimeError Expr}
    {fits : List Number → Prop} {value : List Number → Int}
    (hexact : ∀ ns, Exact function (fits ns) (value ns) (operation (ns.map .number)))
    {ms ns : List Number} (hvalue : value ms = value ns) {v w : Expr}
    (hv : operation (ms.map .number) = .ok v) (hw : operation (ns.map .number) = .ok w) :
    v = w := by
  obtain ⟨m, hm, rfl⟩ := (hv ▸ hexact ms).exists_number
  obtain ⟨n, hn, rfl⟩ := (hw ▸ hexact ns).exists_number
  rw [Number.ext (hm.trans (hvalue.trans hn.symm))]

theorem fits_nil {op : Int → Int → Int} {seed : Int} : Fits op seed [] ↔ InRange seed := by
  simp [Fits]

theorem fits_cons {op : Int → Int → Int} {seed : Int} {n : Number} {ns : List Number} :
    Fits op seed (n :: ns) ↔ InRange seed ∧ Fits op (op seed n.val) ns := by
  constructor
  · intro h
    refine ⟨h [] List.nil_prefix, fun before hb => ?_⟩
    exact h (n :: before) (List.cons_prefix_cons.2 ⟨rfl, hb⟩)
  · rintro ⟨hseed, h⟩ before hb
    rcases List.prefix_cons_iff.1 hb with rfl | ⟨later, rfl, hlater⟩
    · exact hseed
    · exact h later hlater

/-- All steps together are exact or overflow. -/
theorem exact_foldlM (function : String) (op : Int → Int → Int) (a : Number) (ns : List Number) :
    Exact function (Fits op a.val ns) ((ns.map val).foldl op a.val)
      (.number <$> ns.foldlM (exactStep function op) a) := by
  induction ns generalizing a with
  | nil => exact .inl ⟨fits_nil.2 a.inRange, a, rfl, rfl⟩
  | cons n ns ih =>
    have hcons : Fits op a.val (n :: ns) ↔ Fits op (op a.val n.val) ns :=
      fits_cons.trans (and_iff_right a.inRange)
    rw [hcons, List.foldlM_cons]
    unfold exactStep
    cases h : ofInt? (op a.val n.val) with
    | none =>
      refine .inr ⟨fun hfits => ?_, rfl⟩
      exact ofInt?_eq_none_iff.1 h (hfits [] List.nil_prefix)
    | some m =>
      rw [List.map_cons, List.foldl_cons, ← ofInt?_eq_some_iff.1 h]
      exact ih m

/-! ## The three operations -/

def total (ns : List Number) : Int := (ns.map val).sum

def product (ns : List Number) : Int := (ns.map val).prod

theorem foldl_sub (a : Int) (is : List Int) : is.foldl (· - ·) a = a - is.sum := by
  induction is generalizing a with
  | nil => simp
  | cons i is ih =>
    rw [List.foldl_cons, ih, List.sum_cons]
    omega

theorem exact_add (ns : List Number) :
    Exact "add" (∀ before, before <+: ns → InRange (total before)) (total ns)
      (add (ns.map .number)) := by
  have h := exact_foldlM "add" (· + ·) zero ns
  simp only [Fits, zero, ← List.sum_eq_foldl] at h
  rw [add, foldFrom_map]
  exact h

theorem exact_mul (ns : List Number) :
    Exact "mul" (∀ before, before <+: ns → InRange (product before)) (product ns)
      (mul (ns.map .number)) := by
  have h := exact_foldlM "mul" (· * ·) one ns
  simp only [Fits, one, ← List.prod_eq_foldl] at h
  rw [mul, foldFrom_map]
  exact h

theorem exact_sub (a : Number) (ns : List Number) :
    Exact "sub" (∀ before, before <+: ns → InRange (a.val - total before)) (a.val - total ns)
      (sub ((a :: ns).map .number)) := by
  have h := exact_foldlM "sub" (· - ·) a ns
  simp only [Fits, foldl_sub] at h
  rw [sub, foldFirst_map]
  exact h

/-! ## Numbers of one sign -/

theorem total_append (ms ns : List Number) : total (ms ++ ns) = total ms + total ns := by
  simp [total]

theorem total_nonpos {ns : List Number} (h : ∀ n ∈ ns, n.val ≤ 0) : total ns ≤ 0 := by
  have hsum := List.sum_le_card_nsmul _ 0 (List.forall_mem_map.2 h)
  rwa [nsmul_zero] at hsum

/-- Sums of numbers of one sign only move away from zero. -/
theorem inRange_totals_iff {ns : List Number}
    (h : (∀ n ∈ ns, 0 ≤ n.val) ∨ ∀ n ∈ ns, n.val ≤ 0) :
    (∀ before, before <+: ns → InRange (total before)) ↔ InRange (total ns) := by
  refine ⟨fun hall => hall ns List.prefix_rfl, ?_⟩
  rintro hns before ⟨rest, rfl⟩
  rw [total_append] at hns
  simp only [List.forall_mem_append] at h
  simp only [InRange, least, greatest] at hns ⊢
  rcases h with ⟨hb, hr⟩ | ⟨hb, hr⟩
  · have hbefore : 0 ≤ total before := List.sum_nonneg (List.forall_mem_map.2 hb)
    have hrest : 0 ≤ total rest := List.sum_nonneg (List.forall_mem_map.2 hr)
    omega
  · have hbefore := total_nonpos hb
    have hrest := total_nonpos hr
    omega

theorem exact_add_of_sign {ms ns : List Number} (hp : ns.Perm ms)
    (h : (∀ n ∈ ms, 0 ≤ n.val) ∨ ∀ n ∈ ms, n.val ≤ 0) :
    Exact "add" (InRange (total ms)) (total ms) (add (ns.map .number)) := by
  have hns : (∀ n ∈ ns, 0 ≤ n.val) ∨ ∀ n ∈ ns, n.val ≤ 0 := by
    simpa only [hp.mem_iff] using h
  have htotal : total ns = total ms := (hp.map val).sum_eq
  rw [← htotal, ← inRange_totals_iff hns]
  exact exact_add ns

/-! ## Products of zero -/

theorem foldlM_mulStep_zero (ns : List Number) : ns.foldlM mulStep zero = .ok zero := by
  induction ns with
  | nil => rfl
  | cons n ns ih =>
    have hstep : mulStep zero n = .ok zero := by
      have hmul : zero.mul? n = some zero := by
        rw [mul?, ofInt?_eq_some_iff]
        simp [zero]
      rw [mulStep, hmul]
      rfl
    rw [List.foldlM_cons, hstep]
    exact ih

/-- Once the product is zero, nothing that follows makes a difference. -/
theorem mul_append_of_product_eq_zero {ms : List Number} (h : product ms = 0) (ns : List Number) :
    mul ((ms ++ ns).map .number) = mul (ms.map .number) := by
  have hexact := exact_mul ms
  rw [mul, foldFrom_map] at hexact ⊢
  rw [foldFrom_map, List.foldlM_append]
  cases hms : ms.foldlM mulStep one with
  | error e => rfl
  | ok n =>
    rw [hms] at hexact
    obtain ⟨m, hm, hn⟩ := hexact.exists_number
    cases hn
    obtain rfl : n = zero := Number.ext (hm.trans h)
    change Expr.number <$> ns.foldlM mulStep zero = _
    rw [foldlM_mulStep_zero]

/-! ## Main theorem -/

/-- Sums, differences and products are exact or overflow, and they overflow as soon as an integer on
the way is out of range. Without arguments there is nothing to subtract from. The order of sums and
products matters for nothing else: two orders that both have a result have the same one, and for a
sum of numbers of one sign the order does not matter at all. A product stays zero once it is. An
argument that is no number is an error before all others. -/
theorem exact_or_overflow :
    (∀ ns, Exact "add" (∀ before, before <+: ns → InRange (total before)) (total ns)
      (add (ns.map .number))) ∧
    (∀ ns, Exact "mul" (∀ before, before <+: ns → InRange (product before)) (product ns)
      (mul (ns.map .number))) ∧
    (∀ a ns, Exact "sub" (∀ before, before <+: ns → InRange (a.val - total before))
      (a.val - total ns) (sub ((a :: ns).map .number))) ∧
    sub [] = .error (.argumentCount "sub" (.atLeast 1) 0) ∧
    (∀ ms ns : List Number, ms.Perm ns → ∀ v w,
      (add (ms.map .number) = .ok v → add (ns.map .number) = .ok w → v = w) ∧
      (mul (ms.map .number) = .ok v → mul (ns.map .number) = .ok w → v = w)) ∧
    (∀ ms : List Number, ((∀ n ∈ ms, 0 ≤ n.val) ∨ ∀ n ∈ ms, n.val ≤ 0) →
      ∀ ns : List Number, ns.Perm ms →
        Exact "add" (InRange (total ms)) (total ms) (add (ns.map .number))) ∧
    (∀ ms ns, product ms = 0 → mul ((ms ++ ns).map .number) = mul (ms.map .number)) ∧
    ∀ arguments, (∃ a ∈ arguments, ¬ Primitive.IsNumber a) →
      add arguments = .error (.argumentType "add") ∧
      sub arguments = .error (.argumentType "sub") ∧
      mul arguments = .error (.argumentType "mul") := by
  refine ⟨exact_add, exact_mul, exact_sub, rfl, ?_, ?_, ?_, ?_⟩
  · intro ms ns hp v w
    exact ⟨eq_of_exact exact_add (hp.map val).sum_eq, eq_of_exact exact_mul (hp.map val).prod_eq⟩
  · intro ms hsign ns hp
    exact exact_add_of_sign hp hsign
  · intro ms ns h
    exact mul_append_of_product_eq_zero h ns
  · intro arguments h
    exact ⟨foldFrom_of_not_isNumber _ _ h _, foldFirst_of_not_isNumber _ _ h,
      foldFrom_of_not_isNumber _ _ h _⟩

/-- The product of the first list is in range, but not that of its first two numbers. -/
theorem exact_or_overflow_extremes :
    mul ([ofInt (-2147483648), ofInt (-1), ofInt (-1)].map .number) =
      .error (.overflow "mul") ∧
    (∃ v, add ([ofInt 1, ofInt (-1), ofInt 2147483647].map .number) = .ok v ∧
      add ([ofInt 2147483647, ofInt (-1), ofInt 1].map .number) = .ok v) ∧
    add ([ofInt 1, ofInt 2147483647].map .number) = .error (.overflow "add") ∧
    mul ([ofInt 0, ofInt (-2147483648), ofInt (-1)].map .number) =
      .ok (.number (ofInt 0)) ∧
    add [.number (ofInt 2147483647), .number (ofInt 1), .void] =
      .error (.argumentType "add") := by
  obtain ⟨-, hmul, -, -, horder, hsign, hzero, htype⟩ := exact_or_overflow
  refine ⟨?_, ?_, ?_, ?_, ?_⟩
  · rcases hmul [ofInt (-2147483648), ofInt (-1), ofInt (-1)] with ⟨hfits, -⟩ | ⟨-, h⟩
    · exact absurd (hfits [ofInt (-2147483648), ofInt (-1)] ⟨[_], rfl⟩) (by decide)
    · exact h
  · obtain ⟨v, hv⟩ : ∃ v, add ([ofInt 1, ofInt (-1), ofInt 2147483647].map .number) =
        .ok v := ⟨_, rfl⟩
    obtain ⟨w, hw⟩ : ∃ w, add ([ofInt 2147483647, ofInt (-1), ofInt 1].map .number) =
        .ok w := ⟨_, rfl⟩
    obtain rfl := (horder _ _ (by decide) v w).1 hv hw
    exact ⟨v, hv, hw⟩
  · rcases hsign [ofInt 2147483647, ofInt 1] (.inl (by decide)) _ (List.Perm.swap _ _ _) with
      ⟨hfits, -⟩ | ⟨-, h⟩
    · exact absurd hfits (by decide)
    · exact h
  · exact hzero [ofInt 0] [ofInt (-2147483648), ofInt (-1)] rfl
  · exact (htype _ ⟨.void, by simp, by rintro ⟨n, h⟩; cases h⟩).1

end Lisplet.Fold
