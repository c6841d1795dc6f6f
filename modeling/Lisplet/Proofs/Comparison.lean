import Mathlib.Data.List.Chain
import Lisplet.Proofs.Primitives
/-!
# Comparing many numbers

A comparison looks at neighbours only. All relations but `notEqual` are transitive, and then what
holds between neighbours holds between any two numbers in their order: `answers_pairwise`. Reading
the numbers from the other end is the same as comparing by the converse: `compare_converse`.
-/

namespace Lisplet

namespace Relation

/-! ## Relations between integers -/

/-- The relation between integers that the comparison is named for. -/
def between : Relation → Int → Int → Prop
  | .equal => (· = ·)
  | .notEqual => (· ≠ ·)
  | .greater => (· > ·)
  | .greaterOrEqual => (· ≥ ·)
  | .less => (· < ·)
  | .lessOrEqual => (· ≤ ·)

instance (r : Relation) (i j : Int) : Decidable (r.between i j) :=
  match r with
  | .equal => inferInstanceAs (Decidable (i = j))
  | .notEqual => inferInstanceAs (Decidable (i ≠ j))
  | .greater => inferInstanceAs (Decidable (i > j))
  | .greaterOrEqual => inferInstanceAs (Decidable (i ≥ j))
  | .less => inferInstanceAs (Decidable (i < j))
  | .lessOrEqual => inferInstanceAs (Decidable (i ≤ j))

/-- The relation with its sides exchanged. -/
def converse : Relation → Relation
  | .equal => .equal
  | .notEqual => .notEqual
  | .greater => .less
  | .greaterOrEqual => .lessOrEqual
  | .less => .greater
  | .lessOrEqual => .greaterOrEqual

/-- The primitive that compares by the relation. -/
def primitive : Relation → Primitive
  | .equal => .equal
  | .notEqual => .notEqual
  | .greater => .greater
  | .greaterOrEqual => .greaterOrEqual
  | .less => .less
  | .lessOrEqual => .lessOrEqual

theorem holds_iff (r : Relation) (a b : Number) : r.holds a b = true ↔ r.between a.val b.val := by
  cases r <;> simp [holds, between]

theorem between_converse (r : Relation) (i j : Int) : r.converse.between i j ↔ r.between j i := by
  cases r with
  | equal | notEqual => simp only [between, converse, ne_eq, eq_comm]
  | _ => rfl

theorem between_trans {r : Relation} (hr : r ≠ .notEqual) {i j k : Int} (hij : r.between i j)
    (hjk : r.between j k) : r.between i k := by
  cases r with
  | notEqual => contradiction
  | _ =>
    simp only [between] at *
    omega

end Relation

namespace Chain

/-! ## Neighbours -/

theorem neighbours_iff_isChain {α : Type} {r : α → α → Bool} {xs : List α} :
    neighbours r xs = true ↔ xs.IsChain fun a b => r a b = true := by
  fun_induction neighbours r xs with
  | case1 a b rest ih => rw [Bool.and_eq_true, ih, List.isChain_cons_cons]
  | case2 xs hxs =>
    rcases xs with _ | ⟨a, _ | ⟨b, rest⟩⟩
    · simp
    · simp
    · exact absurd rfl (hxs a b rest)

theorem neighbours_holds_iff {r : Relation} {ns : List Number} :
    neighbours r.holds ns = true ↔ (ns.map Number.val).IsChain r.between := by
  rw [neighbours_iff_isChain, List.isChain_map]
  simp only [Relation.holds_iff]

theorem isChain_iff_pairwise {r : Relation} (hr : r ≠ .notEqual) {is : List Int} :
    is.IsChain r.between ↔ is.Pairwise r.between := by
  have : Trans r.between r.between r.between := ⟨Relation.between_trans hr⟩
  exact List.isChain_iff_pairwise

theorem neighbours_converse (r : Relation) (ns : List Number) :
    neighbours r.converse.holds ns.reverse = neighbours r.holds ns := by
  rw [Bool.eq_iff_iff, neighbours_holds_iff, neighbours_holds_iff, List.map_reverse,
    List.isChain_reverse]
  simp only [Relation.between_converse]

/-! ## Arguments -/

/-- The outcome says whether `P`: one if so and zero if not. -/
structure Answers (P : Prop) (outcome : Except RuntimeError Expr) : Prop where
  one_iff : outcome = .ok (.number .one) ↔ P
  zero_iff : outcome = .ok (.number .zero) ↔ ¬ P

theorem answers_ofBool (b : Bool) : Answers (b = true) (.ok (.ofBool b)) := by
  cases b <;> constructor <;> simp [Expr.ofBool, Number.ofBool, Number.one, Number.zero]

theorem compare_map (function : String) (r : Relation) (ns : List Number) :
    compare function r (ns.map .number) = .ok (.ofBool (neighbours r.holds ns)) := by
  unfold compare
  rw [Operand.numbers_map]
  rfl

theorem compare_of_not_isNumber (function : String) (r : Relation) {arguments : List Expr}
    (h : ∃ a ∈ arguments, ¬ Primitive.IsNumber a) :
    compare function r arguments = .error (.argumentType function) := by
  unfold compare
  rw [Operand.numbers_of_not_isNumber function h]
  rfl

theorem answers_isChain (function : String) (r : Relation) (ns : List Number) :
    Answers ((ns.map Number.val).IsChain r.between) (compare function r (ns.map .number)) := by
  rw [compare_map, ← neighbours_holds_iff]
  exact answers_ofBool _

/-- Comparing neighbours by a transitive relation is comparing all numbers. -/
theorem answers_pairwise (function : String) {r : Relation} (hr : r ≠ .notEqual)
    (ns : List Number) :
    Answers ((ns.map Number.val).Pairwise r.between) (compare function r (ns.map .number)) := by
  rw [← isChain_iff_pairwise hr]
  exact answers_isChain function r ns

/-- The converse relation answers the same on the arguments in reverse, and it fails on the same
arguments. -/
theorem compare_converse (function function' : String) (r : Relation) (arguments : List Expr) :
    (∃ value, compare function r arguments = .ok value ∧
      compare function' r.converse arguments.reverse = .ok value) ∨
    compare function r arguments = .error (.argumentType function) ∧
      compare function' r.converse arguments.reverse = .error (.argumentType function') := by
  by_cases h : ∀ a ∈ arguments, Primitive.IsNumber a
  · left
    obtain ⟨ns, rfl⟩ := Operand.exists_map_number h
    refine ⟨_, compare_map function r ns, ?_⟩
    rw [← List.map_reverse, compare_map, neighbours_converse]
  · right
    have hsome : ∃ a ∈ arguments, ¬ Primitive.IsNumber a := by simpa using h
    have hreverse : ∃ a ∈ arguments.reverse, ¬ Primitive.IsNumber a := by simpa using h
    exact ⟨compare_of_not_isNumber _ _ hsome, compare_of_not_isNumber _ _ hreverse⟩

/-- Each comparison but that for inequality says whether its relation holds between any two numbers
in their order. Inequality is asked of neighbours only; it holds of numbers that all differ, but not
only of those. The converse comparison gives the same answer on the arguments in reverse, and fails
on the same arguments. -/
theorem comparison_of_neighbours :
    (∀ r arguments, r.primitive.result arguments = compare r.primitive.name r arguments) ∧
    (∀ r : Relation, r ≠ .notEqual → ∀ function (ns : List Number),
      Answers ((ns.map Number.val).Pairwise r.between) (compare function r (ns.map .number))) ∧
    (∀ function (ns : List Number),
      Answers ((ns.map Number.val).IsChain (· ≠ ·)) (compare function .notEqual (ns.map .number)) ∧
        ((ns.map Number.val).Pairwise (· ≠ ·) →
          compare function .notEqual (ns.map .number) = .ok (.number .one))) ∧
    (∃ ns : List Number, ¬ (ns.map Number.val).Pairwise (· ≠ ·) ∧
      ∀ function, compare function .notEqual (ns.map .number) = .ok (.number .one)) ∧
    ∀ (r : Relation) function function' (arguments : List Expr),
      (∃ value, compare function r arguments = .ok value ∧
        compare function' r.converse arguments.reverse = .ok value) ∨
      compare function r arguments = .error (.argumentType function) ∧
        compare function' r.converse arguments.reverse = .error (.argumentType function') := by
  refine ⟨?_, ?_, ?_, ?_, ?_⟩
  · intro r arguments
    cases r <;> rfl
  · intro r hr function ns
    exact answers_pairwise function hr ns
  · intro function ns
    have hanswer := answers_isChain function .notEqual ns
    exact ⟨hanswer, fun hdistinct => hanswer.one_iff.2 hdistinct.isChain⟩
  · exact ⟨[.one, .zero, .one], by decide, fun _ => rfl⟩
  · intro r function function' arguments
    exact compare_converse function function' r arguments

/-- `(greater 1 0)` holds and `(equal 1 1 0)` does not; `(not_equal 1 0)` holds since the numbers
differ. -/
theorem comparison_of_neighbours_oneZero :
    Primitive.greater.result ([.one, .zero].map .number) = .ok (.number .one) ∧
    Primitive.equal.result ([.one, .one, .zero].map .number) = .ok (.number .zero) ∧
    Primitive.notEqual.result ([.one, .zero].map .number) = .ok (.number .one) := by
  obtain ⟨-, htransitive, hunequal, -⟩ := comparison_of_neighbours
  refine ⟨?_, ?_, ?_⟩
  · exact (htransitive .greater (by decide) "greater" [.one, .zero]).one_iff.2 (by decide)
  · exact (htransitive .equal (by decide) "equal" [.one, .one, .zero]).zero_iff.2 (by decide)
  · exact (hunequal "not_equal" [.one, .zero]).2 (by decide)

end Chain

end Lisplet
