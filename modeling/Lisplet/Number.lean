import Lisplet.Text.Decimal
/-!
# Numbers

The language's numbers are the integers of 32 bits with a sign. An operation whose exact result
does not fit has no result: nothing wraps around.
-/

namespace Lisplet

/-- The least number, -2^31. -/
def Number.least : Int := -2147483648

/-- The greatest number, 2^31 - 1. -/
def Number.greatest : Int := 2147483647

structure Number where
  val : Int
  least_le : Number.least ≤ val
  le_greatest : val ≤ Number.greatest
deriving DecidableEq

namespace Number

def InRange (i : Int) : Prop := least ≤ i ∧ i ≤ greatest

instance (i : Int) : Decidable (InRange i) := inferInstanceAs (Decidable (_ ∧ _))

/-- The number with a value that is in range. -/
def ofInt (i : Int) (h : InRange i := by decide) : Number := ⟨i, h.1, h.2⟩

def ofInt? (i : Int) : Option Number := if h : InRange i then some (ofInt i h) else none

def zero : Number := ⟨0, by decide, by decide⟩

def one : Number := ⟨1, by decide, by decide⟩

instance : Inhabited Number := ⟨zero⟩

def ofBool (b : Bool) : Number := if b then one else zero

/-- Every number but zero counts as true. -/
def isTrue (n : Number) : Bool := n.val ≠ 0

@[simp] theorem isTrue_ofBool (b : Bool) : (ofBool b).isTrue = b := by
  cases b <;> rfl

theorem ext {m n : Number} (h : m.val = n.val) : m = n := by
  cases m; cases n; simp_all

theorem inRange (n : Number) : InRange n.val := ⟨n.least_le, n.le_greatest⟩

theorem ofInt?_eq_some_iff {i : Int} {n : Number} : ofInt? i = some n ↔ n.val = i := by
  unfold ofInt?
  split
  · simp only [Option.some.injEq]
    exact ⟨fun h => h ▸ rfl, fun h => ext h.symm⟩
  · next h =>
    simp only [reduceCtorEq, false_iff]
    exact fun hn => h (hn ▸ n.inRange)

theorem ofInt?_eq_none_iff {i : Int} : ofInt? i = none ↔ ¬ InRange i := by
  unfold ofInt?
  split <;> simp_all

@[simp] theorem ofInt?_val (n : Number) : ofInt? n.val = some n :=
  ofInt?_eq_some_iff.2 rfl

/-! ## Text -/

def text (n : Number) : String := Text.Decimal.ofInt n.val

/-- Reads a decimal integer; fails on other text and on integers out of range. -/
def parse? (text : String) : Option Number := (Text.Decimal.toInt? text).bind ofInt?

theorem parse?_text (n : Number) : parse? n.text = some n := by
  simp [parse?, text, Text.Decimal.toInt?_ofInt]

/-! ## Exact arithmetic -/

def add? (a b : Number) : Option Number := ofInt? (a.val + b.val)

def sub? (a b : Number) : Option Number := ofInt? (a.val - b.val)

def mul? (a b : Number) : Option Number := ofInt? (a.val * b.val)

/-- The quotient by a divisor that is not zero, rounded toward zero. -/
def quot? (a b : Number) : Option Number := ofInt? (a.val.tdiv b.val)

/-- The remainder that belongs to `quot?`: it has the sign of `a`, and exists only where the
quotient does. -/
def rem? (a b : Number) : Option Number := (quot? a b).bind fun _ => ofInt? (a.val.tmod b.val)

end Number

end Lisplet
