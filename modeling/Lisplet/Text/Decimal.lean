/-!
# Integers in decimal notation

`ofInt` writes an integer with the fewest digits and a `-` only below zero. `toInt?` reads an
optional sign and one or more ASCII digits, leading zeros included, so it reads back whatever
`ofInt` writes (`toInt?_ofInt`).
-/

namespace Lisplet.Text.Decimal

def ofNat (n : Nat) : String := String.ofList (Nat.toDigits 10 n)

def ofInt : Int → String
  | .ofNat n => ofNat n
  | .negSucc n => "-" ++ ofNat (n + 1)

/-- The value of a non-empty run of ASCII digits. -/
def toNat? (digits : List Char) : Option Nat :=
  if digits ≠ [] ∧ digits.all Char.isDigit then some (Nat.ofDigitChars 10 digits 0) else none

def toInt? (text : String) : Option Int :=
  match text.toList with
  | '-' :: digits => (toNat? digits).map fun n => -(n : Int)
  | '+' :: digits => (toNat? digits).map Int.ofNat
  | digits => (toNat? digits).map Int.ofNat

/-! ## Reading back what was written -/

theorem all_isDigit_toDigits (n : Nat) : (Nat.toDigits 10 n).all Char.isDigit = true := by
  simpa using fun c hc => Nat.isDigit_of_mem_toDigits (by omega) (by omega) hc

theorem toNat?_toDigits (n : Nat) : toNat? (Nat.toDigits 10 n) = some n := by
  have hne : Nat.toDigits 10 n ≠ [] := Nat.toDigits_ne_nil
  simp [toNat?, hne, all_isDigit_toDigits, Nat.ofDigitChars_toDigits]

/-- Without a sign the whole text is the run of digits. -/
theorem toInt?_of_all_isDigit {text : String} (h : text.toList.all Char.isDigit = true) :
    toInt? text = (toNat? text.toList).map Int.ofNat := by
  unfold toInt?
  split
  · next hs => exact absurd (hs ▸ h) (by simp)
  · next hs => exact absurd (hs ▸ h) (by simp)
  · rfl

theorem toInt?_ofInt (i : Int) : toInt? (ofInt i) = some i := by
  cases i with
  | ofNat n =>
    have hl : (ofInt (.ofNat n)).toList = Nat.toDigits 10 n := String.toList_ofList
    rw [toInt?_of_all_isDigit (hl ▸ all_isDigit_toDigits n), hl, toNat?_toDigits]
    rfl
  | negSucc n =>
    have hl : (ofInt (.negSucc n)).toList = '-' :: Nat.toDigits 10 (n + 1) := by
      simp [ofInt, ofNat]
    simp only [toInt?, hl, toNat?_toDigits]
    rfl

end Lisplet.Text.Decimal
