import Lisplet.Text.Decimal
/-!
# How many arguments a function takes
-/

namespace Lisplet

inductive Arity where
  | exactly (count : Nat)
  | atLeast (count : Nat)
deriving DecidableEq

namespace Arity

def accepts : Arity → Nat → Bool
  | exactly count, given => given = count
  | atLeast count, given => count ≤ given

/-- The wording used in error messages. -/
def text : Arity → String
  | exactly count => Text.Decimal.ofNat count
  | atLeast count => "at least " ++ Text.Decimal.ofNat count

end Arity

end Lisplet
