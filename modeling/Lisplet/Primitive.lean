import Lisplet.Primitive.Chain
import Lisplet.Primitive.Choice
import Lisplet.Primitive.Fold
import Lisplet.Primitive.Truth
/-!
# What the primitives return
-/

namespace Lisplet

/-- The result of a primitive on evaluated arguments. It depends on nothing else. -/
def Primitive.result (p : Primitive) (arguments : List Expr) : Except RuntimeError Expr :=
  match p with
  | .add => Fold.add arguments
  | .sub => Fold.sub arguments
  | .mul => Fold.mul arguments
  | .div => Fold.div arguments
  | .mod => Fold.mod arguments
  | .print => .ok .void
  | .batch => .ok (Choice.last arguments)
  | .if => Choice.branch arguments
  | .not => Truth.not arguments
  | .and => Truth.and arguments
  | .or => Truth.or arguments
  | .xor => Truth.xor arguments
  | .equal => Chain.compare p.name .equal arguments
  | .notEqual => Chain.compare p.name .notEqual arguments
  | .greater => Chain.compare p.name .greater arguments
  | .greaterOrEqual => Chain.compare p.name .greaterOrEqual arguments
  | .less => Chain.compare p.name .less arguments
  | .lessOrEqual => Chain.compare p.name .lessOrEqual arguments

end Lisplet
