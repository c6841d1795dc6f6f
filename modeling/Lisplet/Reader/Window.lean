import Lisplet.Expr
import Lisplet.SourceError
/-!
# One window of tokens as one expression

A window is a number, a symbol, a call `( callee argument ... )` or a definition
`( function name ( parameter ... ) body )`. What stands between the parentheses is read by a
function `read`, which the reader supplies.
-/

namespace Lisplet.Reader

/-- How a list of tokens is read as consecutive expressions. -/
abbrev Reading := List Token → Except SourceError (List Expr)

/-- Reads tokens that a wider window may still add to: a failure that more tokens could mend is
no answer yet. -/
def inside (read : Reading) (tokens : List Token) : Except SourceError (Option (List Expr)) :=
  match read tokens with
  | .ok expressions => .ok (some expressions)
  | .error e => if e.isOpen then .ok none else .error e

/-- The tokens that follow `(` and precede the `)` at the end of the window. -/
def enclosed? : List Token → Option (List Token)
  | first :: rest =>
    match rest.getLast? with
    | some last =>
      if first.kind = .openParen ∧ last.kind = .closeParen then some rest.dropLast else none
    | none => none
  | [] => none

/-- A window of one token. -/
def atom (t : Token) : Except SourceError (Option Expr) :=
  match t.kind with
  | .number =>
    match Number.parse? t.text with
    | some value => .ok (some (.number value))
    | none => .error (.invalidNumber t.text t.line)
  | .symbol => .ok (some (.symbol t.text))
  | _ => .ok none

/-- A call, from the tokens between its parentheses. -/
def call (read : Reading) (tokens : List Token) : Except SourceError (Option Expr) := do
  match ← inside read tokens with
  | some (callee :: arguments) => return some (.call callee arguments)
  | _ => return none

/-- Splits off the parameter names before the first `)`; there is no answer if the tokens end
first. -/
def parameters (line : Nat) : List Token → Except SourceError (Option (List String × List Token))
  | [] => .ok none
  | t :: rest =>
    match t.kind with
    | .closeParen => .ok (some ([], rest))
    | .symbol => do
      match ← parameters line rest with
      | some (names, body) => return some (t.text :: names, body)
      | none => return none
    | _ => .error (.invalidDefinition line)

/-- A definition that starts on `line`, from the tokens between its keyword and its last
parenthesis. A malformed header is reported once the window could hold a whole definition. -/
def definition (read : Reading) (line : Nat) : List Token → Except SourceError (Option Expr)
  | name :: opening :: rest@(_ :: _ :: _) =>
    if name.kind = .symbol ∧ opening.kind = .openParen then do
      match ← parameters line rest with
      | none => return none
      | some (names, body) =>
        match ← inside read body with
        | some [body] => return some (.function name.text names body)
        | _ => return none
    else .error (.invalidDefinition line)
  | _ => .ok none

/-- Matches a whole window. `none` means that it is no expression, or not yet. -/
def matchWindow (read : Reading) : List Token → Except SourceError (Option Expr)
  | [] => .ok none
  | [t] => atom t
  | first :: second :: rest =>
    match enclosed? (first :: second :: rest) with
    | some (head :: tail) =>
      if head.isKeyword then definition read first.line tail else call read (head :: tail)
    | _ => .ok none

/-! ## Only shorter lists are read -/

theorem length_of_enclosed? {window inner : List Token} (h : enclosed? window = some inner) :
    inner.length + 2 = window.length := by
  unfold enclosed? at h
  split at h
  · next first rest =>
    split at h
    · next last hl =>
      split at h
      · have : rest ≠ [] := by rintro rfl; cases hl
        have := List.length_pos_iff.2 this
        cases h
        simp only [List.length_dropLast, List.length_cons]
        omega
      · cases h
    · cases h
  · cases h

theorem length_of_parameters {line : Nat} {tokens body : List Token} {names : List String}
    (h : parameters line tokens = .ok (some (names, body))) : body.length < tokens.length := by
  induction tokens generalizing names with
  | nil => cases h
  | cons t rest ih =>
    unfold parameters at h
    split at h
    · cases h; simp
    · cases hp : parameters line rest with
      | error e => simp [hp, bind, Except.bind] at h
      | ok found =>
        rcases found with _ | ⟨names', body'⟩
        · simp [hp, bind, Except.bind, pure, Except.pure] at h
        · simp only [hp, bind, Except.bind, pure, Except.pure, Except.ok.injEq, Option.some.injEq,
            Prod.mk.injEq] at h
          obtain ⟨-, rfl⟩ := h
          exact Nat.lt_succ_of_lt (ih hp)
    · cases h

theorem inside_congr {read read' : Reading} {tokens : List Token}
    (h : read tokens = read' tokens) : inside read tokens = inside read' tokens := by
  simp [inside, h]

theorem definition_congr {read read' : Reading} {line : Nat} {tokens : List Token}
    (h : ∀ inner, inner.length < tokens.length → read inner = read' inner) :
    definition read line tokens = definition read' line tokens := by
  unfold definition
  split
  · next name opening t u rest =>
    split
    · cases hp : parameters line (t :: u :: rest) with
      | error e => rfl
      | ok found =>
        rcases found with _ | ⟨names, body⟩
        · rfl
        · have := length_of_parameters hp
          simp only [bind, Except.bind]
          rw [inside_congr (h body (by simp only [List.length_cons] at *; omega))]
    · rfl
  · rfl

/-- The inside of a window is shorter than the window. -/
theorem matchWindow_congr {read read' : Reading} {window : List Token}
    (h : ∀ tokens, tokens.length < window.length → read tokens = read' tokens) :
    matchWindow read window = matchWindow read' window := by
  unfold matchWindow
  split
  · rfl
  · rfl
  · next first second rest =>
    split
    · next head tail he =>
      have hl := length_of_enclosed? he
      simp only [List.length_cons] at hl h
      split
      · exact definition_congr fun inner hi => h inner (by omega)
      · simp only [call, inside_congr (h (head :: tail) (by simp only [List.length_cons]; omega))]
    · rfl

end Lisplet.Reader
