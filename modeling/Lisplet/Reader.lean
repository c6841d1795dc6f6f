import Lisplet.Cursor
import Lisplet.Reader.Window
import Lisplet.Token.Lexer
/-!
# From tokens to expressions

The reader does not descend through a grammar. It widens a window one token at a time and takes
the first window that is an expression. The inside of a pair of parentheses is read in the same
way, so a `)` that belongs to an inner form only makes the window grow.

`readAll_eq` is the equation to reason with: the reader reads the inside of its windows with
itself.
-/

namespace Lisplet.Reader

/-! ## One expression -/

/-- The failure of an expression that starts with `first` and that no window completes. -/
def incomplete (first : Token) : SourceError :=
  if first.kind = .closeParen then .unexpectedToken first else .unexpectedEnd first.line

/-- Tries the windows of `first` and at least `extra` tokens of `rest`, shortest first. Returns
how many tokens of `rest` the last window took, and what came of it. -/
def widen (read : Reading) (first : Token) (rest : List Token) (extra : Nat) :
    Nat × Except SourceError Expr :=
  match matchWindow read (first :: rest.take extra) with
  | .error e => (extra, .error e)
  | .ok (some expression) => (extra, .ok expression)
  | .ok none =>
    if extra < rest.length then widen read first rest (extra + 1)
    else (extra, .error (incomplete first))
termination_by rest.length - extra

/-! ## Consecutive expressions -/

/-- Reads one expression after another; the first failure fails the whole. -/
def sequence (read : Reading) : Reading
  | [] => .ok []
  | first :: rest =>
    match widen read first rest 0 with
    | (_, .error e) => .error e
    | (extra, .ok expression) => do
      let expressions ← sequence read (rest.drop extra)
      return expression :: expressions
termination_by tokens => tokens.length
decreasing_by simp only [List.length_drop, List.length_cons]; omega

/-- Reads parentheses nested up to `depth` deep. -/
def readNested : Nat → Reading
  | 0 => fun _ => .ok []
  | depth + 1 => sequence (readNested depth)

/-- Reads tokens as consecutive expressions. Parentheses are never nested deeper than there are
tokens. -/
def readAll (tokens : List Token) : Except SourceError (List Expr) :=
  readNested tokens.length tokens

/-! ### The reader reads with itself -/

theorem widen_congr {read read' : Reading} {first : Token} {rest : List Token}
    (h : ∀ tokens, tokens.length < rest.length + 1 → read tokens = read' tokens) (extra : Nat) :
    widen read first rest extra = widen read' first rest extra := by
  have hm : ∀ extra, matchWindow read (first :: rest.take extra) =
      matchWindow read' (first :: rest.take extra) := fun extra =>
    matchWindow_congr fun tokens ht => h tokens (Nat.lt_of_lt_of_le ht (by
      simp only [List.length_cons, List.length_take]; omega))
  fun_induction widen read first rest extra with
  | case1 extra e hw => rw [widen, ← hm, hw]
  | case2 extra expression hw => rw [widen, ← hm, hw]
  | case3 extra hw hlt ih =>
    rw [ih]
    symm
    rw [widen, ← hm, hw, if_pos hlt]
  | case4 extra hw hlt => rw [widen, ← hm, hw, if_neg hlt]

theorem sequence_congr {read read' : Reading} {tokens : List Token}
    (h : ∀ inner, inner.length < tokens.length → read inner = read' inner) :
    sequence read tokens = sequence read' tokens := by
  fun_induction sequence read tokens with
  | case1 => rw [sequence]
  | case2 first rest extra e hw =>
    rw [sequence, ← widen_congr (by simpa using h), hw]
  | case3 first rest extra expression hw ih =>
    rw [sequence, ← widen_congr (by simpa using h), hw]
    simp only
    rw [ih fun inner hi => h inner (by simp only [List.length_drop, List.length_cons] at *; omega)]

theorem readNested_eq {depth : Nat} {tokens : List Token} (h : tokens.length ≤ depth) :
    readNested depth tokens = readAll tokens := by
  induction depth using Nat.strongRecOn generalizing tokens with
  | _ depth ih =>
    rcases depth with _ | depth
    · rw [List.length_eq_zero_iff.1 (Nat.le_zero.1 h)]; rfl
    · rcases tokens with _ | ⟨first, rest⟩
      · simp [readNested, readAll, sequence]
      · simp only [readAll, readNested, List.length_cons]
        apply sequence_congr
        intro inner hi
        simp only [List.length_cons] at h hi
        rw [ih depth (by omega) (by omega), ih rest.length (by omega) (by omega)]

theorem readAll_eq (tokens : List Token) : readAll tokens = sequence readAll tokens := by
  rcases tokens with _ | ⟨first, rest⟩
  · simp [readAll, readNested, sequence]
  · exact sequence_congr fun inner hi => readNested_eq (Nat.le_of_lt_succ hi)

/-! ## Programs -/

def readProgram : List Token → Except SourceError Program
  | [] => .error .emptyProgram
  | tokens => readAll tokens

/-- Reads several sources as one program. -/
def load (sources : List String) : Except SourceError Program :=
  Token.tokenizeAll sources >>= readProgram

/-! ## Reading at a cursor -/

/-- Reads the expression that starts at the cursor and leaves the cursor on the last token of
the last window tried. -/
def readExpression (c : Cursor Token) : Except SourceError Expr × Cursor Token :=
  let result := widen readAll c.current c.following 0
  (result.2, c.advance result.1)

/-- Reads expression after expression until one fails or the tokens end. Each comes with the
cursor's position after it. -/
def readSteps (c : Cursor Token) : List (Except SourceError Expr × Nat) :=
  let result := readExpression c
  (result.1, result.2.position) ::
    match result.1, _hn : result.2.next? with
    | .ok _, some next => readSteps next
    | _, _ => []
termination_by c.remaining
decreasing_by exact Nat.lt_of_lt_of_le (Cursor.remaining_next _hn) (Cursor.remaining_advance c _)

end Lisplet.Reader
