import Lisplet.SourceError
import Lisplet.Text.Blank
import Lisplet.Text.Digit
import Lisplet.Text.Letter
/-!
# From text to tokens

The first character of a lexeme decides its kind, and the kind decides which characters
continue it. A lexeme is as long as possible. Runs of blanks separate lexemes, and the newlines
in them count lines.
-/

namespace Lisplet

open Text

/-! ## Lexemes -/

namespace TokenKind

def startsSymbol (c : Char) : Bool := c = '_' || isLetter c

def continuesSymbol (c : Char) : Bool := startsSymbol c || isDecimalDigit c

/-- The kind of a lexeme that starts with `c`. A lone `-` is lexed as a number too. -/
def ofFirst? (c : Char) : Option TokenKind :=
  if isBlank c then some .whitespace
  else if c = '(' then some .openParen
  else if c = ')' then some .closeParen
  else if startsSymbol c then some .symbol
  else if c = '-' || c.isDigit then some .number
  else none

/-- Whether `c` continues a lexeme of this kind. -/
def continues : TokenKind → Char → Bool
  | .openParen, _ | .closeParen, _ => false
  | .symbol, c => continuesSymbol c
  | .number, c => c.isDigit
  | .whitespace, c => isBlank c

/-- The text that a token keeps of its lexeme. -/
def keep : TokenKind → List Char → String
  | .openParen, _ | .closeParen, _ => ""
  | _, lexeme => String.ofList lexeme

end TokenKind

/-! ## The scan -/

namespace Token

theorem length_dropWhile_lt {c : Char} {rest : List Char} (p : Char → Bool) :
    (rest.dropWhile p).length < (c :: rest).length :=
  Nat.lt_succ_of_le (List.dropWhile_suffix p).length_le

/-- The tokens of a text whose first character is on line `line`. -/
def scan (line : Nat) : List Char → Except SourceError (List Token)
  | [] => .ok []
  | c :: rest =>
    match TokenKind.ofFirst? c with
    | none => .error (.unexpectedCharacter c line)
    | some kind =>
      let lexeme := c :: rest.takeWhile kind.continues
      if kind = .whitespace then
        scan (line + lexeme.count '\n') (rest.dropWhile kind.continues)
      else do
        let tokens ← scan line (rest.dropWhile kind.continues)
        return ⟨kind, kind.keep lexeme, line⟩ :: tokens
termination_by text => text.length
decreasing_by all_goals exact length_dropWhile_lt _

def tokenize (source : String) : Except SourceError (List Token) := scan 1 source.toList

/-- The tokens of several sources in a row. Each source counts its lines from one, and nothing
marks where one ends: a form may start in one source and end in the next. -/
def tokenizeAll (sources : List String) : Except SourceError (List Token) :=
  return (← sources.mapM tokenize).flatten

end Token

end Lisplet
