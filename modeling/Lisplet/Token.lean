import Lisplet.Text.Decimal
/-!
# Tokens
-/

namespace Lisplet

inductive TokenKind where
  | openParen
  | closeParen
  | symbol
  | number
  /-- A run of blanks. It separates tokens, and no text yields it as a token. -/
  | whitespace
deriving DecidableEq

structure Token where
  kind : TokenKind
  /-- The characters of a symbol or number; parentheses carry no text. -/
  text : String
  /-- The line on which the token starts, counted from one. -/
  line : Nat
deriving DecidableEq

namespace TokenKind

def all : List TokenKind := [.openParen, .closeParen, .symbol, .number, .whitespace]

def name : TokenKind → String
  | .openParen => "OpenParen"
  | .closeParen => "CloseParen"
  | .symbol => "Symbol"
  | .number => "Number"
  | .whitespace => "Whitespace"

def find? (name : String) : Option TokenKind := all.find? fun k => k.name = name

end TokenKind

namespace Token

/-- How error messages name a token. -/
def describe (t : Token) : String :=
  if t.text = "" then "Token(" ++ t.kind.name ++ ")"
  else "Token(" ++ t.kind.name ++ ", \"" ++ t.text ++ "\")"

/-- The word that opens a function definition. -/
def keyword : String := "function"

def isKeyword (t : Token) : Bool := t.kind = .symbol && t.text = keyword

end Token

end Lisplet
