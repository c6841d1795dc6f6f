import Lisplet.Token
/-!
# What can be wrong with a source text
-/

namespace Lisplet

inductive SourceError where
  /-- No token starts with this character. -/
  | unexpectedCharacter (character : Char) (line : Nat)
  /-- No expression starts with this token. -/
  | unexpectedToken (token : Token)
  /-- An expression that starts on this line is never completed. -/
  | unexpectedEnd (line : Nat)
  /-- The text is no integer, or one out of range. -/
  | invalidNumber (text : String) (line : Nat)
  /-- The header of the definition that starts on this line is malformed. -/
  | invalidDefinition (line : Nat)
  | emptyProgram
deriving DecidableEq

namespace SourceError

/-- Whether more tokens may turn the failure into a success. Inside a window that is still
growing, a stray `)` may be the end of an outer form. -/
def isOpen : SourceError → Bool
  | unexpectedToken _ | unexpectedEnd _ => true
  | _ => false

def onLine (line : Nat) (text : String) : String :=
  "Error on line " ++ Text.Decimal.ofNat line ++ ": " ++ text

def message : SourceError → String
  | unexpectedCharacter character line =>
    onLine line ("Unexpected character: \"" ++ character.toString ++ "\".")
  | unexpectedToken token => onLine token.line ("Unexpected token: " ++ token.describe ++ ".")
  | unexpectedEnd line => onLine line "Unexpected end of source code."
  | invalidNumber text line => onLine line ("Invalid number literal \"" ++ text ++ "\".")
  | invalidDefinition line =>
    onLine line "Invalid function definition syntax. Example: (function square (x) (mul x x))"
  | emptyProgram => "The program contains no expressions."

end SourceError

end Lisplet
