/-!
# Bytes as text
-/

namespace Lisplet.Text.Utf8

def decode? (bytes : List UInt8) : Option String := String.fromUTF8? ⟨bytes.toArray⟩

/-- Reads the start of a text. A character that is cut off at the end reads as U+FFFD. -/
def decodeStart (bytes : List UInt8) : String :=
  match decode? bytes with
  | some text => text
  | none =>
    let whole := [1, 2, 3].findSome? fun cut => decode? (bytes.take (bytes.length - cut))
    whole.getD "" ++ "\uFFFD"

end Lisplet.Text.Utf8
