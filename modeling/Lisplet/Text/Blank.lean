import Lisplet.Text.Ranges
/-!
# Blank characters

What separates words: the control characters from tab to carriage return, the spaces, and the
line and paragraph separators.
-/

namespace Lisplet.Text

def blankRanges : Ranges :=
  [(0x9, 0xD), (0x20, 0x20), (0x85, 0x85), (0xA0, 0xA0), (0x1680, 0x1680), (0x2000, 0x200A),
   (0x2028, 0x2029), (0x202F, 0x202F), (0x205F, 0x205F), (0x3000, 0x3000)]

def isBlank (c : Char) : Bool := blankRanges.covers c

end Lisplet.Text
