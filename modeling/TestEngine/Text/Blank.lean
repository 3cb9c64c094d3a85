import TestEngine.Text.CharSet

/-! Blank characters, and text without the blanks at its ends. -/

namespace TestEngine

/-- The property White_Space. -/
def CharSet.blank : CharSet := [
  (0x9, 0xd), (0x20, 0x20), (0x85, 0x85), (0xa0, 0xa0), (0x1680, 0x1680), (0x2000, 0x200a),
  (0x2028, 0x2029), (0x202f, 0x202f), (0x205f, 0x205f), (0x3000, 0x3000)]

namespace Text

def isBlank (c : Char) : Bool := CharSet.blank.contains c

/-- The characters between the blanks at both ends. -/
def trim (cs : List Char) : List Char :=
  ((cs.dropWhile isBlank).reverse.dropWhile isBlank).reverse

end Text

end TestEngine
