import VimL.Text.CodeRange

namespace VimL.Text

/-!
# White space

The characters with the white-space property, and the four information separators.
-/

def blanks : CodeSet := CodeSet.ofIntervals
  [(0x9, 0xD), (0x1C, 0x20), (0x85, 0x85), (0xA0, 0xA0), (0x1680, 0x1680), (0x2000, 0x200A),
   (0x2028, 0x2029), (0x202F, 0x202F), (0x205F, 0x205F), (0x3000, 0x3000)]

def isBlank (c : Char) : Bool := blanks.contains c.toNat

/-- What is left after the white space at the start. -/
def dropBlanks (text : List Char) : List Char := text.dropWhile isBlank

end VimL.Text
