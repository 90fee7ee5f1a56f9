import SqlCompiler.Text.Range

/-!
# Blank characters

The white space characters of Unicode, and text without them at its ends.
-/

namespace SqlCompiler.Text

/-- The white space characters, as ascending ranges of code points. -/
def blankRanges : List Range :=
  [(0x9, 0xd), (0x20, 0x20), (0x85, 0x85), (0xa0, 0xa0), (0x1680, 0x1680), (0x2000, 0x200a),
   (0x2028, 0x2029), (0x202f, 0x202f), (0x205f, 0x205f), (0x3000, 0x3000)]

/-- White space. -/
def isBlank (c : Char) : Bool :=
  inRanges blankRanges c

/-- Text without the white space at its end. -/
def trimEnd (cs : List Char) : List Char :=
  (cs.reverse.dropWhile isBlank).reverse

/-- Text without the white space at either end. -/
def trim (cs : List Char) : List Char :=
  trimEnd (cs.dropWhile isBlank)

end SqlCompiler.Text
