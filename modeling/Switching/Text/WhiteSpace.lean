import Switching.Text.Ranges

/-!
# White space

* `whiteSpace`: the code points with the Unicode property `White_Space`.
* `trim`: a text without the white space around it.
-/

namespace Switching

/-- The code points with the Unicode property `White_Space`. -/
def whiteSpace : Ranges :=
  [(0x9, 0xd), (0x20, 0x20), (0x85, 0x85), (0xa0, 0xa0), (0x1680, 0x1680), (0x2000, 0x200a),
   (0x2028, 0x2029), (0x202f, 0x202f), (0x205f, 0x205f), (0x3000, 0x3000)]

theorem isAscending_whiteSpace : whiteSpace.isAscending := by decide

def isWhiteSpace (c : Char) : Bool := whiteSpace.contains c.toNat

/-- A text without the white space at both its ends. -/
def trim (cs : List Char) : List Char :=
  ((cs.dropWhile isWhiteSpace).reverse.dropWhile isWhiteSpace).reverse

end Switching
