import Switching.Text.DefaultIgnorable
import Switching.Text.GraphemeExtend
import Switching.Text.NonGraphic

/-!
# Quoted text

* `Quoted.isPlain`: the characters that stand for themselves between quotes.
* `Quoted.escape`: how a character is written between quotes.
* `Quoted.text`: a text in quotes, on one line, each of whose characters can be told apart.
-/

namespace Switching.Quoted

/-- The halfwidth sound marks. They extend the character before them, but are letters and stand in
a place of their own. -/
def halfwidthMarks : Ranges := [(0xff9e, 0xff9f)]

/-- The character is drawn on the one before it. -/
def isAttached (c : Char) : Bool :=
  graphemeExtend.contains c.toNat && !halfwidthMarks.contains c.toNat

/-- Nothing of the character is seen: it is not graphic, or drawn as nothing. -/
def isInvisible (c : Char) : Bool :=
  nonGraphic.contains c.toNat || defaultIgnorable.contains c.toNat

/-- The character has a form of its own to be seen. So has the blank. -/
def isPlain (c : Char) : Bool := c = ' ' || !(isAttached c || isInvisible c)

/-- How a character is written between quotes. Quotes, backslashes and what is not plain are
escaped, the last by their number in hexadecimal where they have no letter of their own. -/
def escape (c : Char) : List Char :=
  match c with
  | '"' => ['\\', '"']
  | '\\' => ['\\', '\\']
  | '\x00' => ['\\', '0']
  | '\t' => ['\\', 't']
  | '\r' => ['\\', 'r']
  | '\n' => ['\\', 'n']
  | c =>
    if isPlain c then [c]
    else ['\\', 'u', '\x7b'] ++ Nat.toDigits 16 c.toNat ++ ['\x7d']

def text (s : String) : String := String.ofList ('"' :: s.toList.flatMap escape ++ ['"'])

end Switching.Quoted
