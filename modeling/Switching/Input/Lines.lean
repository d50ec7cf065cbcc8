import Switching.Bits
import Switching.Input.Dialogue
import Switching.Text.WhiteSpace

/-!
# Replies from lines of text

* `splitLines`: a byte stream as lines, each with its line feed.
* `Line.content`: what a line says: a bit, something else, or no text at all.
* `LineReader`: asks until a line says a bit.
* **`flatten_splitLines`**: the lines are the stream again.
-/

namespace Switching

/-! ## Lines -/

/-- The byte that ends a line. -/
def lineFeed : UInt8 := 10

/-- The lines of a byte stream. Each goes up to and including a line feed; the last may lack it. -/
def splitLines : List UInt8 → List (List UInt8)
  | [] => []
  | b :: bs =>
    if b = lineFeed then [b] :: splitLines bs
    else
      match splitLines bs with
      | [] => [[b]]
      | l :: ls => (b :: l) :: ls

theorem flatten_splitLines (bs : List UInt8) : (splitLines bs).flatten = bs := by
  induction bs with
  | nil => rfl
  | cons b bs ih =>
    simp only [splitLines]
    split
    · simp [ih]
    · split <;> rename_i h <;> simp [h] at ih <;> simp [← ih]

namespace Line

/-- What a line says. -/
inductive Content where
  /-- A bit, with nothing but white space around it. -/
  | bit (b : Bool)
  /-- Another text. -/
  | other
  /-- Bytes that are not UTF-8. -/
  | malformed
  deriving DecidableEq

def content (line : List UInt8) : Content :=
  match String.fromUTF8? (ByteArray.mk line.toArray) with
  | none => .malformed
  | some s =>
    match trim s.toList with
    | [c] => (Bits.ofDigit? c).elim .other .bit
    | _ => .other

end Line

/-! ## Asking -/

/-- Someone who types lines, and sees what is written. -/
structure LineReader where
  /-- The lines still to come. -/
  lines : List (List UInt8)
  /-- All that has been written so far. -/
  written : String
  /-- Writing works. -/
  canWrite : Bool

namespace LineReader

def ofBytes (bytes : List UInt8) : LineReader := ⟨splitLines bytes, "", true⟩

/-- What is written to ask for a bit. -/
def question (prompt : String) : String := prompt ++ " [0/1]: "

/-- Asks for each line until one says a bit. The end of the lines, or bytes that are no text,
cancel the request. -/
def await (prompt : String) (written : String) : List (List UInt8) → Reply × LineReader
  | [] => (.error .cancelled, ⟨[], written ++ question prompt, true⟩)
  | l :: ls =>
    match Line.content l with
    | .bit b => (.ok b, ⟨ls, written ++ question prompt, true⟩)
    | .other => await prompt (written ++ question prompt) ls
    | .malformed => (.error .cancelled, ⟨ls, written ++ question prompt, true⟩)

instance : Replier LineReader where
  reply r prompt :=
    if r.canWrite then await prompt r.written r.lines else (.error .cancelled, r)

end LineReader

end Switching
