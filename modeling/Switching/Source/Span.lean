/-!
# Places in a source text

* `Span`: a stretch of a source text between two byte offsets; `Span.merge` is the least span
  around two.
* `Location`: a line and a column, both counted from one.
* `Location.ofOffset`: the location of a byte offset in a text.
-/

namespace Switching

/-! ## Spans -/

/-- The stretch of a source text from the byte offset `start` up to `stop`. -/
structure Span where
  start : Nat
  stop : Nat
  deriving DecidableEq, Inhabited

namespace Span

/-- The span of text that no source holds. -/
def none : Span := ⟨0, 0⟩

/-- The least span around both. -/
def merge (a b : Span) : Span := ⟨min a.start b.start, max a.stop b.stop⟩

theorem merge_comm (a b : Span) : a.merge b = b.merge a := by
  simp [merge, Nat.min_comm, Nat.max_comm]

theorem merge_assoc (a b c : Span) : (a.merge b).merge c = a.merge (b.merge c) := by
  simp [merge, Nat.min_assoc, Nat.max_assoc]

@[simp] theorem merge_self (a : Span) : a.merge a = a := by simp [merge]

end Span

/-! ## Lines and columns -/

/-- A place in a text as a reader counts it: lines and columns start at one. -/
structure Location where
  line : Nat
  column : Nat
  deriving DecidableEq

namespace Location

def first : Location := ⟨1, 1⟩

/-- The place after the character `c`: a newline starts a line. -/
def advance (loc : Location) (c : Char) : Location :=
  if c = '\n' then ⟨loc.line + 1, 1⟩ else ⟨loc.line, loc.column + 1⟩

/-- The place `offset` bytes further on in `cs`, at most its end. -/
def ahead (offset : Nat) (loc : Location) : List Char → Location
  | [] => loc
  | c :: cs => if offset < c.utf8Size then loc else ahead (offset - c.utf8Size) (loc.advance c) cs

/-- The place of a byte offset in `source`. An offset past the end counts as the end. -/
def ofOffset (source : String) (offset : Nat) : Location := ahead offset first source.toList

end Location

end Switching
