import Switching.Bits
import Switching.Cover.Indices

/-!
# Cubes and implicants

* `Cube`: for each input a fixed bit, or none where it does not matter.
* `Cube.contains`, `Cube.covers`: the patterns and indices in a cube.
* `Cube.merge?`: the union of two cubes that differ in one fixed input.
* `Implicant`: a cube with the indices of a function that it accounts for.
* `Cube.covers?`, `Implicant.ofIndex?`: the same for words, which have patterns of at most as many
  bits as a word.
-/

namespace Switching

/-! ## Cubes -/

/-- For each input, the most significant first, a fixed bit, or none where it does not matter. -/
abbrev Cube := List (Option Bool)

namespace Cube

/-- The cube that holds a single pattern. -/
def ofBits (bits : List Bool) : Cube := bits.map some

/-- The pattern lies in the cube. -/
def contains : Cube → List Bool → Bool
  | x :: c, b :: bits => x.all (· = b) && contains c bits
  | _, _ => true

/-- The pattern of the index lies in the cube. -/
def covers (c : Cube) (index : Nat) : Bool := c.contains (Bits.pattern index c.length)

/-- Whether a cube covers a word, if the word has a pattern of that width. -/
def covers? (c : Cube) (index : Nat) : Option Bool :=
  (Bits.pattern? index c.length).map c.contains

theorem covers?_of_le {c : Cube} (h : c.length ≤ Bits.wordSize) (index : Nat) :
    c.covers? index = some (c.covers index) := by
  rw [covers?, Bits.pattern?_of_le h]
  rfl

theorem covers?_of_lt {c : Cube} (h : Bits.wordSize < c.length) (index : Nat) :
    c.covers? index = none := by
  rw [covers?, Bits.pattern?_of_lt h]
  rfl

def literals (c : Cube) : Nat := c.countP Option.isSome

def ones (c : Cube) : Nat := c.countP (· = some true)

def isUniversal (c : Cube) : Bool := c.all Option.isNone

def symbol : Option Bool → Char
  | none => '-'
  | some b => Bits.digit b

def text (c : Cube) : String := String.ofList (c.map symbol)

/-- The union of two cubes of one width that have the same free inputs and differ in exactly one
fixed input: there it is free as well. -/
def merge? : Cube → Cube → Option Cube
  | some x :: c, some y :: d =>
    if x = y then (merge? c d).map (some x :: ·)
    else if c = d then some (none :: c) else none
  | none :: c, none :: d => (merge? c d).map (none :: ·)
  | _, _ => none

end Cube

/-! ## Implicants -/

/-- A cube with the indices that it accounts for. -/
structure Implicant where
  cube : Cube
  minterms : List Nat
  deriving DecidableEq

namespace Implicant

def ofIndex (index width : Nat) : Implicant := ⟨.ofBits (Bits.pattern index width), [index]⟩

/-- The implicant of a word, if it has a pattern of that width. -/
def ofIndex? (index width : Nat) : Option Implicant :=
  (Bits.pattern? index width).map fun bits => ⟨.ofBits bits, [index]⟩

theorem ofIndex?_of_le {index width : Nat} (h : width ≤ Bits.wordSize) :
    ofIndex? index width = some (ofIndex index width) := by
  rw [ofIndex?, Bits.pattern?_of_le h]
  rfl

theorem ofIndex?_of_lt {index width : Nat} (h : Bits.wordSize < width) :
    ofIndex? index width = none := by
  rw [ofIndex?, Bits.pattern?_of_lt h]
  rfl

/-- The union of two implicants whose cubes differ in one fixed input. -/
def combine? (a b : Implicant) : Option Implicant :=
  (a.cube.merge? b.cube).map (⟨·, Indices.union a.minterms b.minterms⟩)

def literals (p : Implicant) : Nat := p.cube.literals

def totalLiterals : List Implicant → Nat
  | [] => 0
  | p :: ps => p.literals + totalLiterals ps

def text (p : Implicant) : String := p.cube.text

end Implicant

end Switching
