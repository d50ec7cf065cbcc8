/-!
# Bits and bit patterns

* `Bits.digit`: the character that writes a bit; `Bits.ofDigit?` reads one back.
* `Bits.pattern i w`: the `w` low bits of `i`, most significant first.
* `Bits.count w`: how many patterns of width `w` there are, a power of two.
* `Bits.index`: the number that a list of bits writes, in a 64-bit word.
* `Bits.pattern?`: a pattern read off a word by shifts, which must not overflow.
* `Bits.patterns w`: all patterns of width `w` in counting order.
* **`Bits.length_patterns`**: there are `Bits.count w` of them.
-/

namespace Switching.Bits

/-! ## Digits -/

def digit (b : Bool) : Char := if b then '1' else '0'

def ofDigit? : Char → Option Bool
  | '0' => some false
  | '1' => some true
  | _ => none

theorem ofDigit?_digit (b : Bool) : ofDigit? (digit b) = some b := by cases b <;> rfl

def text (bs : List Bool) : String := String.ofList (bs.map digit)

/-! ## Patterns and indices -/

/-- The `w` low bits of a number, most significant first, as many as there may be. For the bits of a
word see `pattern?`. -/
def pattern (i : Nat) : (w : Nat) → List Bool
  | 0 => []
  | w + 1 => i.testBit w :: pattern i w

@[simp] theorem length_pattern (i w : Nat) : (pattern i w).length = w := by
  induction w with
  | zero => rfl
  | succ w ih => simp [pattern, ih]

/-- The number of patterns of width `w`. -/
def count (w : Nat) : Nat := Nat.pow 2 w

/-- The largest number of bits in an index. -/
def wordSize : Nat := 64

/-- The number that `bs` writes in binary, most significant bit first. Bits shifted past the word
are lost. -/
def index (bs : List Bool) : Nat :=
  bs.foldl (fun i b => 2 * i + b.toNat) 0 % count wordSize

/-- The lowest bit of a word shifted right by `k`. A shift by the size of the word or more
overflows. -/
def shifted? (i k : Nat) : Option Bool := if k < wordSize then some (i.testBit k) else none

/-- The pattern of a word, if no shift overflows. -/
def pattern? (i : Nat) : (w : Nat) → Option (List Bool)
  | 0 => some []
  | w + 1 => do
    let b ← shifted? i w
    return b :: (← pattern? i w)

theorem pattern?_of_le {i w : Nat} (h : w ≤ wordSize) : pattern? i w = some (pattern i w) := by
  induction w with
  | zero => rfl
  | succ w ih => simp [pattern?, pattern, shifted?, ih (Nat.le_of_succ_le h), Nat.lt_of_succ_le h]

theorem pattern?_of_lt {i w : Nat} (h : wordSize < w) : pattern? i w = none := by
  cases w with
  | zero => cases h
  | succ w => simp [pattern?, shifted?, Nat.not_lt.2 (Nat.le_of_lt_succ h)]

/-- All patterns of width `w` in counting order. -/
def patterns (w : Nat) : List (List Bool) := (List.range (count w)).map (pattern · w)

@[simp] theorem length_patterns (w : Nat) : (patterns w).length = count w := by simp [patterns]

end Switching.Bits
