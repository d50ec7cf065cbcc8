import Switching.Token.Basic

/-!
# Scanning

* `skipTrivia`: leaves out blanks and comments.
* `munch?`: the longest token at the head of a text. The kinds of tokens differ in their first
  characters, so the longest one is found by taking as many characters as its kind admits.
* `scan`: the tokens of a text, up to the first offset where there is none.
* **`Munch.append_rest`**: a token and what follows it are the text again.
-/

namespace Switching

/-! ## Character classes -/

/-- Characters that separate tokens. -/
def isBlank (c : Char) : Bool := c = ' ' || c = '\t' || c = '\r' || c = '\n'

/-- Characters that end a comment. -/
def isLineBreak (c : Char) : Bool := c = '\n' || c = '\r'

/-- The digits of a binary literal. -/
def isBinaryDigit (c : Char) : Bool := c = '0' || c = '1'

/-- Characters that begin a word: the letters of ASCII and the underscore. -/
def isWordStart (c : Char) : Bool := c.isAlpha || c = '_'

/-- Characters that continue a word. -/
def isWordPart (c : Char) : Bool := c.isAlphanum || c = '_'

def byteLength : List Char → Nat
  | [] => 0
  | c :: cs => c.utf8Size + byteLength cs

/-! ## Trivia -/

/-- Skips blanks and comments at the head of a text that begins at `offset`: what remains, and its
offset. A comment goes from two slashes to the end of the line. -/
def skipTrivia (inComment : Bool) (offset : Nat) : List Char → Nat × List Char
  | [] => (offset, [])
  | c :: cs =>
    if inComment then skipTrivia (!isLineBreak c) (offset + c.utf8Size) cs
    else if isBlank c then skipTrivia false (offset + c.utf8Size) cs
    else if c = '/' && cs.head? = some '/' then skipTrivia true (offset + c.utf8Size) cs
    else (offset, c :: cs)

theorem length_skipTrivia_le (k : Bool) (o : Nat) (cs : List Char) :
    (skipTrivia k o cs).2.length ≤ cs.length := by
  induction cs generalizing k o with
  | nil => simp [skipTrivia]
  | cons c cs ih =>
    simp only [skipTrivia]
    split
    · exact Nat.le_succ_of_le (ih ..)
    split
    · exact Nat.le_succ_of_le (ih ..)
    split
    · exact Nat.le_succ_of_le (ih ..)
    · exact Nat.le_refl _

/-! ## One token -/

/-- A token at the head of a text: its kind, its characters, and what follows them. -/
structure Munch where
  terminal : Terminal
  chars : List Char
  rest : List Char

/-- The longest token at the head of a text. -/
def munch? : List Char → Option Munch
  | [] => none
  | c :: cs =>
    match Terminal.ofMark? c with
    | some t => some ⟨t, [c], cs⟩
    | none =>
      if c = '"' then
        match cs.dropWhile (· ≠ '"') with
        | [] => none
        | q :: rest => some ⟨.string, c :: cs.takeWhile (· ≠ '"') ++ [q], rest⟩
      else if isBinaryDigit c then
        some ⟨.digits, c :: cs.takeWhile isBinaryDigit, cs.dropWhile isBinaryDigit⟩
      else if isWordStart c then
        some ⟨.ofWord (String.ofList (c :: cs.takeWhile isWordPart)),
          c :: cs.takeWhile isWordPart, cs.dropWhile isWordPart⟩
      else none

/-- A token and what follows it are the text again. -/
theorem Munch.append_rest {cs : List Char} {m : Munch} (h : munch? cs = some m) :
    m.chars ++ m.rest = cs := by
  cases cs with
  | nil => simp [munch?] at h
  | cons c cs =>
    simp only [munch?] at h
    split at h
    · cases h; rfl
    split at h
    · split at h
      · cases h
      · rename_i hq
        cases h
        simp only [List.cons_append, List.append_assoc, List.nil_append, ← hq]
        rw [List.takeWhile_append_dropWhile]
    split at h
    · cases h; simp
    split at h
    · cases h; simp
    · cases h

/-- A token is not empty. -/
theorem Munch.chars_ne_nil {cs : List Char} {m : Munch} (h : munch? cs = some m) :
    m.chars ≠ [] := by
  cases cs with
  | nil => simp [munch?] at h
  | cons c cs =>
    simp only [munch?] at h
    split at h
    · cases h; simp
    split at h
    · split at h <;> cases h
      simp
    split at h
    · cases h; simp
    split at h <;> cases h
    simp

theorem Munch.length_rest_lt {cs : List Char} {m : Munch} (h : munch? cs = some m) :
    m.rest.length < cs.length := by
  have := congrArg List.length (append_rest h)
  have := List.length_pos_iff.2 (chars_ne_nil h)
  simp at *
  omega

/-! ## All tokens -/

/-- The tokens of a text, and the offset at which the rest of it begins with no token, if there
is one. -/
structure Scan where
  tokens : List Token
  invalid? : Option Nat

/-- Scans a text that begins at `offset`. -/
def scanFrom (offset : Nat) (cs : List Char) : Scan :=
  let trivia := skipTrivia false offset cs
  match _h : munch? trivia.2 with
  | none => ⟨[], if trivia.2.isEmpty then none else some trivia.1⟩
  | some m =>
    let stop := trivia.1 + byteLength m.chars
    let s := scanFrom stop m.rest
    ⟨⟨m.terminal, String.ofList m.chars, ⟨trivia.1, stop⟩⟩ :: s.tokens, s.invalid?⟩
  termination_by cs.length
  decreasing_by
    exact Nat.lt_of_lt_of_le (Munch.length_rest_lt _h) (length_skipTrivia_le ..)

def scan (source : String) : Scan := scanFrom 0 source.toList

end Switching
