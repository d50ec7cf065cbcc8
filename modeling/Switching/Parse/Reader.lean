import Switching.Source.Span
import Switching.Token.Scan

/-!
# Reading a language one token at a time

* `TokenReader`: a language, given by its states and by what each token makes of a state. A state
  stands for the tokens read so far; `step` refuses a token exactly if no text of the language
  goes on with it.
* `TokenReader.expected`: the kinds of tokens that an error message offers.
* `SyntaxError`: the three ways in which a text can fail, with `SyntaxError.message`.
* `TokenReader.parse`: reads a text. The first bad place decides: a token that cannot follow comes
  before text that is no token.
-/

namespace Switching

/-! ## Errors -/

/-- Why a text is not in a language. -/
inductive SyntaxError where
  /-- No token begins at `offset`. -/
  | invalid (offset : Nat)
  /-- The token cannot follow what stands before it. -/
  | unrecognized (token : Token) (expected : List Terminal)
  /-- The text ends too early; its last token ends at `offset`. -/
  | unfinished (offset : Nat) (expected : List Terminal)

namespace SyntaxError

def offset : SyntaxError → Nat
  | invalid o | unfinished o _ => o
  | unrecognized t _ => t.span.start

/-- Items in a sentence: `A, B or C`. -/
def alternatives : List String → String
  | [] => ""
  | [a] => a
  | [a, b] => a ++ " or " ++ b
  | a :: bs => a ++ ", " ++ alternatives bs

/-- The line of a message that lists what is expected. -/
def expectation (expected : List Terminal) : String :=
  if expected.isEmpty then "" else
    "\nExpected one of " ++ alternatives (expected.map Terminal.label)

def message : SyntaxError → String
  | invalid o => s!"Invalid token at {o}"
  | unrecognized t expected =>
    s!"Unrecognized token `{t.text}` found at {t.span.start}:{t.span.stop}" ++ expectation expected
  | unfinished o expected => s!"Unrecognized EOF found at {o}" ++ expectation expected

def location (e : SyntaxError) (source : String) : Location := Location.ofOffset source e.offset

/-- The error with its place, for a reader. -/
def report (e : SyntaxError) (source : String) : String :=
  let loc := e.location source
  s!"Failed to parse program at line {loc.line}, column {loc.column}: " ++ e.message

end SyntaxError

/-! ## Readers -/

/-- A language with values of type `α`, read token by token through states of type `σ`. -/
structure TokenReader (σ α : Type) where
  /-- The state before the first token. -/
  start : σ
  /-- The state after one more token, unless no text goes on so. -/
  step : σ → Token → Option σ
  /-- The value, if the text may end here. -/
  result? : σ → Option α
  /-- `closed s found t`: in the state `s` the token `found`, or the end of the text as `none`,
  closes what a token of the kind `t` would have continued. -/
  closed : σ → Option Terminal → Terminal → Bool

namespace TokenReader

variable {σ α : Type} (r : TokenReader σ α)

/-- A token of the kind `t` may follow. -/
def accepts (s : σ) (t : Terminal) : Bool := (r.step s ⟨t, "", .none⟩).isSome

/-- The kinds of tokens that a message offers in place of `found`. A token closes what it can close
before it is found to be out of place, so what would have continued that is no longer offered. -/
def expected (s : σ) (found : Option Terminal) : List Terminal :=
  Terminal.all.filter fun t => r.accepts s t && !r.closed s found t

/-- Reads `tokens` from the state `s`; `offset` is the end of the token before them. -/
def readFrom (s : σ) (offset : Nat) (invalid? : Option Nat) : List Token → Except SyntaxError α
  | [] =>
    match invalid? with
    | some o => .error (.invalid o)
    | none => (r.result? s).elim (.error (.unfinished offset (r.expected s none))) .ok
  | t :: ts =>
    match r.step s t with
    | none => .error (.unrecognized t (r.expected s (some t.terminal)))
    | some s' => readFrom s' t.span.stop invalid? ts

def parse (source : String) : Except SyntaxError α :=
  let s := scan source
  r.readFrom r.start 0 s.invalid? s.tokens

end TokenReader

end Switching
