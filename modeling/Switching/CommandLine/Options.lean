import Switching.Bits

/-!
# Command line arguments

* `Options`: what the arguments of one run ask for.
* `Task`: a run, or the version.
* `Arguments.parse?`: reads arguments from left to right; nothing if they are not well formed.
-/

namespace Switching

/-- What the arguments ask for. -/
structure Options where
  file : String
  inline : Bool
  separator : String
  maxDepth : Nat
  check : Bool
  verbosity : Nat

inductive Task where
  | version
  | run (options : Options)

/-- The arguments read so far. -/
structure Arguments where
  file? : Option String := none
  inline : Bool := false
  separator? : Option String := none
  maxDepth? : Option Nat := none
  check : Bool := false
  verbosity : Nat := 0

namespace Arguments

/-! ## Values -/

/-- The number that a text writes in decimal digits, after a plus sign or not; it has to fit into
a word. -/
def number? (text : String) : Option Nat :=
  let digits := match text.toList with
    | '+' :: rest => rest
    | all => all
  if !digits.isEmpty && digits.all Char.isDigit then
    let n := digits.foldl (fun n c => 10 * n + (c.toNat - '0'.toNat)) 0
    if n < Bits.count Bits.wordSize then some n else none
  else none

/-- A file, of which there is one and whose name is not empty. -/
def setFile? (a : Arguments) (name : String) : Option Arguments :=
  if a.file?.isSome || name.isEmpty then none else some { a with file? := some name }

def setFlag? (a : Arguments) (name : String) : Option Arguments :=
  match name with
  | "inline" => if a.inline then none else some { a with inline := true }
  | "check" => if a.check then none else some { a with check := true }
  | "verbose" => some { a with verbosity := a.verbosity + 1 }
  | _ => none

def setValue? (a : Arguments) (name value : String) : Option Arguments :=
  match name with
  | "separator" =>
    if a.separator?.isSome then none else some { a with separator? := some value }
  | "max-depth" =>
    if a.maxDepth?.isSome then none
    else (number? value).map fun n => { a with maxDepth? := some n }
  | _ => none

def takesValue (name : String) : Bool := name = "separator" || name = "max-depth"

/-- What a group of letters after one dash asks for: `v` counts, and `V` is the version, whatever
follows it. -/
def letters? (a : Arguments) : List Char → Option (Sum Unit Arguments)
  | [] => some (.inr a)
  | 'v' :: cs => letters? { a with verbosity := a.verbosity + 1 } cs
  | 'V' :: _ => some (.inl ())
  | _ :: _ => none

/-! ## Arguments -/

/-- The run that the arguments ask for. -/
def options? (a : Arguments) : Option Options :=
  a.file?.map fun file =>
    ⟨file, a.inline, a.separator?.getD " ", a.maxDepth?.getD 256, a.check, a.verbosity⟩

/-- A value in an argument of its own: it does not look like an option. -/
def isValue (text : String) : Bool := text = "-" || text.toList.head? ≠ some '-'

/-- Reads arguments; after the argument `--` there are only files. -/
def readFrom (a : Arguments) (onlyFiles : Bool) : List String → Option Task
  | [] => a.options?.map .run
  | arg :: rest =>
    match onlyFiles, arg.toList with
    | false, ['-', '-'] => a.readFrom true rest
    | false, '-' :: '-' :: long =>
      let name := String.ofList (long.takeWhile (· ≠ '='))
      match long.dropWhile (· ≠ '=') with
      | _ :: value => do (← a.setValue? name (String.ofList value)).readFrom false rest
      | [] =>
        if name = "version" then some .version
        else if takesValue name then
          match rest with
          | value :: rest =>
            if isValue value then do (← a.setValue? name value).readFrom false rest else none
          | [] => none
        else do (← a.setFlag? name).readFrom false rest
    | false, '-' :: c :: cs => do
      match ← a.letters? (c :: cs) with
      | .inl () => some .version
      | .inr a => a.readFrom false rest
    | _, _ => do (← a.setFile? arg).readFrom onlyFiles rest

/-- What the arguments ask for, if they are well formed. -/
def parse? (args : List String) : Option Task := readFrom {} false args

end Arguments

end Switching
