import Switching.CommandLine.Basic

/-!
# The program

`main` reads the file that the arguments name, runs it, and asks on the terminal for the bits that
it needs.
-/

namespace Switching

/-- The source text in a file. -/
def readSource (path : String) : IO (Except FileError String) := do
  try
    return sourceOfBytes (← IO.FS.readBinFile path).toList
  catch e =>
    match e with
    | .noFileOrDirectory .. => return .error .missing
    | e => return .error (.other (toString e))

/-- Asks on the terminal until a line says a bit. -/
partial def askBit (stdin stderr : IO.FS.Stream) (prompt : String) : IO Reply := do
  stderr.putStr (LineReader.question prompt)
  stderr.flush
  let line ← try stdin.getLine catch _ => return .error .cancelled
  if line.isEmpty then return .error .cancelled
  match Line.content line.toUTF8.toList with
  | .bit b => return .ok b
  | .other => askBit stdin stderr prompt
  | .malformed => return .error .cancelled

/-- The result of a dialogue with the person at the terminal. -/
def Dialogue.perform {α : Type} (stdin stderr : IO.FS.Stream) : Dialogue α → IO α
  | .done a => return a
  | .ask prompt next => do (next (← askBit stdin stderr prompt)).perform stdin stderr

/-- Prints an outcome and gives its exit status. -/
def Outcome.finish (o : Outcome) : IO UInt32 := do
  (← IO.getStdout).putStr o.stdout
  (← IO.getStderr).putStr o.stderr
  return o.status.toUInt32

def command (args : List String) : IO UInt32 := do
  match Arguments.parse? args with
  | none => usageError.finish
  | some .version => versionOutcome.finish
  | some (.run o) =>
    let file ← readSource o.file
    (← (o.start file).perform (← IO.getStdin) (← IO.getStderr)).finish

end Switching

def main (args : List String) : IO UInt32 := Switching.command args
