import Switching.CommandLine.Options
import Switching.Engine.Source
import Switching.Input.Lines

/-!
# The command line

* `Outcome`: what a command leaves behind: an exit status and two texts.
* `Options.report`: what a run of a file prints, once it is known how the run went.
* `runCommand`: a command on given files and a given standard input.
-/

namespace Switching

/-- What a command leaves behind. -/
structure Outcome where
  status : UInt8
  stdout : String
  stderr : String

/-- Units of output, each on lines of its own. -/
def unitLines (units : List String) : String := String.join (units.map (· ++ "\n"))

namespace Options

def config (o : Options) : Config :=
  { maxCallDepth := o.maxDepth, inlineCalls := o.inline, printSeparator := o.separator }

/-- What is printed about a file that cannot be read. -/
def unreadable (o : Options) (e : FileError) : Outcome :=
  ⟨1, "", s!"Error reading program file '{o.file}': {e.message}\n"⟩

/-- What is printed about a file that is no program. -/
def malformed (o : Options) (source : String) (e : SyntaxError) : Outcome :=
  ⟨1, "", o.file ++ ": " ++ e.report source ++ "\n"⟩

def report (o : Options) (source : String) : Except ExecutionError (List String) → Outcome
  | .ok units => ⟨0, unitLines units, ""⟩
  | .error e =>
    let loc := Location.ofOffset source e.span.start
    ⟨1, unitLines e.output,
      s!"{o.file}:{loc.line}:{loc.column}: error: " ++ e.message ++ "\n"⟩

/-- What becomes of a file: it is printed back, or run. -/
def start (o : Options) (file : Except FileError String) : Dialogue Outcome :=
  match file with
  | .error e => return o.unreadable e
  | .ok source =>
    match Program.parse source with
    | .error e => return o.malformed source e
    | .ok p => do
      if o.check then return ⟨0, Program.text p, ""⟩
      return o.report source (← (Engine.fresh o.config).run p).1

end Options

def versionOutcome : Outcome := ⟨0, "bitlogic 0.1.0\n", ""⟩

/-- The outcome of arguments that are not well formed. -/
def usageError : Outcome := ⟨2, "", "usage: bitlogic [OPTIONS] FILE\n"⟩

/-- The outcome of a command, where `read` gives the files and `stdin` the standard input. Prompts
go to the standard error output. -/
def runCommand (args : List String) (read : String → Except FileError String)
    (stdin : List UInt8) : Outcome :=
  match Arguments.parse? args with
  | none => usageError
  | some .version => versionOutcome
  | some (.run o) =>
    let (outcome, reader) := (o.start (read o.file)).run (LineReader.ofBytes stdin)
    { outcome with stderr := reader.written ++ outcome.stderr }

end Switching
