import Switching.Engine.Basic
import Switching.Input.Basic
import Switching.Parse.Basic

/-!
# Running source texts

* `FileError`: why a file gives no source text.
* `Failure`: why a source text or a file has no output.
* `runSource`, `runFile`: the output of a source text or a file, with nobody to ask.
-/

namespace Switching

/-! ## Files -/

/-- Why a file gives no source text. -/
inductive FileError where
  /-- There is no such file. -/
  | missing
  /-- Its bytes are not UTF-8. -/
  | notText
  /-- The system reports something else. -/
  | other (message : String)

def FileError.message : FileError → String
  | missing => "No such file or directory (os error 2)"
  | notText => "stream did not contain valid UTF-8"
  | other message => message

/-- The source text in the bytes of a file. -/
def sourceOfBytes (bytes : List UInt8) : Except FileError String :=
  match String.fromUTF8? (ByteArray.mk bytes.toArray) with
  | some source => .ok source
  | none => .error .notText

/-! ## Runs -/

/-- Why a source text or a file has no output. -/
inductive Failure where
  | parse (source : String) (error : SyntaxError)
  | execution (error : ExecutionError)
  | file (error : FileError)

/-- The sorts of failures that other programs tell apart. -/
inductive FailureKind where
  | notFound | invalidData | other
  deriving DecidableEq

namespace Failure

def message : Failure → String
  | parse source error => error.report source
  | execution error => error.message
  | file error => error.message

def partialOutput : Failure → List String
  | execution error => error.output
  | parse .. | file .. => []

def runtimeError? : Failure → Option RuntimeError
  | execution error => some error.error
  | parse .. | file .. => none

def kind : Failure → FailureKind
  | parse .. => .invalidData
  | file .missing => .notFound
  | file .notText => .invalidData
  | file (.other _) | execution _ => .other

end Failure

/-- The output of a source text. Nobody is there to ask. -/
def runSource (config : Config) (source : String) : Except Failure (List String) :=
  match Program.parse source with
  | .error e => .error (.parse source e)
  | .ok p =>
    match (((Engine.fresh config).run p).run (Silent.mk .unavailable)).1.1 with
    | .ok output => .ok output
    | .error e => .error (.execution e)

/-- The output of a file, given by its text or by why there is none. -/
def runFile (config : Config) (file : Except FileError String) : Except Failure (List String) :=
  match file with
  | .ok source => runSource config source
  | .error e => .error (.file e)

end Switching
