import Reckon.CommandLine.Options
import Reckon.Session.Report

/-!
# CommandLine — Transcript

What a run of the program prints.  Reports and prompts go to the error stream; the output stream is
for what the executed code writes.
-/

namespace Reckon

/-- What has been printed, and the exit code. -/
structure Transcript where
  code : UInt8 := 0
  out : String := ""
  err : String := ""
  deriving DecidableEq

/-- Why the program ends before it reads anything. -/
inductive StartError where
  | cannotOpen (path reason : String)
  | noSuchTarget
  deriving DecidableEq

/-- The wording of the error. -/
def StartError.text : StartError → String
  | .cannotOpen path reason => s!"Error: failed to open {path}\n\nCaused by:\n    {reason}\n"
  | .noSuchTarget => s!"Error: {programName} was built without the llvm feature\n"

namespace CommandLine

/-- Shown where a form may be typed. -/
def promptText : String := s!"{programName}> "

/-- Why a file that is not there cannot be opened. -/
def missingFile : String := "No such file or directory (os error 2)"

/-- How an outcome is announced. -/
def announce : Outcome → String
  | .ok { kind := .definition, .. } => "Parsed a function definition.\n"
  | .ok { kind := .declaration, .. } => "Parsed an extern\n"
  | .ok { kind := .expression, .. } => "Parsed a top-level expression\n"
  | .error e => s!"Error: {e.text}\n"

/-- What is printed about a run. -/
def runLine (e : Execution) : String :=
  match e.result with
  | .ok x => s!"Evaluated to {plainText x}\n"
  | .error e => s!"Error: {e.text}\n"

/-- The prompt, if there is to be one. -/
def prompt (o : Options) : String := if o.prompt then promptText else ""

/-- What a turn prints on the error stream. -/
def reportText (o : Options) (r : Report) : String :=
  let code := if o.emitCode then (r.code.map Decl.text).getD "" else ""
  announce r.outcome ++ code ++ (r.execution.map runLine).getD "" ++ prompt o

/-- What a turn prints on the output stream. -/
def outputText (r : Report) : String := (r.execution.map Execution.written).getD ""

/-- The program refuses to start. -/
def refuse (e : StartError) : Transcript := { code := 1, err := e.text }

/-- The program over a source. -/
def runSource (o : Options) (source : Source) : Transcript :=
  let session : Session Lexer := { parser := { stream := Lexer.ofSource source } }
  let add (t : Transcript) (turn : Session.Turn Lexer) : Transcript :=
    let r := turn.report
    { t with out := t.out ++ outputText r, err := t.err ++ reportText o r }
  session.run.1.foldl add { err := prompt o }

/-- The program, where `contents` gives the bytes of a file and `input` are those of the standard
input.  The file is opened before the target is looked at. -/
def run (o : Options) (contents : String → Option (List UInt8)) (input : List UInt8) :
    Transcript :=
  let bytes := match o.input with
    | none => some input
    | some path => contents path
  match bytes, o.target with
  | none, _ => refuse (.cannotOpen (o.input.getD "") missingFile)
  | some _, .llvm => refuse .noSuchTarget
  | some bytes, .ir => runSource o (Source.ofBytes bytes)

end CommandLine

end Reckon
