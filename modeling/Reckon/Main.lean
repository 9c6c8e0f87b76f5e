import Reckon.CommandLine.Transcript

/-!
# Main

The program itself.  Input is read a line at a time: a step that asks for more than has been read
is tried again when the next line is there, so every form is reported as soon as it is complete.
-/

namespace Reckon.CommandLine

/-- The bytes up to the next newline, and whether there may be more.  A failure to read ends the
input. -/
partial def readLine (input : IO.FS.Stream) (line : List UInt8) : IO (List Delivery × Bool) := do
  let bytes ← try Except.ok <$> input.read 1 catch e => pure (Except.error (toString e))
  match bytes with
  | .error reason => return ([.bytes line.reverse, .failed reason], false)
  | .ok bytes =>
    match bytes.toList with
    | [] => return ([.bytes line.reverse], false)
    | b :: _ =>
      if b = 0x0A then return ([.bytes (b :: line).reverse], true) else readLine input (b :: line)

/-- The session with more input. -/
def feed (s : Session Lexer) (ds : List Delivery) : Session Lexer :=
  { s with parser := { s.parser with stream := s.parser.stream.feed (Source.ofDeliveries ds) } }

/-- Report forms until the input ends; `more` says whether there may be more to read. -/
partial def interact (o : Options) (input : IO.FS.Stream) (more : Bool) (s : Session Lexer) :
    IO Unit := do
  let (outcome, after) := s.step
  if after.parser.stream.starved && more then
    let (ds, more) ← readLine input []
    interact o input more (feed s ds)
  else if let some outcome := outcome then
    let r := after.report outcome
    let out ← IO.getStdout
    let err ← IO.getStderr
    out.putStr (outputText r)
    out.flush
    err.putStr (reportText o r)
    err.flush
    interact o input more after

/-- The input the options name. -/
def openInput (o : Options) : IO (Except StartError IO.FS.Stream) := do
  match o.input with
  | none => return .ok (← IO.getStdin)
  | some path =>
    try
      return .ok (IO.FS.Stream.ofHandle (← IO.FS.Handle.mk path .read))
    catch
      | .noFileOrDirectory .. => return .error (.cannotOpen path missingFile)
      | e => return .error (.cannotOpen path (toString e))

/-- How the program is called. -/
def usage : String :=
  s!"usage: {programName} [--backend ir|llvm] [--emit-ir] [--no-prompt] [FILE]\n"

end Reckon.CommandLine

open Reckon Reckon.CommandLine in
/-- The program. -/
def main (args : List String) : IO UInt32 := do
  match Options.ofArgs (programName :: args) with
  | .error .helpDisplayed =>
    IO.print usage
    return 0
  | .error .versionDisplayed =>
    IO.println s!"{programName} 0.1.0"
    return 0
  | .error _ =>
    IO.eprint usage
    return 1
  | .ok o =>
    match ← openInput o, o.target with
    | .error e, _ =>
      IO.eprint e.text
      return 1
    | .ok _, .llvm =>
      IO.eprint StartError.noSuchTarget.text
      return 1
    | .ok input, .ir =>
      IO.eprint (prompt o)
      interact o input true { parser := { stream := Lexer.ofSource [] } }
      return 0
