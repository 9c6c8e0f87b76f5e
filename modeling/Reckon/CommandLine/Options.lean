/-!
# CommandLine — Options

The arguments of the program: at most one file, and three options, each at most once.  Everything
behind `--` is a file, and so are `-` and the empty word.
-/

namespace Reckon

/-- The name the program goes by. -/
def programName : String := "moffet"

/-- What code is generated for. -/
inductive Target where
  | ir
  | llvm
  deriving DecidableEq

/-- How the program is to run. -/
structure Options where
  /-- the file to read instead of the standard input -/
  input : Option String
  target : Target
  /-- show the code of every form -/
  emitCode : Bool
  /-- show a prompt before every form -/
  prompt : Bool
  deriving DecidableEq

/-- Why the program does not run. -/
inductive UsageError where
  | helpDisplayed
  | versionDisplayed
  | unknownArgument
  | invalidValue
  | unexpectedMultipleUsage
  deriving DecidableEq

/-- The target of the name. -/
def Target.ofName? : String → Option Target
  | "ir" => some .ir
  | "llvm" => some .llvm
  | _ => none

namespace Options

/-- What the arguments so far have said. -/
structure Given where
  input : Option String := none
  /-- how often the target was asked for, and the names that came with it -/
  targetUses : Nat := 0
  targetNames : List String := []
  emitUses : Nat := 0
  noPromptUses : Nat := 0

/-- A file. -/
def Given.file (g : Given) (path : String) : Except UsageError Given :=
  if g.input.isSome then .error .unknownArgument else .ok { g with input := some path }

/-- The name of a long option, and the value behind the first equals sign.  It may begin with more
hyphens than two, and its value with more equals signs than one. -/
def splitLong (arg : List Char) : String × Option String :=
  let body := arg.dropWhile (· == '-')
  let value := match body.dropWhile (· != '=') with
    | [] => none
    | rest => some (String.ofList (rest.dropWhile (· == '=')))
  (String.ofList (body.takeWhile (· != '=')), value)

/-- A long option.  The second result says that its value is still to come. -/
def Given.long (g : Given) (name : String) (value : Option String) :
    Except UsageError (Given × Bool) :=
  match name with
  | "backend" =>
    .ok ({ g with targetUses := g.targetUses + 1, targetNames := g.targetNames ++ value.toList },
      value.isNone)
  | "emit-ir" => .ok ({ g with emitUses := g.emitUses + 1 }, false)
  | "no-prompt" => .ok ({ g with noPromptUses := g.noPromptUses + 1 }, false)
  | "help" => .error .helpDisplayed
  | "version" => .error .versionDisplayed
  | _ => .error .unknownArgument

/-- A group of short options is decided by its first. -/
def short : List Char → UsageError
  | 'h' :: _ => .helpDisplayed
  | 'V' :: _ => .versionDisplayed
  | _ => .unknownArgument

/-- Go through the arguments; `awaiting` says that the one before asks for a value.  A word that
looks like an option is one, and the value is left out. -/
def Given.read (g : Given) (awaiting : Bool) : List String → Except UsageError Given
  | [] => .ok g
  | arg :: args =>
    match arg.toList with
    | ['-', '-'] => args.foldlM file g
    | '-' :: '-' :: _ => do
      let (name, value) := splitLong arg.toList
      let (g, awaiting) ← g.long name value
      g.read awaiting args
    | '-' :: c :: cs => .error (short (c :: cs))
    | _ =>
      if awaiting then ({ g with targetNames := g.targetNames ++ [arg] }).read false args
      else do (← g.file arg).read false args

/-- What the arguments come to.  A value is looked at before it is counted. -/
def Given.options (g : Given) : Except UsageError Options :=
  if g.targetNames.any (Target.ofName? · |>.isNone) then .error .invalidValue
  else if 1 < g.targetUses ∨ 1 < g.emitUses ∨ 1 < g.noPromptUses then
    .error .unexpectedMultipleUsage
  else
    .ok {
      input := g.input
      target := (g.targetNames.head?.bind Target.ofName?).getD .ir
      emitCode := g.emitUses = 1
      prompt := g.input.isNone && g.noPromptUses = 0 }

/-- The options of an argument vector, whose first member is the name of the program. -/
def ofArgs (argv : List String) : Except UsageError Options := do
  (← Given.read {} false (argv.drop 1)).options

end Options

end Reckon
