import RegexMachine.Command.Arguments
import RegexMachine.Command.Folder
import RegexMachine.Regex
import RegexMachine.Source.Name

/-!
# The command

From a pattern to a file with the module that matches it. The names are checked first, then the
pattern is compiled, and only then a file is touched: a command that fails leaves all files alone.
The place of the file may be taken by a device.
-/

namespace RegexMachine.Command

/-- The reasons for which the command fails. -/
inductive Failure where
  /-- the name of the function is not an identifier -/
  | invalidFunction (name : String)
  /-- the name of the library is not a path -/
  | invalidRuntime (name : String)
  /-- the pattern has no program -/
  | invalidPattern (pattern : String) (cause : Error)
  /-- the file cannot be created; the cause is the operating system's -/
  | uncreatable (path cause : String)
  /-- the text cannot be written; the cause is the operating system's -/
  | unwritable (path cause : String)

namespace Failure

/-- What failed. -/
def context : Failure → String
  | invalidFunction name => s!"`{name}` is not a valid function name"
  | invalidRuntime name => s!"`{name}` is not a valid crate path"
  | invalidPattern pattern _ => s!"can not compile pattern {Text.quotedText pattern}"
  | uncreatable path _ => s!"can not create `{path}`"
  | unwritable path _ => s!"can not write `{path}`"

/-- Why it failed, where more can be said. -/
def cause? : Failure → Option String
  | invalidFunction _ | invalidRuntime _ => none
  | invalidPattern _ cause => some cause.message
  | uncreatable _ cause | unwritable _ cause => some cause

/-- A text with four blanks in front of every line. -/
def indented (s : String) : String :=
  "    " ++ String.ofList (s.toList.flatMap fun c =>
    if c = '\n' then ['\n', ' ', ' ', ' ', ' '] else [c])

/-- The report of a failure. -/
def report (failure : Failure) : String :=
  match failure.cause? with
  | none => s!"Error: {failure.context}\n"
  | some cause => s!"Error: {failure.context}\n\nCaused by:\n{indented cause}\n"

end Failure

/-- What is to be written. -/
structure Plan where
  /-- the text for the standard output -/
  stdout : String
  /-- the path of the file -/
  out : String
  /-- the content of the file -/
  source : String

/-- The path of the file if none is given. -/
def defaultOut (names : Source.Names) : String :=
  names.function ++ "_regex.rs"

/-- Checks the arguments and works out what is to be written. -/
def Arguments.plan (a : Arguments) : Except Failure Plan := do
  unless Source.isIdentifier a.names.function do .error (.invalidFunction a.names.function)
  unless Source.isPath a.names.runtime do .error (.invalidRuntime a.names.runtime)
  let regex ← (Regex.compile a.pattern).mapError (.invalidPattern a.pattern)
  .ok {
    stdout := if a.dump then regex.program.disassembly else ""
    out := a.out.getD (defaultOut a.names)
    source := Source.moduleText a.pattern regex.program a.names }

/-- What a run of the command leaves behind. -/
structure Outcome where
  /-- zero for success, one for a failure, two for arguments that make no sense -/
  exit : Nat
  /-- the standard output -/
  stdout : String
  /-- the standard error -/
  stderr : String
  /-- the files afterwards -/
  folder : Folder

/-- Writes what is planned, the file at a place that is open for it. -/
def Plan.carryOut (plan : Plan) (folder : Folder) (place : Location) : Outcome :=
  match folder.device? place with
  | none => ⟨0, plan.stdout, "", folder.write place plan.source⟩
  | some .null => ⟨0, plan.stdout, "", folder⟩
  | some .full =>
    ⟨1, plan.stdout, (Failure.unwritable plan.out FileError.noSpace.message).report, folder⟩
  | some .output => ⟨0, plan.stdout ++ plan.source, "", folder⟩
  | some .error => ⟨0, plan.stdout, plan.source, folder⟩

/-- Runs the command in a folder. -/
def run (args : List String) (folder : Folder) : Outcome :=
  match Arguments.parse args with
  | .error e => ⟨2, "", e.message, folder⟩
  | .ok arguments =>
    match arguments.plan with
    | .error failure => ⟨1, "", failure.report, folder⟩
    | .ok plan =>
      match folder.locate plan.out with
      | .error e => ⟨1, plan.stdout, (Failure.uncreatable plan.out e.message).report, folder⟩
      | .ok place => plan.carryOut folder place

end RegexMachine.Command
