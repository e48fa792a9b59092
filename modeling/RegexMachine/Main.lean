import RegexMachine.Command.Generate

/-!
# The command at the command line

Does with the files of the machine what `Command.run` does with the files of a folder.
-/

namespace RegexMachine.Command

/-- The text of the operating system for an error, with its number. -/
def osErrorText : IO.Error → String
  | .noFileOrDirectory _ code details | .interrupted _ code details
  | .alreadyExists _ code details | .invalidArgument _ code details
  | .permissionDenied _ code details | .resourceExhausted _ code details
  | .inappropriateType _ code details | .noSuchThing _ code details
  | .otherError code details | .resourceBusy code details => s!"{details} (os error {code})"
  | e => toString e

/-- Reports on the standard error and ends with an exit code. -/
def failWith (exit : UInt32) (report : String) : IO UInt32 := do
  IO.eprint report
  return exit

/-- Writes what is planned. -/
def execute (plan : Plan) : IO UInt32 := do
  IO.print plan.stdout
  (← IO.getStdout).flush
  let file ←
    try IO.FS.Handle.mk plan.out IO.FS.Mode.write
    catch e => return ← failWith 1 (Failure.uncreatable plan.out (osErrorText e)).report
  try
    file.putStr plan.source
    file.flush
    return 0
  catch e => failWith 1 (Failure.unwritable plan.out (osErrorText e)).report

end RegexMachine.Command

open RegexMachine.Command in
def main (args : List String) : IO UInt32 :=
  match Arguments.parse args with
  | .error e => failWith 2 e.message
  | .ok arguments =>
    match arguments.plan with
    | .error failure => failWith 1 failure.report
    | .ok plan => execute plan
