import RegexMachine.Source.Module

/-!
# Arguments of the command

    -p, --pattern PATTERN    the regular expression, required
    -f, --func NAME          the name of the matching function
    -o, --out PATH           the file to write
        --runtime PATH       the path to the library with the matching machine
        --dump               show the disassembly

A value stands in the next argument or in the same one: behind `=`, or directly behind the letter of
a short flag. In an argument of its own a value must not look like a flag; a single `-` does not.
No flag may be given twice. `--` ends the flags, and nothing may follow it.
-/

namespace RegexMachine.Command

/-- The flags of the command. -/
inductive Flag where
  /-- the pattern to compile -/
  | pattern
  /-- the name of the function in the module -/
  | function
  /-- where the module goes, if not to the standard output -/
  | out
  /-- the path of the library that runs the program -/
  | runtime
  /-- asks for the disassembly -/
  | dump
  deriving DecidableEq, Repr

namespace Flag

/-- The long name of a flag. -/
def name : Flag → String
  | pattern => "pattern"
  | function => "func"
  | out => "out"
  | runtime => "runtime"
  | dump => "dump"

/-- The flag with a long name. -/
def ofName? (name : String) : Option Flag :=
  [pattern, function, out, runtime, dump].find? (·.name = name)

/-- The flag with a short name. -/
def ofLetter? : Char → Option Flag
  | 'p' => some pattern
  | 'f' => some function
  | 'o' => some out
  | _ => none

end Flag

/-- The reasons for which arguments are refused. -/
inductive UsageError where
  /-- a flag that does not exist -/
  | unknownFlag (arg : String)
  /-- an argument that is neither flag nor value -/
  | unexpectedArgument (arg : String)
  /-- a flag without its value -/
  | missingValue (flag : Flag)
  /-- a value for a flag that takes none, or an empty one where it may not be empty -/
  | invalidValue (flag : Flag)
  /-- a flag for the second time -/
  | repeatedFlag (flag : Flag)
  /-- no pattern -/
  | missingPattern
  deriving DecidableEq, Repr

/-- The report of a usage error. -/
def UsageError.message : UsageError → String
  | unknownFlag arg => s!"error: unknown flag {arg}\n"
  | unexpectedArgument arg => s!"error: unexpected argument {arg}\n"
  | missingValue flag => s!"error: no value for --{flag.name}\n"
  | invalidValue flag => s!"error: invalid value for --{flag.name}\n"
  | repeatedFlag flag => s!"error: --{flag.name} is given twice\n"
  | missingPattern => "error: --pattern is required\n"

/-- What a single argument looks like. -/
inductive Shape where
  /-- `--` -/
  | endOfFlags
  /-- a flag, with the value in the same argument if there is one -/
  | flag (flag : Flag) (value : Option String)
  /-- like a flag, but there is no such flag -/
  | unknown
  /-- anything else -/
  | plain
  deriving DecidableEq, Repr

/-- The value behind the letter of a short flag. -/
def gluedValue : List Char → Option String
  | [] => none
  | '=' :: value => some (String.ofList value)
  | value => some (String.ofList value)

/-- The value behind the name of a long flag. -/
def assignedValue : List Char → Option String
  | [] => none
  | _ :: value => some (String.ofList value)

/-- The shape of an argument. -/
def Shape.ofArgument (arg : String) : Shape :=
  match arg.toList with
  | ['-', '-'] => .endOfFlags
  | '-' :: '-' :: cs =>
    match Flag.ofName? (String.ofList (cs.takeWhile (· ≠ '='))) with
    | some f => .flag f (assignedValue (cs.dropWhile (· ≠ '=')))
    | none => .unknown
  | '-' :: c :: cs =>
    match Flag.ofLetter? c with
    | some f => .flag f (gluedValue cs)
    | none => .unknown
  | _ => .plain

/-- The flags given so far, each with its value. -/
structure Given where
  /-- the pattern -/
  pattern : Option String := none
  /-- the name of the function -/
  function : Option String := none
  /-- the path of the module -/
  out : Option String := none
  /-- the path of the library -/
  runtime : Option String := none
  /-- the disassembly is asked for -/
  dump : Bool := false

namespace Given

/-- Notes the value of a flag. -/
def set (g : Given) (f : Flag) (value : String) : Except UsageError Given :=
  match f with
  | .pattern => if g.pattern.isSome then repeated else .ok { g with pattern := some value }
  | .function => if g.function.isSome then repeated else .ok { g with function := some value }
  | .out =>
    if g.out.isSome then repeated
    else if value = "" then .error (.invalidValue f)
    else .ok { g with out := some value }
  | .runtime => if g.runtime.isSome then repeated else .ok { g with runtime := some value }
  | .dump => .error (.invalidValue f)
where
  repeated : Except UsageError Given := .error (.repeatedFlag f)

/-- Notes that the disassembly is asked for. -/
def setDump (g : Given) : Except UsageError Given :=
  if g.dump then .error (.repeatedFlag .dump) else .ok { g with dump := true }

/-- Reads arguments from the left to the right. -/
def collect (g : Given) : List String → Except UsageError Given
  | [] => .ok g
  | arg :: rest =>
    match Shape.ofArgument arg with
    | .plain => .error (.unexpectedArgument arg)
    | .unknown => .error (.unknownFlag arg)
    | .endOfFlags =>
      match rest with
      | [] => .ok g
      | arg :: _ => .error (.unexpectedArgument arg)
    | .flag f (some value) => do
      let g ← g.set f value
      g.collect rest
    | .flag .dump none => do
      let g ← g.setDump
      g.collect rest
    | .flag f none =>
      match rest with
      | [] => .error (.missingValue f)
      | value :: rest =>
        if Shape.ofArgument value = .plain then do
          let g ← g.set f value
          g.collect rest
        else .error (.missingValue f)

end Given

/-- What the command is asked to do. -/
structure Arguments where
  /-- the regular expression -/
  pattern : String
  /-- the names in the module -/
  names : Source.Names
  /-- the file to write, if it is given -/
  out : Option String
  /-- whether to show the disassembly -/
  dump : Bool

/-- Reads the arguments of the command. -/
def Arguments.parse (args : List String) : Except UsageError Arguments := do
  let given ← Given.collect {} args
  match given.pattern with
  | none => .error .missingPattern
  | some pattern =>
    let names : Source.Names :=
      ⟨given.function.getD Source.Names.standard.function,
        given.runtime.getD Source.Names.standard.runtime⟩
    .ok ⟨pattern, names, given.out, given.dump⟩

end RegexMachine.Command
