import RegexMachine.Program.Basic
import RegexMachine.Text.Lines

/-!
# Programs as source modules

A program can be kept as a Rust module: a table of its instructions and a function that runs them on
the matching machine of a library. The module says which pattern it is for and shows the disassembly
in comments:

    // Code generated by … from "…". DO NOT EDIT.
    //
    // 0000: …                               a line for every instruction

    pub const NUM_CAPTURES: usize = …;       slots of capturing groups

    static INSTRUCTIONS: &[…::Instruction] = &[
        …::Instruction::…,                   a line for every instruction
    ];

    pub fn …(input: &str) -> … {             the matching function
        …
    }
-/

namespace RegexMachine.Source

/-- The names that a module uses. -/
structure Names where
  /-- the matching function -/
  function : String
  /-- the path to the library with the matching machine -/
  runtime : String
  deriving DecidableEq, Repr

/-- The names unless others are asked for. -/
def Names.standard : Names := ⟨"regex_match", "regvm"⟩

/-- An instruction as an expression of the table. -/
def entry : Instruction Nat → String
  | .char c => "Char(" ++ Text.quotedChar c ++ ")"
  | .accept => "Match"
  | .jump target => "Jump(" ++ toString target ++ ")"
  | .split first second => "Split(" ++ toString first ++ ", " ++ toString second ++ ")"
  | .save slot => "Save(" ++ toString slot ++ ")"
  | .nop => "Nop"

/-- The comment at the head of a module: the pattern, then the disassembly, line by line. -/
def headLines (pattern : String) (p : Program) : List String :=
  ["// Code generated by regvm-gen from " ++ Text.quotedText pattern ++ ". DO NOT EDIT.", "//"]
    ++ (Text.lines p.disassembly).map ("// " ++ ·)

/-- The number of slots and the table of instructions. -/
def tableLines (runtime : String) (p : Program) : List String :=
  ["pub const NUM_CAPTURES: usize = " ++ toString p.captureSlots ++ ";",
    "",
    "static INSTRUCTIONS: &[" ++ runtime ++ "::Instruction] = &["]
    ++ p.code.toList.map (fun i => "    " ++ runtime ++ "::Instruction::" ++ entry i ++ ",")
    ++ ["];"]

/-- The matching function. -/
def functionLines (names : Names) : List String :=
  ["pub fn " ++ names.function ++ "(input: &str) -> (bool, Vec<Option<&str>>) \x7b",
    "    static PROGRAM: std::sync::LazyLock<" ++ names.runtime
      ++ "::Program> = std::sync::LazyLock::new(|| \x7b",
    "        " ++ names.runtime
      ++ "::Program::from_instructions(INSTRUCTIONS.to_vec(), NUM_CAPTURES / 2)",
    "            .expect(\"embedded instruction table is valid\")",
    "    \x7d);",
    "",
    "    " ++ names.runtime ++ "::run(&PROGRAM, input)",
    "\x7d"]

/-- The lines of the module for a program. -/
def moduleLines (pattern : String) (p : Program) (names : Names) : List String :=
  headLines pattern p ++ [""] ++ tableLines names.runtime p ++ [""] ++ functionLines names

/-- The text of the module for a program, with a line feed behind every line. -/
def moduleText (pattern : String) (p : Program) (names : Names) : String :=
  String.join ((moduleLines pattern p names).map (· ++ "\n"))

end RegexMachine.Source
