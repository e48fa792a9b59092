import RegexMachine.Proofs.Source.Lines

/-!
# Reading a disassembly

A disassembly has a line for each instruction: its program counter, the mnemonic of its operation,
and its operands. The reader below gets the code back from the text alone (`readDisassembly`), so
nothing is lost in it, and two programs with the same disassembly have the same code
(`readDisassembly_disassembly`).

* **lines** — no instruction is written with a line feed, so the reader sees the lines that were
  written;
* **program counters** — zeros in front of a numeral do not change the number (`number?_padded`),
  and the numeral ends at the colon, however long it is;
* **instructions** — no mnemonic has a blank, so it ends at the first one, whatever is quoted behind
  it (`readInstruction_text`).
-/

namespace RegexMachine

namespace Instruction

/-- The line of an instruction at `pc`. -/
def line (pc : Nat) (i : Instruction Nat) : String :=
  Text.padded 4 pc ++ ": " ++ i.text toString

/-- The lines of code that stands at `pc`. -/
def linesFrom (pc : Nat) (code : List (Instruction Nat)) : List String :=
  (code.zipIdx pc).map fun (i, pc) => i.line pc

/-- The disassembly of code, which need not be that of a program. -/
def disassembly (code : List (Instruction Nat)) : String :=
  String.join ((linesFrom 0 code).map (· ++ "\n"))

theorem linesFrom_cons (pc : Nat) (i : Instruction Nat) (code : List (Instruction Nat)) :
    linesFrom pc (i :: code) = i.line pc :: linesFrom (pc + 1) code := rfl

theorem length_linesFrom (pc : Nat) (code : List (Instruction Nat)) :
    (linesFrom pc code).length = code.length := by
  rw [linesFrom, List.length_map, List.length_zipIdx]

theorem getElem?_linesFrom (pc : Nat) (code : List (Instruction Nat)) (k : Nat) :
    (linesFrom pc code)[k]? = code[k]?.map (·.line (pc + k)) := by
  rw [linesFrom, List.getElem?_map, List.getElem?_zipIdx]
  cases code[k]? <;> rfl

end Instruction

theorem Program.disassembly_eq (p : Program) :
    p.disassembly = Instruction.disassembly p.code.toList := rfl

namespace Source

/-! ## The reader -/

/-- The operation with this mnemonic. -/
def readMnemonic (cs : List Char) : Option Opcode :=
  [.char, .accept, .jump, .split, .save, .nop].find? fun op => op.mnemonic.toList = cs

/-- The instruction with this operation and these operands. -/
def readOperands : Opcode → List Char → Option (Instruction Nat)
  | .char, cs => ((between? ['\''] ['\''] cs).bind unescape).map .char
  | .accept, cs => if cs = [] then some .accept else none
  | .jump, cs => (number? 10 cs).map .jump
  | .split, cs => (readPair cs).map fun (t, u) => .split t u
  | .save, cs => (number? 10 cs).map .save
  | .nop, cs => if cs = [] then some .nop else none

/-- An instruction: the mnemonic up to the first blank, and the operands behind that. -/
def readInstruction (cs : List Char) : Option (Instruction Nat) := do
  let op ← readMnemonic (cs.takeWhile (· ≠ ' '))
  readOperands op ((cs.dropWhile (· ≠ ' ')).drop 1)

/-- A line that begins with the numeral of `pc`, in four digits or more. -/
def readLine (pc : Nat) (cs : List Char) : Option (Instruction Nat) :=
  let numeral := cs.takeWhile (· ≠ ':')
  if 4 ≤ numeral.length ∧ number? 10 numeral = some pc then
    (between? [':', ' '] [] (cs.dropWhile (· ≠ ':'))).bind readInstruction
  else none

/-- Lines that are numbered from `pc` on, up to what is behind the last line feed. -/
def readLines (pc : Nat) : List (List Char) → Option (List (Instruction Nat))
  | [] => none
  | [last] => if last = [] then some [] else none
  | cs :: lines => do
    let i ← readLine pc cs
    let code ← readLines (pc + 1) lines
    some (i :: code)

/-- The code in a disassembly. -/
def readDisassembly (text : String) : Option (List (Instruction Nat)) :=
  readLines 0 (text.toList.splitOn '\n')

/-! ## Program counters -/

theorem toList_padded (width n : Nat) : (Text.padded width n).toList =
    List.replicate (width - (Nat.toDigits 10 n).length) '0' ++ Nat.toDigits 10 n := by
  rw [Text.padded, String.toList_ofList, List.leftpad]

/-- Zeros in front of a numeral do not change the number. -/
theorem number?_padded (width n : Nat) : number? 10 (Text.padded width n).toList = some n := by
  have hzeros (k : Nat) : (List.replicate k '0').foldlM
      (fun n c => (digit? 10 c).map (10 * n + ·)) 0 = some 0 := by
    induction k with
    | zero => rfl
    | succ k ih => exact ih
  have hne : (Text.padded width n).toList ≠ [] := by
    rw [toList_padded]
    exact List.append_ne_nil_of_right_ne_nil _ Nat.toDigits_ne_nil
  rw [number?, if_neg hne, toList_padded, List.foldlM_append, hzeros]
  exact foldlM_toDigits (by decide) (by decide) n

theorem length_padded (width n : Nat) : width ≤ (Text.padded width n).toList.length := by
  rw [toList_padded, List.length_append, List.length_replicate]
  omega

theorem ne_colon_of_mem_padded {width n : Nat} : ∀ c ∈ (Text.padded width n).toList,
    decide (c ≠ ':') = true := by
  intro c hc
  rw [toList_padded, List.mem_append] at hc
  apply decide_eq_true
  rcases hc with hc | hc
  · rw [List.eq_of_mem_replicate hc]
    decide
  · rintro rfl
    exact absurd (Nat.isDigit_of_mem_toDigits (by decide) (by decide) hc) (by decide)

/-! ## Instructions -/

theorem readInstruction_append (op : Opcode) (cs : List Char) :
    readInstruction (op.mnemonic.toList ++ ' ' :: cs) = readOperands op cs := by
  cases op <;> rfl

theorem readInstruction_mnemonic (op : Opcode) :
    readInstruction op.mnemonic.toList = readOperands op [] := by
  cases op <;> rfl

/-- **One instruction** is read from its mnemonic and its operands. -/
theorem readInstruction_text (i : Instruction Nat) :
    readInstruction (i.text toString).toList = some i := by
  have happend (op : Opcode) (operands : String) :
      (op.mnemonic ++ " " ++ operands).toList = op.mnemonic.toList ++ ' ' :: operands.toList := by
    simp
  cases i with
  | char c =>
    have hliteral : (Text.quotedChar c).toList = ['\''] ++ Text.escape '\'' c ++ ['\''] := by
      simp [Text.quotedChar, Text.quoted]
    rw [Instruction.text, happend, readInstruction_append, Instruction.opcode, readOperands,
      hliteral, between?_append, Option.bind_some, unescape_escape]
    rfl
  | accept => exact readInstruction_mnemonic .accept
  | jump t =>
    rw [Instruction.text, happend, readInstruction_append, Instruction.opcode, readOperands,
      number?_toString]
    rfl
  | split t u =>
    have htext : (Instruction.split t u).text toString =
        Opcode.split.mnemonic ++ " " ++ (toString t ++ ", " ++ toString u) := by
      simp only [Instruction.text, Instruction.opcode, String.append_assoc]
    rw [htext, happend, readInstruction_append, readOperands, String.toList_append,
      String.toList_append, readPair_append]
    rfl
  | save slot =>
    rw [Instruction.text, happend, readInstruction_append, Instruction.opcode, readOperands,
      number?_toString]
    rfl
  | nop => exact readInstruction_mnemonic .nop

/-- **One line** is read where its program counter is the one that is due. -/
theorem readLine_line (pc : Nat) (i : Instruction Nat) :
    readLine pc (i.line pc).toList = some i := by
  have hline : (i.line pc).toList =
      (Text.padded 4 pc).toList ++ ([':', ' '] ++ (i.text toString).toList) := by
    simp [Instruction.line]
  have hbehind : between? [':', ' '] [] ([':', ' '] ++ (i.text toString).toList) =
      some (i.text toString).toList := by
    simpa using between?_append [':', ' '] [] (i.text toString).toList
  have hnumeral : (i.line pc).toList.takeWhile (· ≠ ':') = (Text.padded 4 pc).toList := by
    rw [hline, List.takeWhile_append_of_pos ne_colon_of_mem_padded]
    simp
  have hrest : (i.line pc).toList.dropWhile (· ≠ ':') = [':', ' '] ++ (i.text toString).toList := by
    rw [hline, List.dropWhile_append_of_pos ne_colon_of_mem_padded]
    simp
  rw [readLine, hnumeral, hrest, if_pos ⟨length_padded 4 pc, number?_padded 4 pc⟩, hbehind,
    Option.bind_some, readInstruction_text]

theorem readLines_linesFrom (pc : Nat) (code : List (Instruction Nat)) :
    readLines pc ((Instruction.linesFrom pc code).map String.toList ++ [[]]) = some code := by
  induction code generalizing pc with
  | nil => rfl
  | cons i code ih =>
    rw [Instruction.linesFrom_cons, List.map_cons, List.cons_append, readLines, readLine_line, ih]
    · rfl
    · simp

/-! ## The text -/

theorem splitOn_disassembly (code : List (Instruction Nat)) :
    (Instruction.disassembly code).toList.splitOn '\n' =
      (Instruction.linesFrom 0 code).map String.toList ++ [[]] := by
  refine splitOn_joined _ fun l hl => ?_
  obtain ⟨⟨i, pc⟩, -, rfl⟩ := List.mem_map.mp hl
  exact (unbroken_line pc i).oneLine

theorem readDisassembly_eq (code : List (Instruction Nat)) :
    readDisassembly (Instruction.disassembly code) = some code := by
  rw [readDisassembly, splitOn_disassembly, readLines_linesFrom]

/-- **Nothing is lost**: the disassembly of any code has a line for each instruction and nothing
behind the last line feed. The line begins with the program counter, in four digits or more, and the
instruction can be read from what is behind it; so the code is read from the text, and programs with
the same disassembly have the same code. -/
theorem readDisassembly_disassembly :
    (∀ code : List (Instruction Nat), ∃ lines : List String,
      (Instruction.disassembly code).toList.splitOn '\n' = lines.map String.toList ++ [[]] ∧
      lines.length = code.length ∧
      (∀ k i, code[k]? = some i →
        lines[k]? = some (Text.padded 4 k ++ ": " ++ i.text toString) ∧
        4 ≤ (Text.padded 4 k).toList.length ∧ number? 10 (Text.padded 4 k).toList = some k ∧
        readInstruction (i.text toString).toList = some i) ∧
      readDisassembly (Instruction.disassembly code) = some code) ∧
    ∀ p : Program, p.disassembly = Instruction.disassembly p.code.toList ∧
      readDisassembly p.disassembly = some p.code.toList ∧
      ∀ q : Program, p.disassembly = q.disassembly → p.code = q.code := by
  have hprogram (p : Program) : readDisassembly p.disassembly = some p.code.toList := by
    rw [p.disassembly_eq, readDisassembly_eq]
  refine ⟨fun code => ⟨Instruction.linesFrom 0 code, splitOn_disassembly code,
    Instruction.length_linesFrom 0 code, fun k i hi => ?_, readDisassembly_eq code⟩,
    fun p => ⟨p.disassembly_eq, hprogram p, fun q hsame => ?_⟩⟩
  · refine ⟨?_, length_padded 4 k, number?_padded 4 k, readInstruction_text i⟩
    rw [Instruction.getElem?_linesFrom, hi, Nat.zero_add]
    rfl
  · -- both are read from the same text
    have hp := hprogram p
    rw [hsame, hprogram q] at hp
    exact (Array.toList_inj.mp (Option.some.inj hp)).symm

/-- Quoted marks do not end a literal or a line, and a large program counter has all its digits. -/
example : Instruction.disassembly [.char '\'', .char '\n', .split 10 0] =
      "0000: char '\\''\n0001: char '\\n'\n0002: split 10, 0\n" ∧
    Instruction.line 12345 (.save 3) = "12345: save 3" :=
  ⟨rfl, rfl⟩

end Source

end RegexMachine
