import RegexMachine.Proofs.Assembly.Resolve
import RegexMachine.Proofs.Source.Lines

/-!
# Reading back a source module

The module for a program is read as that program, whatever its pattern and its literals contain, and
the program passes the check again (`readModule_moduleText`).

The reader sees the lines of the module as they were written (`splitOn_joined`). The lines before
the table are comments and cannot be taken for anything else; each row is indented and cannot be
taken for the end.
-/

namespace RegexMachine.Source

section

variable (pattern : String) (p : Program)

/-- The rows of a table are read as they were written, up to the line that ends it. -/
theorem readRows_append (runtime : String) (code : List (Instruction Nat))
    (lines : List (List Char)) :
    readRows (runtime ++ "::Instruction").toList
      (code.map (fun i => ("    " ++ runtime ++ "::Instruction::" ++ entry i ++ ",").toList) ++
        "];".toList :: lines) = some code := by
  induction code with
  | nil => rfl
  | cons i code ih =>
    have hrow : ("    " ++ runtime ++ "::Instruction::" ++ entry i ++ ",").toList =
        ("    ".toList ++ (runtime ++ "::Instruction").toList ++ "::".toList) ++
          (entry i).toList ++ ",".toList := by
      simp
    have hend :
        ("    " ++ runtime ++ "::Instruction::" ++ entry i ++ ",").toList ≠ "];".toList := by
      simp
    rw [List.map_cons, List.cons_append, readRows, if_neg hend, hrow, between?_append,
      Option.bind_some, readVariant_entry, ih]
    rfl

/-- The reader passes the lines that cannot be the head of a table. -/
theorem readTable_append {before : List (List Char)} (lines : List (List Char))
    (h : ∀ l ∈ before, between? "static INSTRUCTIONS: &[".toList "] = &[".toList l = none) :
    readTable (before ++ lines) = readTable lines := by
  induction before with
  | nil => rfl
  | cons l before ih =>
    rw [List.cons_append, readTable, h l List.mem_cons_self]
    exact ih fun l hl => h l (List.mem_cons_of_mem _ hl)

theorem between?_comment (rear cs : List Char) {c : Char} (front : List Char) (hc : c ≠ '/') :
    between? (c :: front) rear ('/' :: cs) = none := by
  rw [between?, List.isPrefixOf?, if_neg (by simpa using hc), Option.bind_none]

/-- Nothing before the table could be the number of slots or the head of a table. -/
theorem headLines_passed {c : Char} (front rear : List Char) (hc : c ≠ '/') :
    ∀ l ∈ (headLines pattern p).map String.toList ++ [[]], between? (c :: front) rear l = none := by
  intro cs hcs
  rw [List.mem_append, List.mem_map, List.mem_singleton] at hcs
  rcases hcs with ⟨l, hl, rfl⟩ | rfl
  · obtain ⟨-, cs, hcs⟩ := headLines_comments pattern p l hl
    rw [hcs]
    exact between?_comment rear ('/' :: cs) front hc
  · rfl

/-- The lines that the reader sees, from the number of slots on. -/
theorem toList_moduleLines (names : Names) : ∃ rest,
    (moduleLines pattern p names).map String.toList =
      ((headLines pattern p).map String.toList ++ [[]]) ++
        ("pub const NUM_CAPTURES: usize = ".toList ++ (toString p.captureSlots).toList ++
          ";".toList) :: [] ::
        ("static INSTRUCTIONS: &[".toList ++ (names.runtime ++ "::Instruction").toList ++
          "] = &[".toList) ::
        (p.code.toList.map (fun i => ("    " ++ names.runtime ++ "::Instruction::" ++ entry i ++
          ",").toList) ++ "];".toList :: rest) := by
  refine ⟨([""] ++ functionLines names).map String.toList, ?_⟩
  simp [moduleLines, tableLines]

/-- **Reading back**: the module for a program is read as that program, which is valid. -/
theorem readModule_moduleText (pattern : String) (p : Program) (names : Names)
    (hfunction : isIdentifier names.function = true) (hruntime : isPath names.runtime = true) :
    readModule (moduleText pattern p names) = some ⟨2 * p.groups, p.code.toList⟩ ∧
      Program.ofCode p.code.toList.toArray (2 * p.groups / 2) = .ok p := by
  obtain ⟨rest, hlines⟩ := toList_moduleLines pattern p names
  have hcaptures : readCaptures ((moduleLines pattern p names).map String.toList ++ [[]]) =
      some p.captureSlots := by
    have hpassed := headLines_passed pattern p
      "ub const NUM_CAPTURES: usize = ".toList ";".toList (c := 'p') (by decide)
    rw [hlines, readCaptures, List.append_assoc, List.findSome?_append,
      List.findSome?_eq_none_iff.mpr, Option.none_or, List.cons_append, List.findSome?_cons,
      between?_append, Option.bind_some, number?_toString]
    intro l hl
    exact congrArg (Option.bind · (number? 10)) (hpassed l hl)
  have htable : readTable ((moduleLines pattern p names).map String.toList ++ [[]]) =
      some p.code.toList := by
    have hpassed := headLines_passed pattern p
      "tatic INSTRUCTIONS: &[".toList "] = &[".toList (c := 's') (by decide)
    have hcount : between? "static INSTRUCTIONS: &[".toList "] = &[".toList
        ("pub const NUM_CAPTURES: usize = ".toList ++ (toString p.captureSlots).toList ++
          ";".toList) = none := rfl
    have hblank : between? "static INSTRUCTIONS: &[".toList "] = &[".toList [] = none := rfl
    have hrows := readRows_append names.runtime p.code.toList (rest ++ [[]])
    rw [← List.cons_append, ← List.append_assoc] at hrows
    rw [hlines, List.append_assoc, readTable_append _ hpassed]
    simp only [List.cons_append, readTable, hcount, hblank, between?_append]
    exact hrows
  constructor
  · rw [readModule, moduleText,
      splitOn_joined _ (oneLine_moduleLines pattern p hfunction hruntime)]
    simp only [hcaptures, htable, Option.bind_some, Option.bind_eq_bind]
    rfl
  · rw [Array.toArray_toList, Nat.mul_div_cancel_left _ (by decide)]
    exact p.ofCode_code

end

/-- A pattern that looks like a table itself, for a table with the characters of an escape. -/
theorem readModule_moduleText_quotes : ∃ p,
    (Expr.concat [.literal '\'', .literal '\\', .literal '\n']).program = .ok p ∧
    isIdentifier "quote" = true ∧ isPath "crate::rt" = true ∧
    readModule (moduleText "'\\\n];\nstatic INSTRUCTIONS: &[" p ⟨"quote", "crate::rt"⟩) =
      some ⟨2 * p.groups, p.code.toList⟩ ∧
    Program.ofCode p.code.toList.toArray (2 * p.groups / 2) = .ok p := by
  obtain ⟨p, hp⟩ := Expr.exists_program
    (e := .concat [.literal '\'', .literal '\\', .literal '\n']) (by decide)
  exact ⟨p, hp, by decide, by decide, readModule_moduleText _ p _ (by decide) (by decide)⟩

end RegexMachine.Source
