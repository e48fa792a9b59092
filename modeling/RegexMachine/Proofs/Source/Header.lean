import RegexMachine.Proofs.Assembly.Resolve
import RegexMachine.Proofs.Source.Lines

/-!
# The head of a source module

The comments at the head of a module quote a pattern and characters of its program, and both may be
anything at all. Nothing of it gets out of the comments: every part of a module has as many lines as
it should (`moduleText_lines`), and the pattern is read back from the first of them by a reader of
quoted texts, which finds the end of the text by itself (`readText`).
-/

namespace RegexMachine.Source

/-! ## Reading a quoted text -/

/-- Cuts off what belongs to an escape behind its backslash: the code point in braces, or one
character. -/
def cutEscape : List Char → List Char × List Char
  | 'u' :: '{' :: cs =>
    ('u' :: '{' :: (cs.takeWhile (· ≠ '}') ++ ['}']), (cs.dropWhile (· ≠ '}')).drop 1)
  | c :: cs => ([c], cs)
  | [] => ([], [])

theorem length_cutEscape_le (cs : List Char) : (cutEscape cs).2.length ≤ cs.length := by
  rw [cutEscape.eq_def]
  split
  · rename_i cs
    have hdrop := (cs.dropWhile_sublist (· ≠ '}')).length_le
    simp only [List.length_drop, List.length_cons]
    omega
  · simp
  · simp

/-- Reads a text up to the quotation mark that ends it. The result is the text, with what is behind
the mark. -/
def readText : List Char → Option (List Char × List Char)
  | [] => none
  | '"' :: rest => some ([], rest)
  | '\\' :: cs => do
    let c ← escaped? (cutEscape cs).1
    let (text, rest) ← readText (cutEscape cs).2
    some (c :: text, rest)
  | c :: cs => do
    let (text, rest) ← readText cs
    some (c :: text, rest)
termination_by cs => cs.length
decreasing_by
  · exact Nat.lt_succ_of_le (length_cutEscape_le cs)
  · simp

/-- The pattern in the first line of a module, if the line ends as it should. -/
def readHeader (line : String) : Option String := do
  let (text, rest) ←
    (between? "// Code generated by regvm-gen from \"".toList [] line.toList).bind readText
  if rest = ". DO NOT EDIT.".toList then some (String.ofList text) else none

/-! ## Reading what was written -/

theorem cutEscape_hexDigits (c : Char) (rest : List Char) :
    cutEscape ('u' :: '{' :: (Text.hexDigits c.toNat ++ '}' :: rest)) =
      ('u' :: '{' :: (Text.hexDigits c.toNat ++ ['}']), rest) := by
  have hdigits : ∀ d ∈ Text.hexDigits c.toNat, decide (d ≠ '}') = true := by
    intro d hd
    obtain ⟨n, hn, rfl⟩ := exists_digitChar (by decide) hd
    have hdigit : ∀ n < 16, decide (n.digitChar ≠ '}') = true := by decide
    exact hdigit n hn
  rw [cutEscape, List.takeWhile_append_of_pos hdigits, List.dropWhile_append_of_pos hdigits]
  simp

/-- One character is read from what it is written as. -/
theorem readText_escape (c : Char) (rest : List Char) :
    readText (Text.escape '"' c ++ rest) =
      (readText rest).map fun (text, behind) => (c :: text, behind) := by
  have hread (cs : List Char) (hcut : cutEscape (cs ++ rest) = (cs, rest))
      (hescape : escaped? cs = some c) :
      readText ('\\' :: (cs ++ rest)) =
        (readText rest).map fun (text, behind) => (c :: text, behind) := by
    rw [readText, hcut, hescape]
    cases readText rest <;> rfl
  rw [Text.escape.eq_def]
  split
  case h_6 hzero htab hfeed hreturn hslash =>
    split_ifs with hmark hcode
    · subst hmark
      exact hread ['"'] rfl rfl
    · refine hread ('u' :: '{' :: (Text.hexDigits c.toNat ++ ['}'])) ?_ (escaped?_hexDigits c)
      simpa using cutEscape_hexDigits c rest
    · rw [List.cons_append, List.nil_append, readText.eq_4 _ _ hmark hslash]
      cases readText rest <;> rfl
  all_goals exact hread [_] rfl rfl

/-- **Quoted texts**: a text is read back, and the reader stops at the mark that was put there. -/
theorem readText_flatMap (cs rest : List Char) :
    readText (cs.flatMap (Text.escape '"') ++ '"' :: rest) = some (cs, rest) := by
  induction cs with
  | nil => rw [List.flatMap_nil, List.nil_append, readText]
  | cons c cs ih => rw [List.flatMap_cons, List.append_assoc, readText_escape, ih, Option.map_some]

theorem readHeader_quotedText (pattern : String) :
    readHeader ("// Code generated by regvm-gen from " ++ Text.quotedText pattern ++
      ". DO NOT EDIT.") = some pattern := by
  have hline : ("// Code generated by regvm-gen from " ++ Text.quotedText pattern ++
      ". DO NOT EDIT.").toList = "// Code generated by regvm-gen from \"".toList ++
        (pattern.toList.flatMap (Text.escape '"') ++ '"' :: ". DO NOT EDIT.".toList) ++ [] := by
    simp [Text.quotedText, Text.quoted]
  rw [readHeader, hline, between?_append, Option.bind_some, readText_flatMap]
  simp only [Option.bind_eq_bind, Option.bind_some, ↓reduceIte, String.ofList_toList]

/-! ## The lines of a module -/

section

variable (pattern : String) (p : Program) (names : Names)

theorem getElem?_lines {k : Nat} {i : Instruction Nat} (hi : p.code[k]? = some i) :
    p.lines[k]? = some (Text.padded 4 k ++ ": " ++ i.text toString) := by
  simp [Program.lines, List.getElem?_zipIdx, hi]

theorem length_headLines : (headLines pattern p).length = 2 + p.size := by
  simp [headLines, lines_disassembly, Program.lines, Program.size]
  omega

theorem length_moduleLines : (moduleLines pattern p names).length = 2 * p.size + 16 := by
  simp only [moduleLines, tableLines, functionLines, List.length_append, length_headLines,
    List.length_cons, List.length_nil, List.length_map, Array.length_toList, Program.size]
  omega

theorem take_moduleLines :
    (moduleLines pattern p names).take (2 + p.size) = headLines pattern p := by
  simp only [moduleLines, List.append_assoc]
  exact List.take_left' (length_headLines pattern p)

theorem getElem?_moduleLines {k : Nat} (hk : k < p.size) :
    (moduleLines pattern p names)[2 + k]? = p.lines[k]?.map ("// " ++ ·) := by
  rw [← List.getElem?_take_of_lt (Nat.add_lt_add_left hk 2), take_moduleLines, headLines,
    lines_disassembly, List.getElem?_append_right (by simp)]
  simp

theorem head?_moduleLines : (moduleLines pattern p names)[0]? =
    some ("// Code generated by regvm-gen from " ++ Text.quotedText pattern ++ ". DO NOT EDIT.") :=
  rfl

theorem readHeader_moduleLines :
    (moduleLines pattern p names)[0]?.bind readHeader = some pattern := by
  rw [head?_moduleLines, Option.bind_some]
  exact readHeader_quotedText pattern

variable {pattern p names}

theorem lines_moduleText (hfunction : isIdentifier names.function = true)
    (hruntime : isPath names.runtime = true) :
    Text.lines (moduleText pattern p names) = moduleLines pattern p names :=
  Text.lines_joined _ (unbroken_moduleLines pattern p hfunction hruntime)

theorem not_mem_moduleText (hfunction : isIdentifier names.function = true)
    (hruntime : isPath names.runtime = true) : '\r' ∉ (moduleText pattern p names).toList := by
  rw [moduleText, String.toList_join]
  simp only [List.mem_flatMap, List.mem_map, not_exists, not_and]
  rintro _ ⟨l, hl, rfl⟩ hmem
  rw [String.toList_append, List.mem_append] at hmem
  have hline := (unbroken_moduleLines pattern p hfunction hruntime l hl).not_mem (c := '\r') rfl
  rcases hmem with hmem | hmem
  · exact hline hmem
  · simp at hmem

/-- **No way out of the comments**: for names that are accepted the module has two lines for each
instruction and sixteen more, and no carriage return. The comments at its head are two lines and one
for each instruction, with its line of the disassembly; and the first one gives back the pattern. -/
theorem moduleText_lines (pattern : String) (p : Program) (names : Names)
    (hfunction : isIdentifier names.function = true) (hruntime : isPath names.runtime = true) :
    (Text.lines (moduleText pattern p names)).length = 2 * p.size + 16 ∧
    '\r' ∉ (moduleText pattern p names).toList ∧
    (∀ l ∈ (Text.lines (moduleText pattern p names)).take (2 + p.size), "//".toList <+: l.toList) ∧
    (∀ k i, p.code[k]? = some i → ∃ line, line = Text.padded 4 k ++ ": " ++ i.text toString ∧
      (Text.lines p.disassembly)[k]? = some line ∧
      (Text.lines (moduleText pattern p names))[2 + k]? = some ("// " ++ line)) ∧
    (Text.lines (moduleText pattern p names))[0]?.bind readHeader = some pattern ∧
    ∀ pattern' p' names', isIdentifier names'.function = true → isPath names'.runtime = true →
      (Text.lines (moduleText pattern' p' names'))[0]? =
        (Text.lines (moduleText pattern p names))[0]? → pattern' = pattern := by
  rw [lines_moduleText hfunction hruntime, lines_disassembly]
  have hheader := readHeader_moduleLines pattern p names
  refine ⟨length_moduleLines .., not_mem_moduleText hfunction hruntime, ?_, ?_, hheader, ?_⟩
  · rw [take_moduleLines]
    intro l hl
    obtain ⟨-, cs, hcs⟩ := headLines_comments pattern p l hl
    exact ⟨cs, hcs.symm⟩
  · intro k i hi
    have hline := getElem?_lines p hi
    refine ⟨_, rfl, hline, ?_⟩
    rw [getElem?_moduleLines pattern p names (Array.getElem?_eq_some_iff.mp hi).1, hline]
    rfl
  · intro pattern' p' names' hfunction' hruntime' hsame
    rw [lines_moduleText hfunction' hruntime'] at hsame
    -- both are read from the same line
    have hheader' := readHeader_moduleLines pattern' p' names'
    rw [hsame, hheader] at hheader'
    exact (Option.some.inj hheader').symm

end

/-- A pattern that tries to end its line, its quotation and the comment. -/
theorem moduleText_lines_breaks : ∃ p,
    (Expr.concat [.literal '\r', .literal '\u2028', .literal '\n']).program = .ok p ∧
    isIdentifier "quote" = true ∧ isPath "crate::rt" = true ∧
    (Text.lines (moduleText "\"\r\n*/\\\u2028'" p ⟨"quote", "crate::rt"⟩)).length =
      2 * p.size + 16 ∧
    '\r' ∉ (moduleText "\"\r\n*/\\\u2028'" p ⟨"quote", "crate::rt"⟩).toList ∧
    (Text.lines (moduleText "\"\r\n*/\\\u2028'" p ⟨"quote", "crate::rt"⟩))[0]?.bind readHeader =
      some "\"\r\n*/\\\u2028'" := by
  obtain ⟨p, hp⟩ := Expr.exists_program
    (e := .concat [.literal '\r', .literal '\u2028', .literal '\n']) (by decide)
  obtain ⟨hlength, hreturn, -, -, hheader, -⟩ :=
    moduleText_lines "\"\r\n*/\\\u2028'" p ⟨"quote", "crate::rt"⟩ (by decide) (by decide)
  exact ⟨p, hp, by decide, by decide, hlength, hreturn, hheader⟩

end RegexMachine.Source
