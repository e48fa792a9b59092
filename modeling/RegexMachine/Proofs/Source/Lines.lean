import RegexMachine.Proofs.Source.Reading
import RegexMachine.Source.Name

/-!
# The lines of a source module

A module is written line by line, and the reader of its text sees the same lines (`splitOn_joined`,
`Text.lines_joined`). Nothing that is written contains a character that ends a line:

* **numerals** are digits;
* **literals** have escapes for line feeds and carriage returns, and whatever else they quote is no
  break;
* **names** are checked before they are used.
-/

namespace RegexMachine

/-! ## Lines of a text -/

namespace Source

/-- The text has no line feed. -/
def OneLine (s : String) : Prop := '\n' ∉ s.toList

instance (s : String) : Decidable (OneLine s) := inferInstanceAs (Decidable ('\n' ∉ s.toList))

/-- The reader sees the lines that were written. -/
theorem splitOn_joined (lines : List String) (h : ∀ l ∈ lines, OneLine l) :
    (String.join (lines.map (· ++ "\n"))).toList.splitOn '\n' =
      lines.map String.toList ++ [[]] := by
  have hjoin : (String.join (lines.map (· ++ "\n"))).toList =
      ['\n'].intercalate (lines.map String.toList ++ [[]]) := by
    clear h
    induction lines with
    | nil => rfl
    | cons l lines ih =>
      rw [List.map_cons, String.join_cons, String.toList_append, ih, String.toList_append]
      cases lines <;> simp [List.intercalate_cons_cons]
  rw [hjoin, List.splitOn_intercalate]
  · intro cs hcs
    rw [List.mem_append, List.mem_map, List.mem_singleton] at hcs
    rcases hcs with ⟨l, hl, rfl⟩ | rfl
    · exact h l hl
    · exact List.not_mem_nil
  · exact List.append_ne_nil_of_right_ne_nil _ (List.cons_ne_nil _ _)

/-! ## Breaks -/

/-- Whether `c` may end a line, or be taken for a part of its end. -/
def isBreak (c : Char) : Bool :=
  c = '\n' || c = '\r'

/-- The text stays on one line. -/
def Unbroken (s : String) : Prop := ∀ c ∈ s.toList, isBreak c = false

instance (s : String) : Decidable (Unbroken s) :=
  List.decidableBAll (isBreak · = false) s.toList

theorem Unbroken.not_mem {s : String} {c : Char} (h : Unbroken s) (hc : isBreak c = true) :
    c ∉ s.toList := by
  intro hmem
  rw [h c hmem] at hc
  cases hc

theorem Unbroken.oneLine {s : String} (h : Unbroken s) : OneLine s := h.not_mem rfl

theorem unbroken_append {s t : String} : Unbroken (s ++ t) ↔ Unbroken s ∧ Unbroken t := by
  simp [Unbroken, or_imp, forall_and]

/-- A class of characters that has no breaks. -/
theorem isBreak_eq_false {p : Char → Bool} (hfeed : p '\n' = false) (hreturn : p '\r' = false)
    {c : Char} (hc : p c = true) : isBreak c = false := by
  by_contra h
  simp only [isBreak, Bool.not_eq_false, Bool.or_eq_true, decide_eq_true_eq] at h
  rcases h with rfl | rfl
  · rw [hfeed] at hc
    cases hc
  · rw [hreturn] at hc
    cases hc

theorem unbroken_of_digits {cs : List Char} (h : ∀ c ∈ cs, c.isDigit = true) :
    Unbroken (String.ofList cs) := by
  rw [Unbroken, String.toList_ofList]
  exact fun c hc => isBreak_eq_false rfl rfl (h c hc)

end Source

theorem Text.lines_joined (ls : List String) (h : ∀ l ∈ ls, Source.Unbroken l) :
    lines (String.join (ls.map (· ++ "\n"))) = ls := by
  have hchomp : ∀ cs ∈ ls.map String.toList, chomp cs = cs := by
    intro cs hcs
    obtain ⟨l, hl, rfl⟩ := List.mem_map.mp hcs
    rw [chomp, if_neg]
    exact fun hlast => (h l hl).not_mem rfl (List.mem_of_getLast? hlast)
  rw [lines, Source.splitOn_joined ls fun l hl => (h l hl).oneLine]
  simp only [List.dropLast_concat, List.getLast?_concat]
  rw [List.map_congr_left hchomp]
  simp [Function.comp_def]

namespace Source

/-! ## What is written on a line -/

theorem unbroken_toString (n : Nat) : Unbroken (toString n) := by
  rw [Nat.toString_eq_repr, Nat.repr_eq_ofList_toDigits]
  exact unbroken_of_digits fun c hc => Nat.isDigit_of_mem_toDigits (by decide) (by decide) hc

theorem unbroken_padded (width n : Nat) : Unbroken (Text.padded width n) := by
  apply unbroken_of_digits
  intro c hc
  rw [List.leftpad, List.mem_append] at hc
  rcases hc with hc | hc
  · obtain rfl := List.eq_of_mem_replicate hc
    rfl
  · exact Nat.isDigit_of_mem_toDigits (by decide) (by decide) hc

theorem exists_digitChar {base : Nat} (hbase : 1 < base) {n : Nat} {c : Char}
    (hc : c ∈ Nat.toDigits base n) : ∃ d < base, c = d.digitChar := by
  induction n using Nat.strongRecOn with
  | ind n ih =>
    rcases Nat.lt_or_ge n base with hlt | hge
    · rw [Nat.toDigits_of_lt_base hlt, List.mem_singleton] at hc
      exact ⟨n, hlt, hc⟩
    · rw [Nat.toDigits_of_base_le hbase hge, List.mem_append, List.mem_singleton] at hc
      rcases hc with hc | hc
      · exact ih (n / base) (Nat.div_lt_self (by omega) hbase) hc
      · exact ⟨n % base, Nat.mod_lt _ (by omega), hc⟩

theorem isBreak_of_mem_hexDigits {n : Nat} {c : Char} (hc : c ∈ Text.hexDigits n) :
    isBreak c = false := by
  obtain ⟨d, hd, rfl⟩ := exists_digitChar (by decide) hc
  have hdigit : ∀ d < 16, isBreak d.digitChar = false := by decide
  exact hdigit d hd

/-- **Escapes**: no character breaks the line on which it is quoted. -/
theorem isBreak_of_mem_escape {mark c d : Char} (hd : d ∈ Text.escape mark c) :
    isBreak d = false := by
  rw [Text.escape.eq_def] at hd
  split at hd
  case h_6 hzero htab hfeed hreturn hslash =>
    have hself : isBreak c = false := by
      simp only [isBreak, Bool.or_eq_false_iff, decide_eq_false_iff_not]
      exact ⟨hfeed, hreturn⟩
    split_ifs at hd
    · rcases List.mem_cons.mp hd with rfl | hd
      · rfl
      · exact List.mem_singleton.mp hd ▸ hself
    · simp only [List.mem_cons, List.mem_append, List.not_mem_nil, or_false] at hd
      rcases hd with rfl | rfl | rfl | hd | rfl
      · rfl
      · rfl
      · rfl
      · exact isBreak_of_mem_hexDigits hd
      · rfl
    · exact List.mem_singleton.mp hd ▸ hself
  all_goals
    simp only [List.mem_cons, List.not_mem_nil, or_false] at hd
    rcases hd with rfl | rfl <;> rfl

theorem unbroken_quoted {mark : Char} (hmark : isBreak mark = false) (cs : List Char) :
    Unbroken (Text.quoted mark cs) := by
  rw [Unbroken, Text.quoted, String.toList_ofList]
  intro d hd
  simp only [List.mem_cons, List.mem_append, List.mem_flatMap, List.not_mem_nil, or_false] at hd
  rcases hd with rfl | ⟨c, -, hd⟩ | rfl
  · exact hmark
  · exact isBreak_of_mem_escape hd
  · exact hmark

theorem unbroken_text (i : Instruction Nat) : Unbroken (i.text toString) := by
  cases i <;>
    simp only [Instruction.text, Instruction.opcode, Opcode.mnemonic, unbroken_append]
  case char c => exact ⟨⟨by decide, by decide⟩, unbroken_quoted rfl [c]⟩
  case accept => decide
  case jump t => exact ⟨⟨by decide, by decide⟩, unbroken_toString t⟩
  case split t u =>
    exact ⟨⟨⟨⟨by decide, by decide⟩, unbroken_toString t⟩, by decide⟩, unbroken_toString u⟩
  case save slot => exact ⟨⟨by decide, by decide⟩, unbroken_toString slot⟩
  case nop => decide

/-- The line of an instruction in a disassembly. -/
theorem unbroken_line (pc : Nat) (i : Instruction Nat) :
    Unbroken (Text.padded 4 pc ++ ": " ++ i.text toString) := by
  rw [unbroken_append, unbroken_append]
  exact ⟨⟨unbroken_padded 4 pc, by decide⟩, unbroken_text i⟩

theorem unbroken_entry (i : Instruction Nat) : Unbroken (entry i) := by
  cases i <;> simp only [entry, unbroken_append]
  case char c => exact ⟨⟨by decide, unbroken_quoted rfl [c]⟩, by decide⟩
  case accept => decide
  case jump t => exact ⟨⟨by decide, unbroken_toString t⟩, by decide⟩
  case split t u =>
    exact ⟨⟨⟨⟨by decide, unbroken_toString t⟩, by decide⟩, unbroken_toString u⟩, by decide⟩
  case save slot => exact ⟨⟨by decide, unbroken_toString slot⟩, by decide⟩
  case nop => decide

/-! ## Names -/

/-- A character of a name is in one of the pieces, or a colon between them. -/
theorem mem_segments {cs : List Char} {c : Char} (hc : c ∈ cs) :
    c = ':' ∨ ∃ word ∈ segments cs, c ∈ word := by
  induction cs using segments.induct with
  | case1 => cases hc
  | case2 cs ih =>
    rw [segments]
    rcases List.mem_cons.mp hc with rfl | hc
    · exact .inl rfl
    rcases List.mem_cons.mp hc with rfl | hc
    · exact .inl rfl
    rcases ih hc with hcolon | ⟨word, hword, hmem⟩
    · exact .inl hcolon
    · exact .inr ⟨word, List.mem_cons_of_mem _ hword, hmem⟩
  | case3 d cs hcolons hnone ih =>
    rw [segments.eq_3 d cs hcolons, hnone]
    rcases List.mem_cons.mp hc with rfl | hc
    · exact .inr ⟨[c], List.mem_singleton_self _, List.mem_singleton_self _⟩
    rcases ih hc with hcolon | ⟨word, hword, -⟩
    · exact .inl hcolon
    · rw [hnone] at hword
      cases hword
  | case4 d cs hcolons piece pieces hpieces ih =>
    rw [segments.eq_3 d cs hcolons, hpieces]
    rcases List.mem_cons.mp hc with rfl | hc
    · exact .inr ⟨_, List.mem_cons_self, List.mem_cons_self⟩
    rcases ih hc with hcolon | ⟨word, hword, hmem⟩
    · exact .inl hcolon
    rw [hpieces] at hword
    rcases List.mem_cons.mp hword with rfl | hword
    · exact .inr ⟨_, List.mem_cons_self, List.mem_cons_of_mem _ hmem⟩
    · exact .inr ⟨word, List.mem_cons_of_mem _ hword, hmem⟩

theorem isWordChar_of_isWord {cs : List Char} (h : isWord cs = true) {c : Char} (hc : c ∈ cs) :
    isWordChar c = true := by
  rw [isWord.eq_def] at h
  split at h
  case h_1 => cases hc
  case h_2 => cases h
  case h_3 d cs _ =>
    rw [Bool.and_eq_true] at h
    rcases List.mem_cons.mp hc with rfl | hc
    · simp only [isWordStart, isWordChar, Char.isAlphanum, Bool.or_eq_true] at h ⊢
      tauto
    · exact List.all_eq_true.mp h.2 c hc

theorem isBreak_of_isWord {cs : List Char} (h : isWord cs = true) {c : Char} (hc : c ∈ cs) :
    isBreak c = false :=
  isBreak_eq_false rfl rfl (isWordChar_of_isWord h hc)

theorem colon_not_mem_of_isWord {cs : List Char} (h : isWord cs = true) : ':' ∉ cs := by
  intro hmem
  have hchar := isWordChar_of_isWord h hmem
  cases hchar

theorem unbroken_of_isIdentifier {name : String} (h : isIdentifier name = true) : Unbroken name :=
  fun _ hc => isBreak_of_isWord h hc

theorem mem_word_of_isPath {name : String} (h : isPath name = true) {c : Char}
    (hc : c ∈ name.toList) : c = ':' ∨ ∃ word, isWord word = true ∧ c ∈ word := by
  by_cases hcolon : c = ':'
  · exact .inl hcolon
  have hrest : c ∈ dropRoot name.toList := by
    rw [dropRoot.eq_def]
    split
    case h_1 cs heq =>
      rw [heq] at hc
      simpa [hcolon] using hc
    case h_2 => exact hc
  obtain ⟨word, hword, hmem⟩ := (mem_segments hrest).resolve_left hcolon
  exact .inr ⟨word, List.all_eq_true.mp h word hword, hmem⟩

theorem unbroken_of_isPath {name : String} (h : isPath name = true) : Unbroken name := by
  intro c hc
  rcases mem_word_of_isPath h hc with rfl | ⟨word, hword, hmem⟩
  · rfl
  · exact isBreak_of_isWord hword hmem

/-! ## The lines of a module -/

section

variable (pattern : String) (p : Program) {names : Names}

theorem unbroken_lines : ∀ l ∈ p.lines, Unbroken l := by
  intro l hl
  simp only [Program.lines, List.mem_map, Prod.exists] at hl
  obtain ⟨i, pc, -, rfl⟩ := hl
  exact unbroken_line pc i

/-- Cutting the disassembly gives back the lines of which it was made. -/
theorem lines_disassembly : Text.lines p.disassembly = p.lines :=
  Text.lines_joined _ (unbroken_lines p)

/-- The lines before the number of slots are comments. -/
theorem headLines_comments :
    ∀ l ∈ headLines pattern p, Unbroken l ∧ ∃ cs, l.toList = '/' :: '/' :: cs := by
  intro l hl
  simp only [headLines, lines_disassembly, List.mem_append, List.mem_cons, List.not_mem_nil,
    or_false, List.mem_map] at hl
  rcases hl with (rfl | rfl) | ⟨line, hline, rfl⟩
  · refine ⟨?_, by simp⟩
    rw [unbroken_append, unbroken_append]
    exact ⟨⟨by decide, unbroken_quoted rfl _⟩, by decide⟩
  · exact ⟨by decide, by simp⟩
  · refine ⟨?_, by simp⟩
    rw [unbroken_append]
    exact ⟨by decide, unbroken_lines p line hline⟩

theorem unbroken_tableLines (hruntime : Unbroken names.runtime) :
    ∀ l ∈ tableLines names.runtime p, Unbroken l := by
  intro l hl
  simp only [tableLines, List.mem_append, List.mem_cons, List.not_mem_nil, or_false,
    List.mem_map] at hl
  rcases hl with ((rfl | rfl | rfl) | ⟨i, -, rfl⟩) | rfl
  · rw [unbroken_append, unbroken_append]
    exact ⟨⟨by decide, unbroken_toString _⟩, by decide⟩
  · decide
  · rw [unbroken_append, unbroken_append]
    exact ⟨⟨by decide, hruntime⟩, by decide⟩
  · simp only [unbroken_append]
    exact ⟨⟨⟨⟨by decide, hruntime⟩, by decide⟩, unbroken_entry i⟩, by decide⟩
  · decide

theorem unbroken_functionLines (hfunction : Unbroken names.function)
    (hruntime : Unbroken names.runtime) : ∀ l ∈ functionLines names, Unbroken l := by
  simp only [functionLines, List.forall_mem_cons, unbroken_append, hfunction, hruntime]
  decide

theorem unbroken_moduleLines (hfunction : isIdentifier names.function = true)
    (hruntime : isPath names.runtime = true) : ∀ l ∈ moduleLines pattern p names, Unbroken l := by
  have hpath := unbroken_of_isPath hruntime
  intro l hl
  simp only [moduleLines, List.mem_append, List.mem_singleton] at hl
  rcases hl with (((hhead | rfl) | htable) | rfl) | hbody
  · exact (headLines_comments pattern p l hhead).1
  · decide
  · exact unbroken_tableLines p hpath l htable
  · decide
  · exact unbroken_functionLines (unbroken_of_isIdentifier hfunction) hpath l hbody

theorem oneLine_moduleLines (hfunction : isIdentifier names.function = true)
    (hruntime : isPath names.runtime = true) : ∀ l ∈ moduleLines pattern p names, OneLine l :=
  fun l hl => (unbroken_moduleLines pattern p hfunction hruntime l hl).oneLine

end

end Source

end RegexMachine
