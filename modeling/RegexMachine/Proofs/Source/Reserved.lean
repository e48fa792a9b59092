import RegexMachine.Proofs.Source.Header
import RegexMachine.Proofs.Source.Paths

/-!
# Names that a module can take

The check of names looks at their characters only. Rust asks for more: a keyword names nothing,
`crate`, `self` and `super` lead a path or are not in it, and no two of the items of a module have
one name.

A reader of the text, who knows neither the names nor the program, finds

* the **items** that are declared (`Text.items`), in lines that begin with `pub const`, `static` or
  `pub fn`;
* the **paths** (`Text.paths`), which are the words with double colons in the lines that are no
  comments.

Both are what was put there (`items_moduleText`, `paths_moduleText`), so it is known which of the
names that are accepted a module can take (`namesFit_moduleText_iff`). It cannot take all of them:
keywords are accepted in every place, and the name of the function may be that of another item
(`exists_accepted_misfit`).
-/

namespace RegexMachine

namespace Source

/-! ## Keywords -/

/-- The words that name nothing in the edition 2024: those in use, then those that are reserved. -/
def keywords : List String :=
  ["as", "async", "await", "break", "const", "continue", "crate", "dyn", "else", "enum", "extern",
    "false", "fn", "for", "if", "impl", "in", "let", "loop", "match", "mod", "move", "mut", "pub",
    "ref", "return", "self", "Self", "static", "struct", "super", "trait", "true", "type", "unsafe",
    "use", "where", "while", "abstract", "become", "box", "do", "final", "gen", "macro", "override",
    "priv", "try", "typeof", "unsized", "virtual", "yield"]

/-- Whether a word can name something. -/
def isFree (word : List Char) : Bool :=
  isWord word && String.ofList word ∉ keywords

/-- The words of a path behind those that lead it: `crate`, or any number of `super` that may have a
`self` in front. -/
def behindLead : List (List Char) → List (List Char)
  | [] => []
  | word :: words =>
    if word = "crate".toList then words
    else if word = "self".toList then words.dropWhile (· = "super".toList)
    else (word :: words).dropWhile (· = "super".toList)

/-- Whether a path has keywords only where they lead it. Nothing leads a path behind a double
colon. -/
def isLegal (path : List Char) : Bool :=
  if "::".toList.isPrefixOf path then (segments (dropRoot path)).all isFree
  else (behindLead (segments path)).all isFree

end Source

/-! ## Reading the names of a module -/

namespace Text

/-- A character of a path. -/
def isPathChar (c : Char) : Bool :=
  c = ':' || Source.isWordChar c

/-- The words with double colons among the characters. -/
def pathsIn (cs : List Char) : List (List Char) :=
  (cs.splitOnP fun c => !isPathChar c).filter fun word => 1 < (Source.segments word).length

/-- The paths in a line that is no comment. -/
def pathsOf (line : String) : List (List Char) :=
  if "//".toList.isPrefixOf line.toList then [] else pathsIn line.toList

/-- How a line begins that declares an item. -/
def declarations : List String := ["pub const ", "static ", "pub fn "]

/-- The item that is declared in a line. -/
def itemOf? (line : String) : Option String :=
  (declarations.findSome? fun front => front.toList.isPrefixOf? line.toList).map
    fun cs => String.ofList (cs.takeWhile Source.isWordChar)

/-- The items of a module. -/
def items (text : String) : List String :=
  (lines text).filterMap itemOf?

/-- The paths in a module. -/
def paths (text : String) : List (List Char) :=
  (lines text).flatMap pathsOf

/-- What a compiler asks of the names in the text of a module. -/
structure NamesFit (text : String) : Prop where
  /-- no two items have one name -/
  distinct : (items text).Nodup
  /-- no item is named by a keyword -/
  free : ∀ name ∈ items text, Source.isFree name.toList = true
  /-- keywords in paths are where they may be -/
  legal : ∀ path ∈ paths text, Source.isLegal path = true

instance (text : String) : Decidable (NamesFit text) :=
  decidable_of_iff
    ((items text).Nodup ∧ (∀ name ∈ items text, Source.isFree name.toList = true) ∧
      ∀ path ∈ paths text, Source.isLegal path = true)
    ⟨fun h => ⟨h.1, h.2.1, h.2.2⟩, fun h => ⟨h.1, h.2, h.3⟩⟩

/-- Words in comments are no paths, and what is declared further in is no item. -/
example : items "pub const A: usize = 2;\n    static B\n\npub fn c() \n" = ["A", "c"] ∧
    paths "// a::b\n    crate::rt::Char(':'),\n" = ["crate::rt::Char".toList] ∧
    ¬ NamesFit "pub fn fn()\n" := by decide

/-! ## Words with double colons -/

/-- Pieces have no more of anything than the whole. -/
theorem sublist_of_mem_splitOnP {α : Type*} {q : α → Bool} {xs piece : List α}
    (h : piece ∈ xs.splitOnP q) : piece.Sublist xs := by
  induction xs generalizing piece with
  | nil =>
    rw [List.splitOnP_nil, List.mem_singleton] at h
    rw [h]
  | cons x xs ih =>
    rw [List.splitOnP_cons_eq_if_modifyHead] at h
    split at h
    · rcases List.mem_cons.mp h with rfl | h
      · exact List.nil_sublist _
      · exact (ih h).cons x
    · obtain ⟨first, pieces, hpieces⟩ := List.exists_cons_of_ne_nil (List.splitOnP_ne_nil q xs)
      rw [hpieces, List.modifyHead_cons] at h
      rcases List.mem_cons.mp h with rfl | h
      · exact (ih (hpieces ▸ List.mem_cons_self)).cons_cons x
      · exact (ih (hpieces ▸ List.mem_cons_of_mem _ h)).cons x

theorem pathsIn_append_cons {sep : Char} (hsep : isPathChar sep = false) (front rear : List Char) :
    pathsIn (front ++ sep :: rear) = pathsIn front ++ pathsIn rear := by
  rw [pathsIn, List.splitOnP_append_cons _ _ (by rw [hsep]; rfl), List.filter_append]
  rfl

/-- One colon makes no path. -/
theorem pathsIn_eq_nil {cs : List Char} (h : cs.count ':' ≤ 1) : pathsIn cs = [] := by
  rw [pathsIn, List.filter_eq_nil_iff]
  intro word hword
  have hcount := Nat.le_trans ((sublist_of_mem_splitOnP hword).count_le ':') h
  rw [decide_eq_true_eq, Nat.not_lt]
  rw [← Source.joined_segments word] at hcount
  match hsegments : Source.segments word with
  | [] => exact Nat.zero_le 1
  | [piece] => exact Nat.le_refl 1
  | piece :: next :: pieces =>
    rw [hsegments, Source.joined_cons _ (List.cons_ne_nil _ _), List.count_append,
      List.count_cons_self, List.count_cons_self] at hcount
    omega

section

variable {mark : Char} {front path : List Char}

theorem pathsIn_skip (hmark : isPathChar mark = false) (hfront : front.count ':' ≤ 1)
    (rest : List Char) : pathsIn (front ++ mark :: rest) = pathsIn rest := by
  rw [pathsIn_append_cons hmark, pathsIn_eq_nil hfront, List.nil_append]

theorem pathsIn_path (hmark : isPathChar mark = false) (hchars : path.all isPathChar = true)
    (hcolons : 1 < (Source.segments path).length) (rest : List Char) :
    pathsIn (path ++ mark :: rest) = path :: pathsIn rest := by
  have hpath : pathsIn path = [path] := by
    have hword : ∀ c ∈ path, (!isPathChar c) = false := by simpa using hchars
    rw [pathsIn, List.splitOnP_eq_singleton hword]
    exact List.filter_eq_self.mpr (by simpa using hcolons)
  rw [pathsIn_append_cons hmark, hpath, List.singleton_append]

theorem pathsOf_eq_nil {line : String} (h : line.toList.count ':' ≤ 1) : pathsOf line = [] := by
  rw [pathsOf, pathsIn_eq_nil h, ite_self]

theorem pathsOf_of_code {line : String} (h : line.toList.head? ≠ some '/') :
    pathsOf line = pathsIn line.toList := by
  rw [pathsOf, if_neg]
  rw [List.isPrefixOf_iff_prefix]
  rintro ⟨rest, hrest⟩
  rw [← hrest] at h
  exact h rfl

end

end Text

namespace Source

/-! ## Keywords in paths -/

section

variable {words more : List (List Char)}

theorem isWord_of_isFree {word : List Char} (h : isFree word = true) : isWord word = true :=
  (Bool.and_eq_true_iff.mp h).1

theorem isLegal_rooted (hwords : words ≠ []) (h : ∀ word ∈ words, isWord word = true) :
    isLegal ("::".toList ++ joined words) = words.all isFree := by
  have hsegments := segments_joined hwords fun word hword => colon_not_mem_of_isWord (h word hword)
  rw [isLegal, if_pos (by simp)]
  exact congrArg (List.all · isFree) hsegments

theorem isLegal_joined (hwords : words ≠ []) (h : ∀ word ∈ words, isWord word = true) :
    isLegal (joined words) = (behindLead words).all isFree := by
  have hsegments := segments_joined hwords fun word hword => colon_not_mem_of_isWord (h word hword)
  rw [isLegal, if_neg, hsegments]
  rw [List.isPrefixOf_iff_prefix]
  rintro ⟨rest, hrest⟩
  -- the first word would be empty
  rw [← hrest] at hsegments
  have hnil : [] ∈ words := hsegments ▸ List.mem_cons_self
  cases h [] hnil

theorem behindLead_append (hwords : words ≠ []) (hmore : ∀ word ∈ more, isFree word = true) :
    (behindLead (words ++ more)).all isFree = (behindLead words).all isFree := by
  have hall : more.all isFree = true := List.all_eq_true.mpr hmore
  have hdrop : more.dropWhile (· = "super".toList) = more := by
    cases more with
    | nil => rfl
    | cons word more =>
      apply List.dropWhile_cons_of_neg
      rw [decide_eq_true_eq]
      rintro rfl
      cases hmore _ List.mem_cons_self
  have hbehind (ws : List (List Char)) :
      ((ws ++ more).dropWhile (· = "super".toList)).all isFree =
        (ws.dropWhile (· = "super".toList)).all isFree := by
    rw [List.dropWhile_append, hdrop]
    split
    · next hempty => rw [List.isEmpty_iff.mp hempty, hall, List.all_nil]
    · rw [List.all_append, hall, Bool.and_true]
  obtain ⟨word, words, rfl⟩ := List.exists_cons_of_ne_nil hwords
  rw [List.cons_append, behindLead, behindLead]
  split_ifs
  · rw [List.all_append, hall, Bool.and_true]
  · exact hbehind words
  · exact hbehind (word :: words)

/-- **Paths**: what comes behind the path to the library makes it neither better nor worse. -/
theorem isLegal_append {runtime : String} (hruntime : isPath runtime = true) (hmore : more ≠ [])
    (hfree : ∀ word ∈ more, isFree word = true) :
    isLegal (runtime.toList ++ "::".toList ++ joined more) = isLegal runtime.toList := by
  obtain ⟨names, hnames, hidentifier, hcases⟩ := (isPath_iff runtime).mp hruntime
  have hwords : names.map String.toList ≠ [] := by simpa using hnames
  have hword : ∀ word ∈ names.map String.toList, isWord word = true := by
    rw [List.forall_mem_map]
    exact fun name hname => (isIdentifier_iff name).mpr (hidentifier name hname)
  have hboth : ∀ word ∈ names.map String.toList ++ more, isWord word = true := by
    rw [List.forall_mem_append]
    exact ⟨hword, fun word hmem => isWord_of_isFree (hfree word hmem)⟩
  have hne := List.append_ne_nil_of_left_ne_nil hwords more
  have hall : more.all isFree = true := List.all_eq_true.mpr hfree
  rcases hcases with rfl | rfl
  · rw [toList_intercalate, ← joined_append hwords hmore, isLegal_joined hne hboth,
      isLegal_joined hwords hword, behindLead_append hwords hfree]
  · rw [String.toList_append, toList_intercalate, List.append_assoc, List.append_assoc,
      ← List.append_assoc (joined _), ← joined_append hwords hmore, isLegal_rooted hne hboth,
      isLegal_rooted hwords hword, List.all_append, hall, Bool.and_true]

end

/-! ## The names of a module -/

/-- The variant of the type of instructions. -/
def variant : Instruction Nat → String
  | .char _ => "Char"
  | .accept => "Match"
  | .jump _ => "Jump"
  | .split _ _ => "Split"
  | .save _ => "Save"
  | .nop => "Nop"

theorem count_colon_digits (n : Nat) : (toString n).toList.count ':' = 0 := by
  rw [List.count_eq_zero]
  exact fun hmem => ne_of_mem_toString (d := ':') rfl hmem rfl

theorem count_colon_hexDigits (n : Nat) : (Text.hexDigits n).count ':' = 0 := by
  rw [List.count_eq_zero]
  intro hmem
  obtain ⟨d, hd, hcolon⟩ := exists_digitChar (by decide) hmem
  have hdigit : ∀ d < 16, ':' ≠ d.digitChar := by decide
  exact hdigit d hd hcolon

/-- Only a colon is written with a colon. -/
theorem count_colon_escape (mark c : Char) : (Text.escape mark c).count ':' ≤ 1 := by
  rw [Text.escape.eq_def]
  split
  case h_6 =>
    split_ifs
    · rw [List.count_cons_of_ne (by decide)]
      exact List.count_le_length
    · rw [List.count_cons_of_ne (by decide), List.count_cons_of_ne (by decide),
        List.count_cons_of_ne (by decide), List.count_append, count_colon_hexDigits]
      decide
    · exact List.count_le_length
  all_goals decide

/-- The operands of a variant have no path. -/
theorem exists_entry_eq (i : Instruction Nat) : ∃ mark rest, Text.isPathChar mark = false ∧
    rest.count ':' ≤ 1 ∧ (entry i ++ ",").toList = (variant i).toList ++ mark :: rest := by
  cases i with
  | char c =>
    refine ⟨'(', (Text.quotedChar c).toList ++ "),".toList, rfl, ?_, by simp [entry, variant]⟩
    simpa [Text.quotedChar, Text.quoted, List.count_append] using count_colon_escape '\'' c
  | accept => exact ⟨',', [], rfl, by decide, rfl⟩
  | jump target =>
    refine ⟨'(', (toString target).toList ++ "),".toList, rfl, ?_, by simp [entry, variant]⟩
    rw [List.count_append, count_colon_digits]
    decide
  | split first second =>
    refine ⟨'(', (toString first).toList ++ ", ".toList ++ (toString second).toList ++ "),".toList,
      rfl, ?_, by simp [entry, variant]⟩
    rw [List.count_append, List.count_append, List.count_append, count_colon_digits,
      count_colon_digits]
    decide
  | save slot =>
    refine ⟨'(', (toString slot).toList ++ "),".toList, rfl, ?_, by simp [entry, variant]⟩
    rw [List.count_append, count_colon_digits]
    decide
  | nop => exact ⟨',', [], rfl, by decide, rfl⟩

section

variable (pattern : String) (p : Program) (names : Names)

theorem isPathChar_of_isPath {name : String} (h : isPath name = true) :
    ∀ c ∈ name.toList, Text.isPathChar c = true := by
  intro c hc
  rcases mem_word_of_isPath h hc with rfl | ⟨word, hword, hmem⟩
  · rfl
  · rw [Text.isPathChar, isWordChar_of_isWord hword hmem, Bool.or_true]

/-- The name of an item is read up to what follows it. -/
theorem itemOf?_declaration (front : String) (mark : Char) {line name : String} {rest : List Char}
    (hfront : front ∈ Text.declarations) (hname : isIdentifier name = true)
    (hmark : isWordChar mark = false)
    (hline : line.toList = front.toList ++ (name.toList ++ mark :: rest)) :
    Text.itemOf? line = some name := by
  have hword : ∀ c ∈ name.toList, isWordChar c = true := fun c hc => isWordChar_of_isWord hname hc
  have htake : (name.toList ++ mark :: rest).takeWhile isWordChar = name.toList := by
    rw [List.takeWhile_append_of_pos hword, List.takeWhile_cons_of_neg (by simp [hmark]),
      List.append_nil]
  have hfind : Text.declarations.findSome? (fun front' => front'.toList.isPrefixOf?
      (front.toList ++ (name.toList ++ mark :: rest))) = some (name.toList ++ mark :: rest) := by
    simp only [Text.declarations, List.mem_cons, List.not_mem_nil, or_false] at hfront
    rcases hfront with rfl | rfl | rfl <;> rfl
  rw [Text.itemOf?, hline, hfind, Option.map_some, htake, String.ofList_toList]

theorem itemOf?_indented {line : String} (hline : line.toList.head? = some ' ') :
    Text.itemOf? line = none := by
  obtain ⟨rest, hrest⟩ := List.head?_eq_some_iff.mp hline
  rw [Text.itemOf?, hrest]
  rfl

theorem items_headLines : (headLines pattern p).filterMap Text.itemOf? = [] := by
  rw [List.filterMap_eq_nil_iff]
  intro l hl
  obtain ⟨-, cs, hcs⟩ := headLines_comments pattern p l hl
  rw [Text.itemOf?, hcs]
  rfl

theorem items_tableLines (runtime : String) :
    (tableLines runtime p).filterMap Text.itemOf? = ["NUM_CAPTURES", "INSTRUCTIONS"] := by
  have hcount :
      Text.itemOf? ("pub const NUM_CAPTURES: usize = " ++ toString p.captureSlots ++ ";") =
        some "NUM_CAPTURES" :=
    itemOf?_declaration "pub const " ':' (by decide) (by decide) rfl (by simp; rfl)
  have htable : Text.itemOf? ("static INSTRUCTIONS: &[" ++ runtime ++ "::Instruction] = &[") =
      some "INSTRUCTIONS" :=
    itemOf?_declaration "static " ':' (by decide) (by decide) rfl (by simp; rfl)
  have hrows : (p.code.toList.map fun i =>
      "    " ++ runtime ++ "::Instruction::" ++ entry i ++ ",").filterMap Text.itemOf? = [] := by
    rw [List.filterMap_eq_nil_iff, List.forall_mem_map]
    exact fun i _ => itemOf?_indented (by simp)
  simp only [tableLines, List.filterMap_append, hrows, List.filterMap_cons, hcount, htable]
  rfl

theorem items_functionLines (hfunction : isIdentifier names.function = true) :
    (functionLines names).filterMap Text.itemOf? = [names.function] := by
  have hhead : Text.itemOf? ("pub fn " ++ names.function ++
      "(input: &str) -> (bool, Vec<Option<&str>>) \x7b") = some names.function :=
    itemOf?_declaration "pub fn " '(' (by decide) hfunction rfl (by simp; rfl)
  rw [functionLines, List.filterMap_cons_some hhead, List.filterMap_eq_nil_iff.mpr]
  simp only [List.forall_mem_cons]
  refine ⟨itemOf?_indented ?_, itemOf?_indented ?_, itemOf?_indented ?_, itemOf?_indented ?_, rfl,
    itemOf?_indented ?_, rfl, List.forall_mem_nil _⟩
  -- a literal is made of its characters; to evaluate it would be to decode it
  all_goals try rw [String.toList_append, String.toList_append]
  all_goals rw [String.toList_ofList]; rfl

theorem items_moduleText (hfunction : isIdentifier names.function = true)
    (hruntime : isPath names.runtime = true) :
    Text.items (moduleText pattern p names) = ["NUM_CAPTURES", "INSTRUCTIONS", names.function] := by
  rw [Text.items, lines_moduleText hfunction hruntime, moduleLines]
  simp only [List.filterMap_append, items_headLines, items_tableLines,
    items_functionLines names hfunction]
  rfl

/-- What the library has under a name. -/
def member (runtime name : String) : List Char :=
  (runtime ++ "::" ++ name).toList

theorem pathsIn_member {runtime name : String} {mark : Char} (hruntime : isPath runtime = true)
    (hname : name.toList.all Text.isPathChar = true) (hmark : Text.isPathChar mark = false)
    (rest : List Char) :
    Text.pathsIn (member runtime name ++ mark :: rest) =
      member runtime name :: Text.pathsIn rest := by
  have hcolons := one_lt_length_segments runtime.toList name.toList
  apply Text.pathsIn_path hmark
  · rw [member, String.toList_append, String.toList_append, List.all_append, List.all_append, hname,
      List.all_eq_true.mpr (isPathChar_of_isPath hruntime)]
    rfl
  · simpa [member] using hcolons

/-- The line of a member has no other path if there is not more than one colon on either side. -/
theorem pathsOf_member {line runtime name : String} {before mark : Char} {front rest : List Char}
    (hline : line.toList = front ++ before :: (member runtime name ++ mark :: rest))
    (hcode : line.toList.head? ≠ some '/') (hruntime : isPath runtime = true)
    (hname : name.toList.all Text.isPathChar = true) (hbefore : Text.isPathChar before = false)
    (hmark : Text.isPathChar mark = false) (hfront : front.count ':' ≤ 1)
    (hrest : rest.count ':' ≤ 1) :
    Text.pathsOf line = [member runtime name] := by
  rw [Text.pathsOf_of_code hcode, hline, Text.pathsIn_skip hbefore hfront,
    pathsIn_member hruntime hname hmark, Text.pathsIn_eq_nil hrest]

theorem paths_headLines : (headLines pattern p).flatMap Text.pathsOf = [] := by
  rw [List.flatMap_eq_nil_iff]
  intro l hl
  obtain ⟨-, cs, hcs⟩ := headLines_comments pattern p l hl
  rw [Text.pathsOf, hcs, if_pos (by simp)]

theorem isPathChar_variant (i : Instruction Nat) :
    ("Instruction::" ++ variant i).toList.all Text.isPathChar = true := by
  cases i <;> simp only [variant] <;> decide

theorem pathsOf_row {runtime : String} (hruntime : isPath runtime = true) (i : Instruction Nat) :
    Text.pathsOf ("    " ++ runtime ++ "::Instruction::" ++ entry i ++ ",") =
      [member runtime ("Instruction::" ++ variant i)] := by
  obtain ⟨mark, rest, hmark, hcount, hentry⟩ := exists_entry_eq i
  have hline : ("    " ++ runtime ++ "::Instruction::" ++ entry i ++ ",").toList =
      "   ".toList ++ ' ' :: (member runtime ("Instruction::" ++ variant i) ++ mark :: rest) := by
    rw [String.append_assoc, String.toList_append, hentry]
    simp [member]
  exact pathsOf_member hline (by simp) hruntime (isPathChar_variant i) rfl hmark (by decide) hcount

theorem paths_tableLines {runtime : String} (hruntime : isPath runtime = true) :
    (tableLines runtime p).flatMap Text.pathsOf =
      member runtime "Instruction" ::
        p.code.toList.map fun i => member runtime ("Instruction::" ++ variant i) := by
  have hcount :
      Text.pathsOf ("pub const NUM_CAPTURES: usize = " ++ toString p.captureSlots ++ ";") = [] := by
    apply Text.pathsOf_eq_nil
    rw [String.toList_append, String.toList_append, List.count_append, List.count_append,
      count_colon_digits]
    decide
  have htable : Text.pathsOf ("static INSTRUCTIONS: &[" ++ runtime ++ "::Instruction] = &[") =
      [member runtime "Instruction"] := by
    have hline : ("static INSTRUCTIONS: &[" ++ runtime ++ "::Instruction] = &[").toList =
        "static INSTRUCTIONS: &".toList ++ '[' :: (member runtime "Instruction" ++ ']' ::
          " = &[".toList) := by simp [member]
    exact pathsOf_member hline (by simp) hruntime (by decide) rfl rfl (by decide) (by decide)
  have hrows : (p.code.toList.map fun i =>
      "    " ++ runtime ++ "::Instruction::" ++ entry i ++ ",").flatMap Text.pathsOf =
        p.code.toList.map fun i => member runtime ("Instruction::" ++ variant i) := by
    simp only [List.flatMap_map, pathsOf_row hruntime]
    exact List.map_eq_flatMap.symm
  have hblank : Text.pathsOf "" = [] := Text.pathsOf_eq_nil (by decide)
  have hend : Text.pathsOf "];" = [] := Text.pathsOf_eq_nil (by decide)
  simp only [tableLines, List.flatMap_append, hrows, List.flatMap_cons, List.flatMap_nil, hcount,
    htable, hblank, hend, List.append_nil, List.nil_append, List.singleton_append]

theorem paths_functionLines (hfunction : isIdentifier names.function = true)
    (hruntime : isPath names.runtime = true) :
    (functionLines names).flatMap Text.pathsOf =
      ["std::sync::LazyLock".toList, member names.runtime "Program",
        "std::sync::LazyLock::new".toList, member names.runtime "Program::from_instructions",
        member names.runtime "run"] := by
  have hhead : Text.pathsOf ("pub fn " ++ names.function ++
      "(input: &str) -> (bool, Vec<Option<&str>>) \x7b") = [] := by
    apply Text.pathsOf_eq_nil
    rw [String.toList_append, String.toList_append, List.count_append, List.count_append,
      List.count_eq_zero.mpr (colon_not_mem_of_isWord hfunction)]
    decide
  have hstatic : Text.pathsOf ("    static PROGRAM: std::sync::LazyLock<" ++ names.runtime ++
      "::Program> = std::sync::LazyLock::new(|| \x7b") = ["std::sync::LazyLock".toList,
        member names.runtime "Program", "std::sync::LazyLock::new".toList] := by
    have hline : ("    static PROGRAM: std::sync::LazyLock<" ++ names.runtime ++
        "::Program> = std::sync::LazyLock::new(|| \x7b").toList =
          "    static PROGRAM:".toList ++ ' ' :: ("std::sync::LazyLock".toList ++ '<' ::
            (member names.runtime "Program" ++ '>' :: (" =".toList ++ ' ' ::
              ("std::sync::LazyLock::new".toList ++ '(' :: "|| \x7b".toList)))) := by simp [member]
    rw [Text.pathsOf_of_code (by simp), hline, Text.pathsIn_skip rfl (by decide),
      Text.pathsIn_path rfl (by decide) (by decide), pathsIn_member hruntime (by decide) rfl,
      Text.pathsIn_skip rfl (by decide), Text.pathsIn_path rfl (by decide) (by decide),
      Text.pathsIn_eq_nil (by decide)]
  have hcall : Text.pathsOf ("        " ++ names.runtime ++
      "::Program::from_instructions(INSTRUCTIONS.to_vec(), NUM_CAPTURES / 2)") =
        [member names.runtime "Program::from_instructions"] := by
    have hline : ("        " ++ names.runtime ++
        "::Program::from_instructions(INSTRUCTIONS.to_vec(), NUM_CAPTURES / 2)").toList =
          "       ".toList ++ ' ' :: (member names.runtime "Program::from_instructions" ++ '(' ::
            "INSTRUCTIONS.to_vec(), NUM_CAPTURES / 2)".toList) := by simp [member]
    exact pathsOf_member hline (by simp) hruntime (by decide) rfl rfl (by decide) (by decide)
  have hrun : Text.pathsOf ("    " ++ names.runtime ++ "::run(&PROGRAM, input)") =
      [member names.runtime "run"] := by
    have hline : ("    " ++ names.runtime ++ "::run(&PROGRAM, input)").toList =
        "   ".toList ++ ' ' ::
          (member names.runtime "run" ++ '(' :: "&PROGRAM, input)".toList) := by
      simp [member]
    exact pathsOf_member hline (by simp) hruntime (by decide) rfl rfl (by decide) (by decide)
  have hexpect :
      Text.pathsOf "            .expect(\"embedded instruction table is valid\")" = [] := by
    apply Text.pathsOf_eq_nil
    rw [String.toList_ofList]
    decide
  have hclose : Text.pathsOf "    \x7d);" = [] := Text.pathsOf_eq_nil (by decide)
  have hblank : Text.pathsOf "" = [] := Text.pathsOf_eq_nil (by decide)
  have hend : Text.pathsOf "\x7d" = [] := Text.pathsOf_eq_nil (by decide)
  simp only [functionLines, List.flatMap_cons, List.flatMap_nil, hhead, hstatic, hcall, hexpect,
    hclose, hblank, hrun, hend]
  rfl

theorem paths_moduleText (hfunction : isIdentifier names.function = true)
    (hruntime : isPath names.runtime = true) :
    Text.paths (moduleText pattern p names) =
      member names.runtime "Instruction" ::
        (p.code.toList.map fun i => member names.runtime ("Instruction::" ++ variant i)) ++
      ["std::sync::LazyLock".toList, member names.runtime "Program",
        "std::sync::LazyLock::new".toList, member names.runtime "Program::from_instructions",
        member names.runtime "run"] := by
  have hblank : Text.pathsOf "" = [] := Text.pathsOf_eq_nil (by decide)
  rw [Text.paths, lines_moduleText hfunction hruntime, moduleLines]
  simp only [List.flatMap_append, List.flatMap_cons, List.flatMap_nil, paths_headLines,
    paths_tableLines p hruntime, paths_functionLines names hfunction hruntime, hblank,
    List.nil_append, List.append_nil]

theorem isLegal_member {runtime name : String} (hruntime : isPath runtime = true)
    (hname : (segments name.toList).all isFree = true) :
    isLegal (member runtime name) = isLegal runtime.toList := by
  have h := isLegal_append hruntime (segments_ne_nil name.toList) (List.all_eq_true.mp hname)
  rwa [joined_segments, ← String.toList_append, ← String.toList_append] at h

theorem isFree_iff {name : String} (hname : isIdentifier name = true) :
    isFree name.toList = true ↔ name ∉ keywords := by
  rw [isFree, String.ofList_toList, Bool.and_eq_true, decide_eq_true_eq]
  exact and_iff_right hname

/-- **Names**: the names that are accepted and fit are those that are no keywords, are not taken,
and lead to the library as a path may. -/
theorem namesFit_moduleText_iff (pattern : String) (p : Program) (names : Names)
    (hfunction : isIdentifier names.function = true) (hruntime : isPath names.runtime = true) :
    Text.items (moduleText pattern p names) = ["NUM_CAPTURES", "INSTRUCTIONS", names.function] ∧
    (Text.NamesFit (moduleText pattern p names) ↔
      names.function ∉ keywords ∧ names.function ≠ "NUM_CAPTURES" ∧
        names.function ≠ "INSTRUCTIONS" ∧ isLegal names.runtime.toList = true) := by
  have hitems := items_moduleText pattern p names hfunction hruntime
  have hpaths := paths_moduleText pattern p names hfunction hruntime
  have hmember (name : String) (hname : (segments name.toList).all isFree = true) :=
    isLegal_member hruntime hname
  refine ⟨hitems, fun h => ?_, ?_⟩
  · have hdistinct := h.distinct
    rw [hitems] at hdistinct
    simp only [List.nodup_cons, List.mem_cons, List.not_mem_nil, or_false, not_or] at hdistinct
    refine ⟨?_, Ne.symm hdistinct.1.2, Ne.symm hdistinct.2.1, ?_⟩
    · rw [← isFree_iff hfunction]
      exact h.free _ (by simp [hitems])
    · rw [← hmember "run" (by decide)]
      exact h.legal _ (by simp [hpaths])
  · rintro ⟨hfree, hcaptures, htable, hlegal⟩
    constructor
    case distinct =>
      rw [hitems]
      simp [hcaptures.symm, htable.symm]
    case free =>
      rw [hitems, List.forall_mem_cons, List.forall_mem_cons, List.forall_mem_singleton]
      exact ⟨by decide, by decide, (isFree_iff hfunction).mpr hfree⟩
    case legal =>
      have hlegal' (name : String) (hname : (segments name.toList).all isFree = true) :
          isLegal (member names.runtime name) = true := (hmember name hname).trans hlegal
      rw [hpaths]
      simp only [List.cons_append, List.forall_mem_cons, List.forall_mem_append,
        List.forall_mem_map]
      refine ⟨hlegal' _ (by decide), fun i _ => hlegal' _ ?_, by decide, hlegal' _ (by decide),
        by decide, hlegal' _ (by decide), hlegal' _ (by decide), List.forall_mem_nil _⟩
      cases i <;> simp only [variant] <;> decide

/-- Names that fit: the path leads out of two modules. -/
theorem namesFit_moduleText_iff_outside : ∃ p, (Expr.literal 'a').program = .ok p ∧
    isIdentifier "r_fn" = true ∧ isPath "self::super::super::regvm" = true ∧
    Text.NamesFit (moduleText "a" p ⟨"r_fn", "self::super::super::regvm"⟩) := by
  obtain ⟨p, hp⟩ := Expr.exists_program (e := .literal 'a') (by decide)
  refine ⟨p, hp, by decide, by decide, ?_⟩
  exact (namesFit_moduleText_iff "a" p ⟨"r_fn", "self::super::super::regvm"⟩ (by decide)
    (by decide)).2.mpr ⟨by decide, by decide, by decide, by decide⟩

/-- Names that are accepted and do not fit: a keyword, the name of another item, and a path with a
keyword that leads nothing. -/
theorem exists_accepted_misfit : ∃ p, (Expr.literal 'a').program = .ok p ∧
    (isIdentifier "fn" = true ∧ isIdentifier "NUM_CAPTURES" = true ∧ isPath "regvm" = true ∧
      isIdentifier "regex_match" = true ∧ isPath "regvm::crate" = true) ∧
    "fn" ∈ keywords ∧
    ¬ (Text.items (moduleText "a" p ⟨"NUM_CAPTURES", "regvm"⟩)).Nodup ∧
    (∃ path ∈ Text.paths (moduleText "a" p ⟨"regex_match", "regvm::crate"⟩), isLegal path = false) ∧
    ¬ Text.NamesFit (moduleText "a" p ⟨"fn", "regvm"⟩) ∧
    ¬ Text.NamesFit (moduleText "a" p ⟨"NUM_CAPTURES", "regvm"⟩) ∧
    ¬ Text.NamesFit (moduleText "a" p ⟨"regex_match", "regvm::crate"⟩) := by
  obtain ⟨p, hp⟩ := Expr.exists_program (e := .literal 'a') (by decide)
  have hkeyword := items_moduleText "a" p ⟨"fn", "regvm"⟩ (by decide) (by decide)
  have htaken := items_moduleText "a" p ⟨"NUM_CAPTURES", "regvm"⟩ (by decide) (by decide)
  have hpaths := paths_moduleText "a" p ⟨"regex_match", "regvm::crate"⟩ (by decide) (by decide)
  have htwice : ¬ (Text.items (moduleText "a" p ⟨"NUM_CAPTURES", "regvm"⟩)).Nodup := by
    rw [htaken]
    decide
  have hpath : member "regvm::crate" "run" ∈
      Text.paths (moduleText "a" p ⟨"regex_match", "regvm::crate"⟩) := by
    rw [hpaths]
    simp
  have hmisled : isLegal (member "regvm::crate" "run") = false := by decide
  refine ⟨p, hp, by decide, by decide, htwice, ⟨_, hpath, hmisled⟩, fun h => ?_,
    fun h => htwice h.distinct, fun h => ?_⟩
  · have hfree := h.free "fn" (by simp [hkeyword])
    revert hfree
    decide
  · rw [h.legal _ hpath] at hmisled
    cases hmisled

end

end Source

end RegexMachine
