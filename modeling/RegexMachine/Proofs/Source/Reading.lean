import RegexMachine.Source.Module
import Mathlib.Data.List.Basic

/-!
# Reading a source module

A reader of the text of a module, who knows neither the names nor the program. It looks for the
number of slots, and for the rows between the head of the table and the line that ends it
(`readModule`):

* **numerals** — digits of a base, at least one (`number?`);
* **character literals** — one character or an escape between single quotation marks (`unescape`);
* **rows** — the type that is named at the head of the table, and a variant of it with its operands
  (`readVariant`).

The variant of every instruction is read as it was written (`readVariant_entry`).
-/

namespace RegexMachine.Source

/-! ## Numerals -/

/-- The value of a digit. -/
def digit? (base : Nat) (c : Char) : Option Nat :=
  let value :=
    if '0' ≤ c ∧ c ≤ '9' then c.toNat - '0'.toNat
    else if 'a' ≤ c ∧ c ≤ 'f' then c.toNat - 'a'.toNat + 10
    else if 'A' ≤ c ∧ c ≤ 'F' then c.toNat - 'A'.toNat + 10
    else base
  if value < base then some value else none

/-- The number with these digits. -/
def number? (base : Nat) (digits : List Char) : Option Nat :=
  if digits = [] then none
  else digits.foldlM (fun n c => (digit? base c).map (base * n + ·)) 0

theorem digit?_digitChar : ∀ d < 16, ∀ base ≤ 16, d < base → digit? base d.digitChar = some d := by
  decide

theorem foldlM_toDigits {base : Nat} (hbase : 1 < base) (hle : base ≤ 16) (n : Nat) :
    (Nat.toDigits base n).foldlM (fun n c => (digit? base c).map (base * n + ·)) 0 = some n := by
  induction n using Nat.strongRecOn with
  | ind n ih =>
    rcases Nat.lt_or_ge n base with hlt | hge
    · rw [Nat.toDigits_of_lt_base hlt]
      simp [digit?_digitChar n (by omega) base hle hlt]
    · have hdigit : n % base < base := Nat.mod_lt _ (by omega)
      rw [Nat.toDigits_of_base_le hbase hge, List.foldlM_append,
        ih (n / base) (Nat.div_lt_self (by omega) hbase)]
      simp [digit?_digitChar _ (by omega) base hle hdigit, Nat.div_add_mod]

/-- A number is read from its numeral. -/
theorem number?_toDigits {base : Nat} (hbase : 1 < base) (hle : base ≤ 16) (n : Nat) :
    number? base (Nat.toDigits base n) = some n := by
  rw [number?, if_neg Nat.toDigits_ne_nil]
  exact foldlM_toDigits hbase hle n

theorem toList_toString (n : Nat) : (toString n).toList = Nat.toDigits 10 n := by
  rw [Nat.toString_eq_repr, Nat.repr_eq_ofList_toDigits, String.toList_ofList]

/-! ## Literals and rows -/

/-- What is between an opening and a closing text. -/
def between? (front rear cs : List Char) : Option (List Char) :=
  (front.isPrefixOf? cs).bind rear.isSuffixOf?

/-- The character with a code point. -/
def charOf? (code : Nat) : Option Char :=
  if code.isValidChar then some (Char.ofNat code) else none

/-- The character that an escape stands for, from what is behind its backslash. -/
def escaped? : List Char → Option Char
  | ['0'] => some '\x00'
  | ['t'] => some '\t'
  | ['n'] => some '\n'
  | ['r'] => some '\r'
  | ['\\'] => some '\\'
  | ['\''] => some '\''
  | ['"'] => some '"'
  | cs => ((between? ['u', '{'] ['}'] cs).bind (number? 16)).bind charOf?

/-- The character of a literal, from what is between its quotation marks. -/
def unescape : List Char → Option Char
  | '\\' :: cs => escaped? cs
  | [c] => if c ∈ ['\t', '\n', '\r', '\''] then none else some c
  | _ => none

/-- Two numbers. -/
def readPair (cs : List Char) : Option (Nat × Nat) := do
  let first ← number? 10 (cs.takeWhile (· ≠ ','))
  let second ← (between? ", ".toList [] (cs.dropWhile (· ≠ ','))).bind (number? 10)
  some (first, second)

/-- A variant of the type of instructions, with its operands. -/
def readVariant (cs : List Char) : Option (Instruction Nat) :=
  if cs = "Match".toList then some .accept
  else if cs = "Nop".toList then some .nop
  else
    ((between? "Char('".toList "')".toList cs).bind unescape).map .char
      <|> ((between? "Jump(".toList ")".toList cs).bind (number? 10)).map .jump
      <|> ((between? "Split(".toList ")".toList cs).bind readPair).map (fun (t, u) => .split t u)
      <|> ((between? "Save(".toList ")".toList cs).bind (number? 10)).map .save

/-- The rows of a table up to the line that ends it. -/
def readRows (type : List Char) : List (List Char) → Option (List (Instruction Nat))
  | [] => none
  | line :: lines =>
    if line = "];".toList then some []
    else do
      let i ← (between? ("    ".toList ++ type ++ "::".toList) ",".toList line).bind readVariant
      let code ← readRows type lines
      some (i :: code)

/-- The first table, whose head names the type of its rows. -/
def readTable : List (List Char) → Option (List (Instruction Nat))
  | [] => none
  | line :: lines =>
    match between? "static INSTRUCTIONS: &[".toList "] = &[".toList line with
    | some type => readRows type lines
    | none => readTable lines

/-- The first number of slots. -/
def readCaptures (lines : List (List Char)) : Option Nat :=
  lines.findSome? fun line =>
    (between? "pub const NUM_CAPTURES: usize = ".toList ";".toList line).bind (number? 10)

/-- What a module embeds. -/
structure Embedded where
  /-- number of slots of capturing groups -/
  captures : Nat
  /-- the table -/
  table : List (Instruction Nat)
  deriving DecidableEq, Repr

/-- What the text of a module embeds. -/
def readModule (text : String) : Option Embedded := do
  let lines := text.toList.splitOn '\n'
  let captures ← readCaptures lines
  let table ← readTable lines
  some ⟨captures, table⟩

/-! ## Reading what was written -/

theorem between?_append (front rear cs : List Char) :
    between? front rear (front ++ cs ++ rear) = some cs := by
  have hfront : front.isPrefixOf? (front ++ cs ++ rear) = some (cs ++ rear) := by
    rw [List.isPrefixOf?_eq_some_iff_append_eq, List.append_assoc]
  have hrear : rear.isSuffixOf? (cs ++ rear) = some cs := by
    rw [List.isSuffixOf?_eq_some_iff_append_eq]
  rw [between?, hfront, Option.bind_some, hrear]

theorem charOf?_toNat (c : Char) : charOf? c.toNat = some c := by
  have hvalid : c.toNat.isValidChar := c.valid
  rw [charOf?, if_pos hvalid, Char.ofNat_toNat]

theorem escaped?_hexDigits (c : Char) :
    escaped? ('u' :: '{' :: (Text.hexDigits c.toNat ++ ['}'])) = some c := by
  have hdigits : between? ['u', '{'] ['}'] ('u' :: '{' :: (Text.hexDigits c.toNat ++ ['}'])) =
      some (Text.hexDigits c.toNat) := between?_append ['u', '{'] ['}'] _
  calc
    escaped? ('u' :: '{' :: (Text.hexDigits c.toNat ++ ['}']))
      = ((between? ['u', '{'] ['}'] ('u' :: '{' :: (Text.hexDigits c.toNat ++ ['}']))).bind
          (number? 16)).bind charOf? := rfl
    _ = (number? 16 (Text.hexDigits c.toNat)).bind charOf? := by rw [hdigits, Option.bind_some]
    _ = charOf? c.toNat := by
      rw [Text.hexDigits, number?_toDigits (by decide) (by decide), Option.bind_some]
    _ = some c := charOf?_toNat c

/-- **Escapes**: a character is read from its literal. -/
theorem unescape_escape (c : Char) : unescape (Text.escape '\'' c) = some c := by
  rw [Text.escape.eq_def]
  split
  case h_6 hzero htab hfeed hreturn hslash =>
    split_ifs with hmark hcode
    · rw [hmark]
      rfl
    · exact escaped?_hexDigits c
    · simp_all [unescape]
  all_goals rfl

theorem number?_toString (n : Nat) : number? 10 (toString n).toList = some n := by
  rw [toList_toString]
  exact number?_toDigits (by decide) (by decide) n

theorem ne_of_mem_toString {n : Nat} {c d : Char} (hd : d.isDigit = false)
    (hc : c ∈ (toString n).toList) : c ≠ d := by
  rw [toList_toString] at hc
  rintro rfl
  rw [Nat.isDigit_of_mem_toDigits (by decide) (by decide) hc] at hd
  cases hd

theorem readPair_append (t u : Nat) :
    readPair ((toString t).toList ++ ", ".toList ++ (toString u).toList) = some (t, u) := by
  have hdigits : ∀ c ∈ (toString t).toList, decide (c ≠ ',') = true := by
    intro c hc
    exact decide_eq_true (ne_of_mem_toString rfl hc)
  have hcomma : between? ", ".toList [] (", ".toList ++ (toString u).toList) =
      some (toString u).toList := by
    simpa using between?_append ", ".toList [] (toString u).toList
  have htake : (", ".toList ++ (toString u).toList).takeWhile (· ≠ ',') = [] := rfl
  have hdrop : (", ".toList ++ (toString u).toList).dropWhile (· ≠ ',') =
      ", ".toList ++ (toString u).toList := rfl
  rw [readPair, List.append_assoc, List.takeWhile_append_of_pos hdigits,
    List.dropWhile_append_of_pos hdigits, htake, hdrop, hcomma, List.append_nil]
  simp only [number?_toString, Option.bind_some, Option.bind_eq_bind]

/-- **Rows**: an instruction is read from its variant. -/
theorem readVariant_entry (i : Instruction Nat) : readVariant (entry i).toList = some i := by
  cases i with
  | char c =>
    have hliteral : (entry (.char c)).toList =
        "Char('".toList ++ Text.escape '\'' c ++ "')".toList := by
      simp [entry, Text.quotedChar, Text.quoted]
    rw [hliteral, readVariant, if_neg (by simp), if_neg (by simp), between?_append,
      Option.bind_some, unescape_escape]
    rfl
  | accept => rfl
  | jump t =>
    rw [entry, String.toList_append, String.toList_append, readVariant, if_neg (by simp),
      if_neg (by simp), between?_append, Option.bind_some, number?_toString]
    rfl
  | split t u =>
    have hpair : (entry (.split t u)).toList =
        "Split(".toList ++ ((toString t).toList ++ ", ".toList ++ (toString u).toList) ++
          ")".toList := by
      simp [entry]
    rw [hpair, readVariant, if_neg (by simp), if_neg (by simp), between?_append, Option.bind_some,
      readPair_append]
    rfl
  | save slot =>
    rw [entry, String.toList_append, String.toList_append, readVariant, if_neg (by simp),
      if_neg (by simp), between?_append, Option.bind_some, number?_toString]
    rfl
  | nop => rfl

end RegexMachine.Source
