import RegexMachine.Proofs.Pattern.Reading

/-!
# Places in a pattern

A `Site` is a block of a pattern with all that stands around it: the tokens before it, the blocks
behind it, and the text on both sides of its first character. Every block has a site as long as
those before it read as tokens (`exists_site`), and a block that reads as a mark begins with this
mark (`Site.char_of_mark`).
-/

namespace RegexMachine

/-- The character that a token is written with, unless it stands for itself. -/
def Token.mark? : Token → Option Char
  | bar => some '|'
  | quantifier q => some q.symbol
  | openGroup _ => some '('
  | closeGroup => some ')'
  | character _ | finish => none

/-- A block that begins with a character, in front of a text, is read like this. -/
inductive Begins : Char → List Char → Except Fault Token → Prop where
  /-- a backslash with nothing behind it -/
  | trailing : Begins '\\' [] (.error .trailingBackslash)
  /-- a backslash and the character behind it -/
  | escape (c : Char) (rest : List Char) : Begins '\\' (c :: rest) (readEscape c)
  /-- `(?` with nothing behind it -/
  | unfinished : Begins '(' ['?'] (.error .unsupportedGroup)
  /-- `(?` and the character behind it -/
  | groupKind (c : Char) (rest : List Char) : Begins '(' ('?' :: c :: rest) (readGroupKind c)
  /-- a character alone -/
  | alone (c : Char) (back : List Char) : Begins c back (.ok (.ofChar c))

theorem readEscape_eq_ok {c : Char} {token : Token} (h : readEscape c = .ok token) :
    ∃ d, token = .character d := by
  unfold readEscape at h
  split at h
  case h_5 =>
    split at h
    · exact ⟨c, (Except.ok.inj h).symm⟩
    · cases h
  all_goals exact ⟨_, (Except.ok.inj h).symm⟩

theorem readEscape_eq_error {c : Char} {fault : Fault} (h : readEscape c = .error fault) :
    fault = .invalidEscape c := by
  unfold readEscape at h
  split at h
  case h_5 =>
    split at h
    · cases h
    · exact (Except.error.inj h).symm
  all_goals cases h

theorem readGroupKind_eq_ok {c : Char} {token : Token} (h : readGroupKind c = .ok token) :
    token = .openGroup false := by
  unfold readGroupKind at h
  split at h
  · exact (Except.ok.inj h).symm
  · cases h

theorem readGroupKind_eq_error {c : Char} {fault : Fault} (h : readGroupKind c = .error fault) :
    fault = .unsupportedGroup ∧ c ≠ ':' := by
  unfold readGroupKind at h
  split at h
  · cases h
  · rename_i hc
    exact ⟨(Except.error.inj h).symm, hc⟩

theorem mark_ofChar {c d : Char} (h : (Token.ofChar c).mark? = some d) : c = d := by
  unfold Token.ofChar at h
  split at h
  case h_7 => cases h
  all_goals exact Option.some.inj h

/-- A mark is written as it is. -/
theorem Begins.eq_mark {c d : Char} {back : List Char} {token : Token}
    (h : Begins c back (.ok token)) (hmark : token.mark? = some d) : c = d := by
  generalize hreading : Except.ok token = reading at h
  cases h with
  | trailing | unfinished => cases hreading
  | escape =>
    obtain ⟨e, rfl⟩ := readEscape_eq_ok hreading.symm
    cases hmark
  | groupKind =>
    obtain rfl := readGroupKind_eq_ok hreading.symm
    exact Option.some.inj hmark
  | alone =>
    obtain rfl := Except.ok.inj hreading
    exact mark_ofChar hmark

/-- The first of the blocks of a text, and those behind it. -/
theorem blocks_eq_cons {offset : Nat} {cs : List Char} {block : Block} {behind : List Block}
    (h : blocks offset cs = block :: behind) : block.offset = offset ∧
      (∃ c back, cs = c :: back ∧ Begins c back block.reading) ∧
      ∃ rest, cs = block.text ++ rest ∧
        blocks (offset + Text.byteSize block.text) rest = behind := by
  cases cs using blocks.fun_cases with
  | case1 => cases h
  | case2 =>
    obtain ⟨rfl, rfl⟩ := List.cons.inj h
    exact ⟨rfl, ⟨_, _, rfl, .trailing⟩, [], rfl, rfl⟩
  | case3 c rest =>
    rw [blocks] at h
    obtain ⟨rfl, rfl⟩ := List.cons.inj h
    exact ⟨rfl, ⟨_, _, rfl, .escape c rest⟩, rest, rfl, rfl⟩
  | case4 =>
    obtain ⟨rfl, rfl⟩ := List.cons.inj h
    exact ⟨rfl, ⟨_, _, rfl, .unfinished⟩, [], rfl, rfl⟩
  | case5 c rest =>
    rw [blocks] at h
    obtain ⟨rfl, rfl⟩ := List.cons.inj h
    exact ⟨rfl, ⟨_, _, rfl, .groupKind c rest⟩, rest, rfl, rfl⟩
  | case6 c rest hlast hescape hopen hgroup =>
    rw [blocks.eq_6 offset c rest hlast hescape hopen hgroup] at h
    obtain ⟨rfl, rfl⟩ := List.cons.inj h
    exact ⟨rfl, ⟨_, _, rfl, .alone c rest⟩, rest, rfl, rfl⟩

/-- Blocks begin where those before them end. -/
theorem exists_text_of_blocks {offset : Nat} {cs : List Char} {before behind : List Block}
    {block : Block} (h : blocks offset cs = before ++ block :: behind) :
    ∃ front c back, cs = front ++ c :: back ∧ block.offset = offset + Text.byteSize front ∧
      Begins c back block.reading := by
  induction before generalizing offset cs with
  | nil =>
    obtain ⟨hoffset, ⟨c, back, hcs, hbegins⟩, -⟩ := blocks_eq_cons h
    exact ⟨[], c, back, hcs, hoffset, hbegins⟩
  | cons first before ih =>
    obtain ⟨-, -, rest, rfl, hrest⟩ := blocks_eq_cons h
    obtain ⟨front, c, back, rfl, hoffset, hbegins⟩ := ih hrest
    refine ⟨first.text ++ front, c, back, by rw [List.append_assoc], ?_, hbegins⟩
    rw [hoffset, Text.byteSize_append, Nat.add_assoc]

/-- A block of a pattern and what stands around it. -/
structure Site (pattern : String) where
  /-- the blocks before it -/
  before : List Block
  /-- the block -/
  block : Block
  /-- the blocks behind it -/
  behind : List Block
  /-- these are all blocks -/
  blocks_eq : blocks 0 pattern.toList = before ++ block :: behind
  /-- the tokens before it, each with its position -/
  items : List (Nat × Token)
  /-- the blocks before it read as these tokens -/
  spelled : Spelled before items
  /-- the text before it -/
  front : List Char
  /-- its first character -/
  char : Char
  /-- the text behind this character -/
  back : List Char
  /-- this is the whole text -/
  text_eq : pattern.toList = front ++ char :: back
  /-- the block stands at this character -/
  offset_eq : block.offset = Text.byteSize front
  /-- and begins with it -/
  begins : Begins char back block.reading

namespace Site

variable {pattern : String} (s : Site pattern)

/-- Byte offset in the pattern. -/
def position : Nat := s.block.offset

/-- The tokens before it. -/
def tokens : List Token := s.items.map Prod.snd

theorem isBoundary : Text.IsBoundary pattern s.position :=
  ⟨s.front, s.char :: s.back, s.text_eq, s.offset_eq.symm⟩

theorem position_lt : s.position < Text.byteSize pattern.toList := by
  have hchar := s.char.utf8Size_pos
  rw [position, s.offset_eq, s.text_eq, Text.byteSize_append, Text.byteSize_cons]
  omega

variable {s}

theorem char_of_mark {token : Token} {d : Char} (h : s.block.reading = .ok token)
    (hmark : token.mark? = some d) : s.char = d := by
  have hbegins := s.begins
  rw [h] at hbegins
  exact hbegins.eq_mark hmark

end Site

/-! ## Blocks and the tokens that they spell -/

theorem spelled_append {rest more : List Block} {items items' : List (Nat × Token)}
    (h : Spelled rest items) (h' : Spelled more items') :
    Spelled (rest ++ more) (items ++ items') := by
  rw [Spelled, List.map_append, List.map_append, h, h']

theorem eq_nil_of_spelled {rest : List Block} (h : Spelled rest []) : rest = [] :=
  List.map_eq_nil_iff.mp h

theorem eq_singleton_of_spelled {rest : List Block} {item : Nat × Token} (h : Spelled rest [item]) :
    ∃ block, rest = [block] ∧ block.reading = .ok item.2 := by
  cases rest with
  | nil => cases h
  | cons block rest =>
    obtain ⟨token, more, hreading, hrest, heq⟩ := spelled_cons_iff.mp h
    obtain ⟨rfl, rfl⟩ := List.cons.inj heq
    exact ⟨block, by rw [eq_nil_of_spelled hrest], hreading⟩

/-- A block that stands behind tokens has a site. -/
theorem exists_site {pattern : String} {before behind : List Block} {block : Block}
    {items : List (Nat × Token)} (h : blocks 0 pattern.toList = before ++ block :: behind)
    (hspelled : Spelled before items) :
    ∃ s : Site pattern, s.block = block ∧ s.behind = behind ∧ s.items = items := by
  obtain ⟨front, c, back, htext, hoffset, hbegins⟩ := exists_text_of_blocks h
  rw [Nat.zero_add] at hoffset
  exact ⟨⟨before, block, behind, h, items, hspelled, front, c, back, htext, hoffset, hbegins⟩,
    rfl, rfl, rfl⟩

/-- Every token that was read has a site. -/
theorem exists_site_of_item {pattern : String} {read behind : List Block} {position : Nat}
    {token : Token} {items more : List (Nat × Token)}
    (h : blocks 0 pattern.toList = read ++ behind)
    (hspelled : Spelled read (items ++ (position, token) :: more)) :
    ∃ s : Site pattern, s.position = position ∧ s.block.reading = .ok token ∧ s.items = items ∧
      ∃ between, Spelled between more ∧ s.behind = between ++ behind := by
  rw [Spelled, List.map_append, List.map_eq_append_iff] at hspelled
  obtain ⟨before, rest, rfl, hbefore, hrest⟩ := hspelled
  cases rest with
  | nil => cases hrest
  | cons block between =>
    obtain ⟨token', more', hreading, hbetween, heq⟩ := spelled_cons_iff.mp hrest
    obtain ⟨⟨rfl, rfl⟩, rfl⟩ : (block.offset = position ∧ token' = token) ∧ more' = more := by
      simpa using heq
    rw [List.append_assoc] at h
    obtain ⟨s, rfl, hbehind, hitems⟩ := exists_site h hbefore
    exact ⟨s, rfl, hreading, hitems, between, hbetween, hbehind⟩

end RegexMachine
