import RegexMachine.Pattern.Lexer

/-!
# Tiles of a pattern

The blocks that scanning uses up one after the other are **tiles**: they lie side by side and cover
the whole pattern, also behind those that are at fault.

* **one tile** — what a tile reads as can be seen on the tile alone (`readTile`). What stands behind
  it matters to where it ends, and only for a parenthesis, which goes on if a question mark follows.
* **all tiles** — every scan uses up one tile and leaves the lexer at the next one
  (`Lexer.skip_of_tiled`), so after as many scans as there are tiles the pattern is used up.
-/

namespace RegexMachine

open Text (byteSize)

/-! ## One tile -/

/-- The shapes of a tile, given the character behind it. -/
inductive Tile : List Char → Option Char → Prop where
  /-- a character alone, if it does not begin a longer tile -/
  | alone (c : Char) (next : Option Char) (hescape : c ≠ '\\') (hopen : c = '(' → next ≠ some '?') :
      Tile [c] next
  /-- a backslash and a character -/
  | escape (c : Char) (next : Option Char) : Tile ['\\', c] next
  /-- `(?` and a character -/
  | groupKind (c : Char) (next : Option Char) : Tile ['(', '?', c] next
  /-- a backslash at the end -/
  | trailing : Tile ['\\'] none
  /-- `(?` at the end -/
  | unfinished : Tile ['(', '?'] none

/-- What a tile reads as. -/
def readTile : List Char → Except Fault Token
  | [c] => if c = '\\' then .error .trailingBackslash else .ok (.ofChar c)
  | [first, c] => if first = '\\' then readEscape c else .error .unsupportedGroup
  | [_, _, c] => readGroupKind c
  | _ => .error .unsupportedGroup

theorem readTile_alone {c : Char} (h : c ≠ '\\') : readTile [c] = .ok (.ofChar c) := if_neg h

/-- A tile of one character that makes a token may be followed by anything but a question mark. -/
theorem Tile.of_ok {text : List Char} {next other : Option Char} {token : Token}
    (h : Tile text next) (hread : readTile text = .ok token) (hother : other ≠ some '?') :
    Tile text other := by
  cases h with
  | alone c _ hescape => exact .alone c other hescape fun _ => hother
  | escape c => exact .escape c other
  | groupKind c => exact .groupKind c other
  | trailing => cases hread
  | unfinished => cases hread

theorem Tile.length_pos {text : List Char} {next : Option Char} (h : Tile text next) :
    0 < text.length := by
  cases h <;> exact Nat.succ_pos _

theorem Tile.length_le {text : List Char} {next : Option Char} (h : Tile text next) :
    text.length ≤ 3 := by
  cases h <;> simp

theorem readEscape_isOk_iff (c : Char) : (∃ token, readEscape c = .ok token) ↔
    c ∈ ['n', 't', 'r', '0'] ∨ isAsciiPunctuation c = true := by
  unfold readEscape
  split
  case h_5 hn ht hr h0 =>
    have hnone : c ∉ ['n', 't', 'r', '0'] := by
      simp only [List.mem_cons, List.not_mem_nil, or_false, not_or]
      exact ⟨hn, ht, hr, h0⟩
    cases hc : isAsciiPunctuation c with
    | true => simp
    | false => simp [hnone]
  all_goals simp

theorem readGroupKind_isOk_iff (c : Char) : (∃ token, readGroupKind c = .ok token) ↔ c = ':' := by
  unfold readGroupKind
  split
  · simp
  · rename_i hc
    simp [show c ≠ ':' from hc]

/-- A tile makes a token if it is a character other than a backslash, an escape that there is, or
the opening of a group that does not capture. -/
theorem Tile.readTile_isOk_iff {text : List Char} {next : Option Char} (h : Tile text next) :
    (∃ token, readTile text = .ok token) ↔
      (∃ c, c ≠ '\\' ∧ text = [c]) ∨
      (∃ c, (c ∈ ['n', 't', 'r', '0'] ∨ isAsciiPunctuation c = true) ∧ text = ['\\', c]) ∨
      text = ['(', '?', ':'] := by
  cases h with
  | alone c _ hescape => simp [readTile_alone hescape, hescape]
  | escape c => simp [readTile, readEscape_isOk_iff]
  | groupKind c => simp [readTile, readGroupKind_isOk_iff]
  | trailing => simp [readTile]
  | unfinished => simp [readTile]

/-- The first block of a text is its first tile. -/
theorem blocks_of_tile {text rest : List Char} (h : Tile text rest.head?) (offset : Nat) :
    blocks offset (text ++ rest) =
      ⟨offset, text, readTile text⟩ :: blocks (offset + byteSize text) rest := by
  generalize hnext : rest.head? = next at h
  cases h with
  | alone c _ hescape hopen =>
    rw [List.cons_append, List.nil_append, blocks.eq_6, readTile_alone hescape]
    · exact fun hc => absurd hc hescape
    · exact fun _ _ hc => absurd hc hescape
    · rintro hc rfl
      exact hopen hc hnext.symm
    · rintro d more hc rfl
      exact hopen hc hnext.symm
  | escape c => rfl
  | groupKind c => rfl
  | trailing =>
    obtain rfl := List.head?_eq_none_iff.mp hnext
    rfl
  | unfinished =>
    obtain rfl := List.head?_eq_none_iff.mp hnext
    rfl

theorem exists_tile {cs : List Char} (h : cs ≠ []) :
    ∃ text rest, cs = text ++ rest ∧ Tile text rest.head? := by
  cases cs using blocks.fun_cases with
  | case1 => exact absurd rfl h
  | case2 => exact ⟨['\\'], [], rfl, .trailing⟩
  | case3 c rest => exact ⟨['\\', c], rest, rfl, .escape c _⟩
  | case4 => exact ⟨['(', '?'], [], rfl, .unfinished⟩
  | case5 c rest => exact ⟨['(', '?', c], rest, rfl, .groupKind c _⟩
  | case6 c rest hlast hescape hopen hgroup =>
    refine ⟨[c], rest, rfl, .alone c _ ?_ ?_⟩
    · intro hc
      cases rest with
      | nil => exact hlast hc rfl
      | cons d more => exact hescape d more hc rfl
    · intro hc hnext
      obtain ⟨more, rfl⟩ := List.head?_eq_some_iff.mp hnext
      cases more with
      | nil => exact hopen hc rfl
      | cons d more => exact hgroup d more hc rfl

/-! ## All tiles -/

/-- Every one of these is a tile in front of those behind it. -/
def Tiled : List (List Char) → Prop
  | [] => True
  | text :: tiles => Tile text tiles.flatten.head? ∧ Tiled tiles

/-- Every text is made of tiles. -/
theorem exists_tiled (cs : List Char) : ∃ tiles, tiles.flatten = cs ∧ Tiled tiles := by
  induction hn : cs.length using Nat.strongRecOn generalizing cs with
  | ind n ih =>
    by_cases hcs : cs = []
    · exact ⟨[], hcs.symm, trivial⟩
    · obtain ⟨text, rest, rfl, htile⟩ := exists_tile hcs
      have hpos := htile.length_pos
      rw [List.length_append] at hn
      obtain ⟨tiles, rfl, htiles⟩ := ih rest.length (by omega) rest rfl
      exact ⟨text :: tiles, rfl, htile, htiles⟩

theorem Tiled.of_append {before after : List (List Char)} (h : Tiled (before ++ after)) :
    Tiled after := by
  induction before with
  | nil => exact h
  | cons text before ih => exact ih h.2

namespace Lexer

/-- The lexer after `n` scans. -/
def skip (lexer : Lexer) : Nat → Lexer
  | 0 => lexer
  | n + 1 => lexer.scan.2.skip n

/-- The text that was not used up yet. -/
def remaining (lexer : Lexer) : List Char := lexer.rest.flatMap Block.text

/-- The result of a scan at `position` that comes to a tile with this reading. -/
def found (position : Nat) : Except Fault Token → Except PatternError (Nat × Token)
  | .ok token => .ok (position, token)
  | .error fault => .error ⟨position, fault⟩

/-- **One scan** uses up one tile. -/
theorem scan_of_tile {text rest : List Char} (h : Tile text rest.head?) (offset finish : Nat) :
    (Lexer.mk (blocks offset (text ++ rest)) finish).scan =
      (found offset (readTile text), ⟨blocks (offset + byteSize text) rest, finish⟩) := by
  rw [blocks_of_tile h, scan]
  cases readTile text <;> rfl

/-- **Any number of scans** use up as many tiles. -/
theorem skip_of_tiled {before after : List (List Char)} (h : Tiled (before ++ after))
    (offset finish : Nat) :
    (Lexer.mk (blocks offset (before ++ after).flatten) finish).skip before.length =
      ⟨blocks (offset + byteSize before.flatten) after.flatten, finish⟩ := by
  induction before generalizing offset with
  | nil => rfl
  | cons text before ih =>
    rw [List.cons_append] at h ⊢
    rw [List.length_cons, skip, List.flatten_cons, scan_of_tile h.1, ih h.2, List.flatten_cons,
      Text.byteSize_append, Nat.add_assoc]

/-- At the end of the pattern, scanning changes nothing. -/
theorem skip_finished (finish n : Nat) : (Lexer.mk [] finish).skip n = ⟨[], finish⟩ := by
  induction n with
  | zero => rfl
  | succ n ih => exact ih

theorem skip_add (lexer : Lexer) (m n : Nat) : lexer.skip (m + n) = (lexer.skip m).skip n := by
  induction m generalizing lexer with
  | zero => rw [Nat.zero_add, skip]
  | succ m ih => rw [Nat.add_right_comm, skip, skip, ih]

theorem remaining_of_tiled {tiles : List (List Char)} (h : Tiled tiles) (offset finish : Nat) :
    (Lexer.mk (blocks offset tiles.flatten) finish).remaining = tiles.flatten := by
  induction tiles generalizing offset with
  | nil => rfl
  | cons text tiles ih =>
    rw [List.flatten_cons, blocks_of_tile h.1, remaining, List.flatMap_cons]
    exact congrArg _ (ih h.2 _)

/-- **Tiles**: scanning covers the pattern with tiles of one to three characters. Each scan uses up
one of them, at fault or not, and reports it at its first byte; when the pattern is used up, each
scan reports the end. What is reported of a tile depends on the tile alone, and it is a token for a
character other than a backslash, for an escape that there is, and for `(?:`. -/
theorem scan_tiles (pattern : String) : ∃ tiles : List (List Char),
    tiles.flatten = pattern.toList ∧
    (∀ before text after, tiles = before ++ text :: after →
      Tile text after.flatten.head? ∧ 0 < text.length ∧ text.length ≤ 3 ∧
      ((ofPattern pattern).skip before.length).remaining = text ++ after.flatten ∧
      ((ofPattern pattern).skip (before.length + 1)).remaining = after.flatten ∧
      ((ofPattern pattern).skip before.length).scan.1 =
        found (byteSize before.flatten) (readTile text) ∧
      ((∃ token, readTile text = .ok token) ↔
        (∃ c, c ≠ '\\' ∧ text = [c]) ∨
        (∃ c, (c ∈ ['n', 't', 'r', '0'] ∨ isAsciiPunctuation c = true) ∧ text = ['\\', c]) ∨
        text = ['(', '?', ':'])) ∧
    ∀ n, tiles.length ≤ n →
      ((ofPattern pattern).skip n).scan.1 = .ok (byteSize pattern.toList, .finish) := by
  obtain ⟨tiles, hflatten, htiled⟩ := exists_tiled pattern.toList
  rw [ofPattern, ← hflatten]
  refine ⟨tiles, rfl, ?_, fun n hn => ?_⟩
  · rintro before text after rfl
    have htail := htiled.of_append
    have hskip := skip_of_tiled htiled 0 (byteSize (before ++ text :: after).flatten)
    have hnext : Tiled ((before ++ [text]) ++ after) := by simpa using htiled
    have hskip' := skip_of_tiled hnext 0 (byteSize (before ++ text :: after).flatten)
    rw [List.append_assoc, List.singleton_append, List.length_append,
      List.length_singleton] at hskip'
    rw [hskip, hskip', remaining_of_tiled htail, remaining_of_tiled htail.2, List.flatten_cons,
      scan_of_tile htail.1, Nat.zero_add]
    exact ⟨htail.1, htail.1.length_pos, htail.1.length_le, rfl, rfl, rfl, htail.1.readTile_isOk_iff⟩
  · obtain ⟨more, rfl⟩ := Nat.exists_eq_add_of_le hn
    have hwhole : Tiled (tiles ++ []) := by rwa [List.append_nil]
    have hskip := skip_of_tiled hwhole 0 (byteSize tiles.flatten)
    rw [List.append_nil] at hskip
    rw [skip_add, hskip]
    exact congrArg (·.scan.1) (skip_finished _ more)

/-- Scanning goes on behind an escape and a group that there are not. -/
example : (ofPattern "a\\é(?=(b").scans 6 =
    [.ok (0, .character 'a'), .error ⟨1, .invalidEscape 'é'⟩, .error ⟨4, .unsupportedGroup⟩,
      .ok (7, .openGroup true), .ok (8, .character 'b'), .ok (9, .finish)] := rfl

end Lexer

end RegexMachine
