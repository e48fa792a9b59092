import RegexMachine.Pattern.Fault
import RegexMachine.Text.Offset

/-!
# Lexical structure of a pattern

A pattern falls into **blocks**, adjacent pieces of one to three characters. Each block reads as a
token or is faulty by itself:

* a backslash and the character behind it, whatever that is;
* `(?` and the character behind it, whatever that is;
* any other character alone.

So a faulty block never hides what follows it, and reading can go on behind the fault. A `Lexer`
hands out the blocks one by one and then the end token for ever.
-/

namespace RegexMachine

/-- Whether `c` is one of the 32 visible ASCII characters that are neither letter nor digit. -/
def isAsciiPunctuation (c : Char) : Bool :=
  ('!' ≤ c && c ≤ '/') || (':' ≤ c && c ≤ '@') || ('[' ≤ c && c ≤ '\x60') || ('{' ≤ c && c ≤ '~')

/-- What a backslash makes of the character behind it: four control characters have a letter or
digit, ASCII punctuation stands for itself. -/
def readEscape : Char → Except Fault Token
  | 'n' => .ok (.character '\n')
  | 't' => .ok (.character '\t')
  | 'r' => .ok (.character '\r')
  | '0' => .ok (.character '\x00')
  | c => if isAsciiPunctuation c then .ok (.character c) else .error (.invalidEscape c)

/-- What `(?` makes of the character behind it. -/
def readGroupKind : Char → Except Fault Token
  | ':' => .ok (.openGroup false)
  | _ => .error .unsupportedGroup

/-- A piece of a pattern that is read in one go. -/
structure Block where
  /-- byte offset of the first character in the pattern -/
  offset : Nat
  /-- the characters of the block -/
  text : List Char
  /-- the token it makes, or what is wrong with it -/
  reading : Except Fault Token

/-- The blocks of a text that starts at byte `offset` of its pattern. -/
def blocks (offset : Nat) : List Char → List Block
  | [] => []
  | ['\\'] => [⟨offset, ['\\'], .error .trailingBackslash⟩]
  | '\\' :: c :: rest =>
    ⟨offset, ['\\', c], readEscape c⟩ :: blocks (offset + Text.byteSize ['\\', c]) rest
  | ['(', '?'] => [⟨offset, ['(', '?'], .error .unsupportedGroup⟩]
  | '(' :: '?' :: c :: rest =>
    ⟨offset, ['(', '?', c], readGroupKind c⟩ :: blocks (offset + Text.byteSize ['(', '?', c]) rest
  | c :: rest => ⟨offset, [c], .ok (.ofChar c)⟩ :: blocks (offset + Text.byteSize [c]) rest

/-- A pattern while it is being read. -/
structure Lexer where
  /-- the blocks that were not handed out yet -/
  rest : List Block
  /-- byte offset of the end of the pattern -/
  finish : Nat

namespace Lexer

/-- A lexer at the start of a pattern. -/
def ofPattern (pattern : String) : Lexer :=
  ⟨blocks 0 pattern.toList, Text.byteSize pattern.toList⟩

/-- The next token with its byte offset, or the fault of the next block. The block is used up in
either case. -/
def scan (lexer : Lexer) : Except PatternError (Nat × Token) × Lexer :=
  match lexer.rest with
  | [] => (.ok (lexer.finish, .finish), lexer)
  | block :: rest =>
    match block.reading with
    | .ok token => (.ok (block.offset, token), ⟨rest, lexer.finish⟩)
    | .error fault => (.error ⟨block.offset, fault⟩, ⟨rest, lexer.finish⟩)

/-- The results of `n` scans in a row. -/
def scans (lexer : Lexer) : Nat → List (Except PatternError (Nat × Token))
  | 0 => []
  | n + 1 => lexer.scan.1 :: lexer.scan.2.scans n

end Lexer

end RegexMachine
