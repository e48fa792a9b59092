import RegexMachine.Text.DefaultIgnorable
import RegexMachine.Text.GraphemeExtend
import RegexMachine.Text.Numeral
import RegexMachine.Text.Unprintable

/-!
# Quoted text

Characters and texts between quotation marks, on one line and in visible characters only:

* a mark of the kind that surrounds the text, and a backslash, get a backslash in front;
* zero, tab, line feed and carriage return have the short forms `\0 \t \n \r`;
* a character that merges into its predecessor, may be left out when displayed or has no visible
  form is written `\u{…}` with its code point in hexadecimal;
* every other character stands for itself.
-/

namespace RegexMachine.Text

/-- Whether `c` is one of the two halfwidth katakana sound marks, voiced and semi-voiced. They
extend the character before them and yet are letters, which stand beside it in a cell of their own;
every other character with the property Grapheme_Extend is a mark or a format character. -/
def isHalfwidthSoundMark (c : Char) : Bool :=
  c.toNat == 0xff9e || c.toNat == 0xff9f

/-- Whether `c` is written by its code point. No visible ASCII character and no halfwidth sound mark
is. -/
def needsCode (c : Char) : Bool :=
  if ' ' ≤ c ∧ c ≤ '~' then false
  else if isHalfwidthSoundMark c then false
  else isGraphemeExtend c || isDefaultIgnorable c || isUnprintable c

/-- How `c` is written between two `mark`s. -/
def escape (mark c : Char) : List Char :=
  match c with
  | '\x00' => ['\\', '0']
  | '\t' => ['\\', 't']
  | '\n' => ['\\', 'n']
  | '\r' => ['\\', 'r']
  | '\\' => ['\\', '\\']
  | c =>
    if c = mark then ['\\', c]
    else if needsCode c then
      '\\' :: 'u' :: '{' :: (hexDigits c.toNat ++ ['}'])
    else [c]

/-- The text `cs` between two `mark`s. -/
def quoted (mark : Char) (cs : List Char) : String :=
  String.ofList (mark :: (cs.flatMap (escape mark) ++ [mark]))

/-- A character between single quotation marks. -/
def quotedChar (c : Char) : String :=
  quoted '\'' [c]

/-- A text between double quotation marks. -/
def quotedText (s : String) : String :=
  quoted '"' s.toList

end RegexMachine.Text
