/-!
# Names in a source text

The words that may name a function, and the paths that may lead to a module.

* an **identifier** consists of ASCII letters, digits and underscores, does not begin with a digit,
  and is not a single underscore;
* a **path** is a sequence of identifiers with `::` between them, and possibly in front.
-/

namespace RegexMachine.Source

/-- Whether `c` may stand anywhere in an identifier. -/
def isWordChar (c : Char) : Bool :=
  c = '_' || c.isAlphanum

/-- Whether `c` may begin an identifier. -/
def isWordStart (c : Char) : Bool :=
  c = '_' || c.isAlpha

/-- Whether the characters make an identifier. -/
def isWord : List Char → Bool
  | [] => false
  | ['_'] => false
  | c :: cs => isWordStart c && cs.all isWordChar

/-- The pieces of a text between its double colons. Of three colons the first two count. -/
def segments : List Char → List (List Char)
  | [] => [[]]
  | ':' :: ':' :: cs => [] :: segments cs
  | c :: cs =>
    match segments cs with
    | [] => [[c]]
    | piece :: pieces => (c :: piece) :: pieces

/-- The characters behind a leading double colon, or all if there is none. -/
def dropRoot : List Char → List Char
  | ':' :: ':' :: cs => cs
  | cs => cs

/-- Whether a name is an identifier. -/
def isIdentifier (name : String) : Bool :=
  isWord name.toList

/-- Whether a name is a path. -/
def isPath (name : String) : Bool :=
  (segments (dropRoot name.toList)).all isWord

end RegexMachine.Source
