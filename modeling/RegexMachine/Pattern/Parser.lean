import RegexMachine.Pattern.Expr
import RegexMachine.Pattern.Lexer

/-!
# From tokens to expressions

The grammar, with one token of look-ahead at most:

    expr   ::= term | term ("|" term)+     where no term of the second form is empty
    term   ::= factor*
    factor ::= atom | atom q | atom q "?"   where no quantifier follows a complete repetition
    atom   ::= character | "(" expr ")" | "(?:" expr ")"

The parser reads one token after the other and keeps what is unfinished:

* a `Tail` is the last factor of a term, to which a quantifier would apply;
* a `Level` is one expression inside one pair of parentheses, or outside all of them;
* a `Frame` is a group that is still open, with the level around it;
* a `Reading` is all that together with the numbering of groups.

Every token is judged before the one behind it is read. So of two faults the left one is reported,
and a fault says nothing about the text to its right.

A `Session` is a pattern that is being parsed. It outlives a fault: the next attempt starts at the
token where the last one stopped, with the group numbers and the nesting that it left behind.
-/

namespace RegexMachine

/-- The end of a term that is being read. -/
inductive Tail where
  /-- the term is empty so far -/
  | nothing
  /-- an atom, which may be repeated -/
  | atom (e : Expr)
  /-- a greedy repetition, which may become lazy -/
  | greedy (q : Quantifier) (body : Expr)
  /-- a lazy repetition, to which nothing can be added -/
  | lazy (q : Quantifier) (body : Expr)

namespace Tail

/-- The factor at the end of the term, if there is one. -/
def factor? : Tail → Option Expr
  | nothing => none
  | atom e => some e
  | greedy q body => some (.repetition q true body)
  | lazy q body => some (.repetition q false body)

/-- A quantifier repeats an atom, and a `?` makes a greedy repetition lazy. -/
def quantify (q : Quantifier) : Tail → Except Fault Tail
  | nothing => .error (.danglingQuantifier q)
  | atom e => .ok (greedy q e)
  | greedy before body =>
    if q = .question then .ok (lazy before body) else .error (.repeatedQuantifier q)
  | lazy _ _ => .error (.repeatedQuantifier q)

end Tail

/-- An expression that is being read. -/
structure Level where
  /-- the alternatives before the current term, each with the position of the bar behind it,
  latest first -/
  alternatives : List (Expr × Nat)
  /-- the factors of the current term before its tail, latest first -/
  factors : List Expr
  /-- the end of the current term -/
  tail : Tail

namespace Level

/-- Nothing was read yet. -/
def empty : Level := ⟨[], [], .nothing⟩

/-- The factors of the current term, latest first. -/
def allFactors (level : Level) : List Expr :=
  level.tail.factor?.toList ++ level.factors

/-- The current term: a factor alone is that factor, anything else is a concatenation. -/
def term (level : Level) : Expr :=
  match level.allFactors with
  | [e] => e
  | es => .concat es.reverse

/-- The level with another atom at the end of its term. -/
def push (level : Level) (e : Expr) : Level :=
  { level with factors := level.allFactors, tail := .atom e }

/-- The current term ends at a bar at `position`. -/
def bar (level : Level) (position : Nat) : Except PatternError Level :=
  match level.tail, level.alternatives with
  | .nothing, [] => .error ⟨position, .emptyAlternative⟩
  | .nothing, (_, before) :: _ => .error ⟨before, .emptyAlternative⟩
  | _, alternatives => .ok ⟨(level.term, position) :: alternatives, [], .nothing⟩

/-- The whole expression. Alternatives nest to the right. -/
def close (level : Level) : Except PatternError Expr :=
  match level.tail, level.alternatives with
  | .nothing, (_, before) :: _ => .error ⟨before, .emptyAlternative⟩
  | _, alternatives =>
    .ok (alternatives.foldl (fun rest (e, _) => .alternation e rest) level.term)

end Level

/-- A group that is still open. -/
structure Frame where
  /-- byte offset of the opening parenthesis -/
  position : Nat
  /-- the number of the group, if it captures -/
  capture : Option Nat
  /-- the level in which the group stands -/
  outer : Level

/-- All that a parse has read and not finished. -/
structure Reading where
  /-- number of capturing groups opened so far -/
  captures : Nat
  /-- nesting of groups, those that an earlier parse left open included -/
  depth : Nat
  /-- the open groups, innermost first -/
  frames : List Frame
  /-- the innermost level -/
  level : Level

namespace Reading

/-- What a token leads to. -/
inductive Step where
  /-- go on with the next token -/
  | next (reading : Reading)
  /-- the parse is over -/
  | stop (result : Except PatternError Expr)

/-- A capturing group takes the next number at its opening parenthesis, even if it is then
refused. -/
def number (r : Reading) : Token → Reading
  | .openGroup true => { r with captures := r.captures + 1 }
  | _ => r

/-- Opens a group at `position`. -/
def openGroup (r : Reading) (position : Nat) (captures : Bool) : Step :=
  if maxNesting ≤ r.depth then .stop (.error ⟨position, .nestingTooDeep⟩)
  else
    let frame : Frame := ⟨position, if captures then some r.captures else none, r.level⟩
    .next { r with depth := r.depth + 1, frames := frame :: r.frames, level := .empty }

/-- Closes the innermost group at `position`. -/
def closeGroup (r : Reading) (position : Nat) : Step :=
  match r.level.close, r.frames with
  | .error e, _ => .stop (.error e)
  | .ok _, [] => .stop (.error ⟨position, .unmatchedClose⟩)
  | .ok e, frame :: frames =>
    .next { r with
      depth := r.depth - 1, frames, level := frame.outer.push (.group frame.capture e) }

/-- What the end of the pattern makes of the reading. -/
def conclude (r : Reading) : Except PatternError Expr :=
  match r.level.close, r.frames with
  | .error e, _ => .error e
  | .ok e, [] => .ok e
  | .ok _, frame :: _ => .error ⟨frame.position, .missingClose⟩

/-- Judges one token at `position`. -/
def judge (r : Reading) (position : Nat) : Token → Step
  | .character c => .next { r with level := r.level.push (.literal c) }
  | .bar =>
    match r.level.bar position with
    | .ok level => .next { r with level }
    | .error e => .stop (.error e)
  | .quantifier q =>
    match r.level.tail.quantify q with
    | .ok tail => .next { r with level := { r.level with tail } }
    | .error fault => .stop (.error ⟨position, fault⟩)
  | .openGroup captures => r.openGroup position captures
  | .closeGroup => r.closeGroup position
  | .finish => .stop r.conclude

end Reading

/-- A pattern that is being parsed. -/
structure Session where
  /-- what comes behind the current token -/
  lexer : Lexer
  /-- the current token, not yet used up -/
  looking : Token
  /-- byte offset of the current token -/
  position : Nat
  /-- number of capturing groups opened so far -/
  captures : Nat
  /-- nesting of groups at the current token -/
  depth : Nat

namespace Session

/-- A session at the first token of a pattern. -/
def start (pattern : String) : Except PatternError Session :=
  match (Lexer.ofPattern pattern).scan with
  | (.ok (position, looking), lexer) => .ok ⟨lexer, looking, position, 0, 0⟩
  | (.error e, _) => .error e

/-- Reads on from the token `looking` at `position`, with the blocks `rest` behind it, in a pattern
that ends at byte `finish`.

If the next block is faulty, the current token stays. A group counts as open until the token behind
its closing parenthesis was read. -/
def read (r : Reading) (looking : Token) (position finish : Nat) (rest : List Block) :
    Except PatternError Expr × Session :=
  let r := r.number looking
  match r.judge position looking with
  | .stop result => (result, ⟨⟨rest, finish⟩, looking, position, r.captures, r.depth⟩)
  | .next r' =>
    match rest with
    | [] => (r'.conclude, ⟨⟨[], finish⟩, .finish, finish, r'.captures, r'.depth⟩)
    | block :: rest =>
      match block.reading with
      | .ok token => read r' token block.offset finish rest
      | .error fault =>
        (.error ⟨block.offset, fault⟩,
          ⟨⟨rest, finish⟩, looking, position, r'.captures, max r.depth r'.depth⟩)

/-- Parses from the current token to the end of the pattern. -/
def parse (s : Session) : Except PatternError Expr × Session :=
  read ⟨s.captures, s.depth, [], .empty⟩ s.looking s.position s.lexer.finish s.lexer.rest

/-- The results of `n` parses in a row. -/
def parses (s : Session) : Nat → List (Except PatternError Expr)
  | 0 => []
  | n + 1 => s.parse.1 :: s.parse.2.parses n

end Session

/-- The expression that a pattern stands for. -/
def Expr.parse (pattern : String) : Except PatternError Expr := do
  let session ← Session.start pattern
  session.parse.1

end RegexMachine
