import RegexMachine.Proofs.Pattern.Grammar
import Mathlib.Tactic.SplitIfs

/-!
# Reading tokens

A parse that succeeds judges one token after the other and then concludes. `Reading.Advances` says
once what each kind of token does to what has been read; `Reading.run` goes through a list of
tokens, and `Expr.parse_eq_ok_iff_run` takes the lexer out of the parser.
-/

namespace RegexMachine

namespace Level

theorem term_eq (level : Level) : level.term = Grammar.ofFactors level.allFactors.reverse := by
  rw [term]
  rcases level.allFactors with _ | ⟨e, _ | ⟨f, es⟩⟩
  · rfl
  · rfl
  · -- three or more factors, reversed, are not one factor
    simp only [Grammar.ofFactors]
    split
    · rename_i h
      simpa using congrArg List.length h
    · rfl

theorem bar_eq_ok_iff {level level' : Level} {position : Nat} :
    level.bar position = .ok level' ↔ level.tail ≠ .nothing ∧
      ⟨(level.term, position) :: level.alternatives, [], .nothing⟩ = level' := by
  cases htail : level.tail <;> cases halternatives : level.alternatives <;>
    simp [bar, htail, halternatives]

theorem close_eq_ok_iff {level : Level} {e : Expr} :
    level.close = .ok e ↔ (level.tail = .nothing → level.alternatives = []) ∧
      level.alternatives.foldl (fun rest (first, _) => .alternation first rest) level.term = e := by
  cases htail : level.tail <;> cases halternatives : level.alternatives <;>
    simp [close, htail, halternatives]

end Level

namespace Reading

/-- What a token at `position` does, if it does not stop the parse. -/
inductive Advances (position : Nat) (r : Reading) : Token → Reading → Prop where
  /-- a character is a factor -/
  | character (c : Char) :
      Advances position r (.character c) { r with level := r.level.push (.literal c) }
  /-- a bar ends a term that is not empty -/
  | bar (h : r.level.tail ≠ .nothing) :
      Advances position r .bar
        { r with level := ⟨(r.level.term, position) :: r.level.alternatives, [], .nothing⟩ }
  /-- a quantifier repeats an atom -/
  | greedy {e : Expr} (q : Quantifier) (h : r.level.tail = .atom e) :
      Advances position r (.quantifier q)
        { r with level := { r.level with tail := .greedy q e } }
  /-- a question mark makes a repetition lazy -/
  | lazy {q : Quantifier} {e : Expr} (h : r.level.tail = .greedy q e) :
      Advances position r (.quantifier .question)
        { r with level := { r.level with tail := .lazy q e } }
  /-- a parenthesis opens a group that captures -/
  | openCapture (h : r.depth < maxNesting) :
      Advances position r (.openGroup true)
        ⟨r.captures + 1, r.depth + 1,
          ⟨position, some (r.captures + 1), r.level⟩ :: r.frames, .empty⟩
  /-- or one that does not -/
  | openPlain (h : r.depth < maxNesting) :
      Advances position r (.openGroup false)
        ⟨r.captures, r.depth + 1, ⟨position, none, r.level⟩ :: r.frames, .empty⟩
  /-- a parenthesis closes the innermost group -/
  | closeGroup {e : Expr} {frame : Frame} {frames : List Frame} (h : r.level.close = .ok e)
      (hframes : r.frames = frame :: frames) :
      Advances position r .closeGroup
        ⟨r.captures, r.depth - 1, frames, frame.outer.push (.group frame.capture e)⟩

theorem openGroup_eq_next_iff {r r' : Reading} {position : Nat} {captures : Bool} :
    r.openGroup position captures = .next r' ↔ r.depth < maxNesting ∧
      ⟨r.captures, r.depth + 1,
        ⟨position, if captures then some r.captures else none, r.level⟩ :: r.frames,
        .empty⟩ = r' := by
  rw [← Nat.not_le, openGroup]
  split <;> simp [*]

theorem closeGroup_eq_next_iff {r r' : Reading} {position : Nat} :
    r.closeGroup position = .next r' ↔ ∃ e frame frames, r.level.close = .ok e ∧
      r.frames = frame :: frames ∧
      ⟨r.captures, r.depth - 1, frames, frame.outer.push (.group frame.capture e)⟩ = r' := by
  rw [closeGroup]
  cases r.level.close <;> cases r.frames <;> simp [and_assoc]

/-- **One token**: what judging it leads to. -/
theorem judge_eq_next_iff {r r' : Reading} {position : Nat} {token : Token} :
    (r.number token).judge position token = .next r' ↔ Advances position r token r' := by
  constructor
  · intro h
    cases token with
    | character c =>
      obtain rfl : _ = r' := by simpa [judge, number] using h
      exact .character c
    | bar =>
      simp only [judge, number] at h
      split at h
      · rename_i level hbar
        obtain ⟨hne, rfl⟩ := Level.bar_eq_ok_iff.mp hbar
        obtain rfl := Step.next.inj h
        exact .bar hne
      · cases h
    | quantifier q =>
      simp only [judge, number] at h
      split at h
      · rename_i tail hquantify
        obtain rfl := Step.next.inj h
        cases htail : r.level.tail <;> simp only [htail, Tail.quantify] at hquantify
        · cases hquantify
        · obtain rfl := Except.ok.inj hquantify
          exact .greedy q htail
        · split_ifs at hquantify with hq
          obtain rfl := Except.ok.inj hquantify
          subst hq
          exact .lazy htail
        · cases hquantify
      · cases h
    | openGroup captures =>
      obtain ⟨hdepth, rfl⟩ := openGroup_eq_next_iff.mp h
      cases captures with
      | true => exact .openCapture hdepth
      | false => exact .openPlain hdepth
    | closeGroup =>
      obtain ⟨e, frame, frames, hclose, hframes, rfl⟩ := closeGroup_eq_next_iff.mp h
      exact .closeGroup hclose hframes
    | finish => cases h
  · intro h
    cases h with
    | character c => rfl
    | bar hne => simp [judge, number, Level.bar_eq_ok_iff.mpr ⟨hne, rfl⟩]
    | greedy q htail => simp [judge, number, htail, Tail.quantify]
    | lazy htail => simp [judge, number, htail, Tail.quantify]
    | openCapture hdepth => exact openGroup_eq_next_iff.mpr ⟨hdepth, rfl⟩
    | openPlain hdepth => exact openGroup_eq_next_iff.mpr ⟨hdepth, rfl⟩
    | closeGroup hclose hframes =>
      exact closeGroup_eq_next_iff.mpr ⟨_, _, _, hclose, hframes, rfl⟩

/-- Only the end of the pattern ends a parse well. -/
theorem judge_ne_stop_ok {r : Reading} {position : Nat} {token : Token} {e : Expr}
    (h : token ≠ .finish) : (r.number token).judge position token ≠ .stop (.ok e) := by
  cases token with
  | character c => simp [judge]
  | bar => simp only [judge]; split <;> simp
  | quantifier q => simp only [judge]; split <;> simp
  | openGroup captures => simp only [judge, openGroup]; split <;> simp
  | closeGroup => simp only [judge, closeGroup]; split <;> simp
  | finish => exact absurd rfl h

/-- Reads tokens, each at its position, if none of them stops the parse. -/
def run (r : Reading) : List (Nat × Token) → Option Reading
  | [] => some r
  | (position, token) :: items =>
    match (r.number token).judge position token with
    | .next r' => r'.run items
    | .stop _ => none

@[simp] theorem run_nil (r : Reading) : r.run [] = some r := rfl

theorem run_cons_eq_some_iff {r r' : Reading} {position : Nat} {token : Token}
    {items : List (Nat × Token)} :
    r.run ((position, token) :: items) = some r' ↔
      ∃ s, Advances position r token s ∧ s.run items = some r' := by
  simp only [← judge_eq_next_iff, run]
  split <;> simp_all

theorem run_append (r : Reading) (items more : List (Nat × Token)) :
    r.run (items ++ more) = (r.run items).bind (·.run more) := by
  induction items generalizing r with
  | nil => rfl
  | cons item items ih =>
    obtain ⟨position, token⟩ := item
    rw [List.cons_append, run, run]
    split
    · exact ih _
    · rfl

/-- Nothing was read yet. -/
def start : Reading := ⟨0, 0, [], .empty⟩

end Reading

/-- The blocks read as these tokens, each at its position. -/
def Spelled (rest : List Block) (items : List (Nat × Token)) : Prop :=
  rest.map (fun block => block.reading.map (block.offset, ·)) = items.map .ok

theorem spelled_nil_iff {items : List (Nat × Token)} : Spelled [] items ↔ items = [] := by
  simp [Spelled, eq_comm]

theorem spelled_cons_iff {block : Block} {rest : List Block} {items : List (Nat × Token)} :
    Spelled (block :: rest) items ↔ ∃ token more, block.reading = .ok token ∧
      Spelled rest more ∧ (block.offset, token) :: more = items := by
  cases hreading : block.reading <;> cases items <;>
    simp [Spelled, hreading, Except.map, and_comm, and_assoc]

/-- A block that reads as a token begins what is spelled. -/
theorem exists_spelled_cons_iff {block : Block} {rest : List Block} {token : Token}
    {P : List (Nat × Token) → Prop} (h : block.reading = .ok token) :
    (∃ items, Spelled (block :: rest) items ∧ P items) ↔
      ∃ more, Spelled rest more ∧ P ((block.offset, token) :: more) := by
  simp only [spelled_cons_iff, h]
  constructor
  · rintro ⟨_, ⟨_, more, hok, hmore, rfl⟩, hP⟩
    obtain rfl := Except.ok.inj hok
    exact ⟨more, hmore, hP⟩
  · rintro ⟨more, hmore, hP⟩
    exact ⟨_, ⟨token, more, rfl, hmore, rfl⟩, hP⟩

/-- The tokens of a pattern, with the positions left out. -/
theorem lexes_iff {pattern : String} {tokens : List Token} :
    Lexes pattern tokens ↔
      ∃ items, Spelled (blocks 0 pattern.toList) items ∧ items.map Prod.snd = tokens := by
  rw [Lexes]
  induction blocks 0 pattern.toList generalizing tokens with
  | nil => simp [spelled_nil_iff, eq_comm]
  | cons block rest ih =>
    constructor
    · intro h
      obtain ⟨token, more, rfl, htoken, hmore⟩ := List.map_eq_cons_iff.mp h.symm
      obtain ⟨items, hitems, rfl⟩ := ih.mp hmore.symm
      exact ⟨_, spelled_cons_iff.mpr ⟨token, items, htoken.symm, hitems, rfl⟩, rfl⟩
    · rintro ⟨_, hspelled, rfl⟩
      obtain ⟨token, items, htoken, hitems, rfl⟩ := spelled_cons_iff.mp hspelled
      rw [List.map_cons, htoken, ih.mpr ⟨items, hitems, rfl⟩]
      rfl

/-- **A parse that succeeds** reads all tokens and concludes. -/
theorem Session.read_eq_ok_iff {rest : List Block} {r : Reading} {looking : Token} {e : Expr}
    (position finish : Nat) (hrest : ∀ block ∈ rest, block.reading ≠ .ok .finish)
    (hlooking : looking ≠ .finish) :
    (read r looking position finish rest).1 = .ok e ↔
      ∃ items, Spelled rest items ∧
        ∃ r', r.run ((position, looking) :: items) = some r' ∧ r'.conclude = .ok e := by
  induction rest generalizing r looking position with
  | nil =>
    simp only [spelled_nil_iff, exists_eq_left, Reading.run]
    rw [read]
    cases hjudge : (r.number looking).judge position looking with
    | stop result =>
      simp only [reduceCtorEq, false_and, exists_false, iff_false]
      rintro rfl
      exact Reading.judge_ne_stop_ok hlooking hjudge
    | next r' => simp
  | cons block rest ih =>
    rw [List.forall_mem_cons] at hrest
    rw [read]
    cases hjudge : (r.number looking).judge position looking with
    | stop result =>
      simp only [Reading.run, hjudge, reduceCtorEq, false_and, exists_false, and_false, iff_false]
      rintro rfl
      exact Reading.judge_ne_stop_ok hlooking hjudge
    | next r' =>
      cases hreading : block.reading with
      | error fault => simp [spelled_cons_iff, hreading]
      | ok token =>
        have htoken : token ≠ .finish := by
          rintro rfl
          exact hrest.1 hreading
        rw [exists_spelled_cons_iff hreading]
        simp only [hreading, ih block.offset hrest.2 htoken]
        simp only [Reading.run, hjudge]

theorem Expr.parse_eq_ok_iff_run {pattern : String} {e : Expr} :
    parse pattern = .ok e ↔ ∃ items, Spelled (blocks 0 pattern.toList) items ∧
      ∃ r, Reading.start.run items = some r ∧ r.conclude = .ok e := by
  have hfinish := reading_ne_finish 0 pattern.toList
  simp only [parse, Session.start, Lexer.ofPattern, Lexer.scan]
  cases hblocks : blocks 0 pattern.toList with
  | nil =>
    simp only [spelled_nil_iff, exists_eq_left, Reading.run_nil, Option.some.injEq]
    rw [exists_eq_left']
    rfl
  | cons block rest =>
    rw [hblocks, List.forall_mem_cons] at hfinish
    cases hreading : block.reading with
    | error fault =>
      simp [spelled_cons_iff, hreading, bind, Except.bind]
    | ok token =>
      have htoken : token ≠ .finish := by
        rintro rfl
        exact hfinish.1 hreading
      have hread := Session.read_eq_ok_iff (r := Reading.start) (e := e) block.offset
        (Text.byteSize pattern.toList) hfinish.2 htoken
      rw [exists_spelled_cons_iff hreading]
      simp only [bind, Except.bind, Session.parse, hreading]
      exact hread

end RegexMachine
