import RegexMachine.Proofs.Pattern.Culprit
import RegexMachine.Proofs.Pattern.Tiling

/-!
# Final faults

Some faults may go away or give way to others if the pattern goes on: a group that is still open, an
alternative that is still empty, the beginning of an escape or of a group, also of one that is
nested too deep. The other faults are **final** (`Fault.isFinal`): whatever is appended, the pattern
is refused for the same fault at the same position (`Expr.parse_append_of_error`).

Two things are behind this.

* **blocks** — all blocks of the pattern stay as they are, except that the last one may be
  unfinished, and then there is no final fault in it (`exists_blocks_append`);
* **judgement** — each token is judged before the one behind it is read (`Reading.outcome`), so a
  fault does not depend on what comes after it, unless it is due to the end of the pattern.
-/

namespace RegexMachine

/-- Whether it makes no difference to a fault how the pattern goes on. -/
def Fault.isFinal : Fault → Bool
  | danglingQuantifier _ | repeatedQuantifier _ | unmatchedClose | invalidEscape _ => true
  | missingClose | emptyAlternative | trailingBackslash | unsupportedGroup | nestingTooDeep => false

/-! ## A parse as a function of the blocks -/

/-- Reads blocks up to the first fault, or to the end of the pattern. -/
def Reading.outcome (r : Reading) : List Block → Except PatternError Expr
  | [] => r.conclude
  | block :: rest =>
    match block.reading with
    | .error fault => .error ⟨block.offset, fault⟩
    | .ok token =>
      match (r.number token).judge block.offset token with
      | .stop result => result
      | .next r' => r'.outcome rest

/-- What becomes of a parse after the current token was judged. -/
theorem Session.read_eq_outcome (r : Reading) (looking : Token) (position finish : Nat)
    (rest : List Block) : (read r looking position finish rest).1 =
      match (r.number looking).judge position looking with
      | .stop result => result
      | .next r' => r'.outcome rest := by
  induction rest generalizing r looking position with
  | nil =>
    rw [read.eq_def]
    cases hjudge : (r.number looking).judge position looking <;> simp [hjudge, Reading.outcome]
  | cons block rest ih =>
    rw [read.eq_def]
    cases hjudge : (r.number looking).judge position looking with
    | stop result => simp [hjudge]
    | next r' => cases hreading : block.reading <;> simp [hjudge, Reading.outcome, hreading, ih]

theorem Expr.parse_eq_outcome (pattern : String) :
    parse pattern = Reading.start.outcome (blocks 0 pattern.toList) := by
  simp only [parse, Session.start, Lexer.ofPattern, Lexer.scan]
  cases blocks 0 pattern.toList with
  | nil => rfl
  | cons block rest =>
    cases hreading : block.reading with
    | error fault =>
      simp only [Reading.outcome, hreading]
      rfl
    | ok token =>
      simp only [Reading.outcome, hreading]
      exact Session.read_eq_outcome Reading.start token block.offset _ rest

/-! ## Blocks of a longer pattern -/

/-- What a block reads as that becomes another one if the pattern goes on. -/
inductive Unfinished : Except Fault Token → Prop where
  /-- a parenthesis, if a question mark follows -/
  | openGroup : Unfinished (.ok (.openGroup true))
  /-- a block that lacks a character -/
  | fault {fault : Fault} (h : fault.isFinal = false) : Unfinished (.error fault)

/-- A tile at the end of a text is unfinished if it is no tile in front of something else. -/
theorem Tile.unfinished_of_changed {text : List Char} {next : Option Char} (h : Tile text none)
    (hchanged : ¬ Tile text next) : Unfinished (readTile text) := by
  cases h with
  | alone c _ hescape =>
    have hopen : c = '(' := by
      by_contra hc
      exact hchanged (.alone c next hescape fun heq => absurd heq hc)
    subst hopen
    exact .openGroup
  | escape c => exact absurd (.escape c next) hchanged
  | groupKind c => exact absurd (.groupKind c next) hchanged
  | trailing => exact .fault rfl
  | unfinished => exact .fault rfl

/-- **The seam**: a longer pattern has the blocks of the shorter one, except for an unfinished one
at its end. -/
theorem exists_blocks_append (cs ds : List Char) (offset : Nat) : ∃ front last more,
    blocks offset cs = front ++ last ∧ blocks offset (cs ++ ds) = front ++ more ∧
      (last = [] ∨ ∃ block, last = [block] ∧ Unfinished block.reading) := by
  obtain ⟨tiles, rfl, htiled⟩ := exists_tiled cs
  induction tiles generalizing offset with
  | nil => exact ⟨[], [], blocks offset ds, rfl, rfl, .inl rfl⟩
  | cons text tiles ih =>
    rw [List.flatten_cons, List.append_assoc, blocks_of_tile htiled.1]
    by_cases htile : Tile text (tiles.flatten ++ ds).head?
    · obtain ⟨front, last, more, hshort, hlong, hlast⟩ := ih (offset + Text.byteSize text) htiled.2
      refine ⟨⟨offset, text, readTile text⟩ :: front, last, more, ?_, ?_, hlast⟩
      · rw [hshort, List.cons_append]
      · rw [blocks_of_tile htile, hlong, List.cons_append]
    · -- the tile changes, so there is nothing else behind it
      have hend : tiles.flatten = [] := by
        by_contra hne
        obtain ⟨c, cs, hcs⟩ := List.exists_cons_of_ne_nil hne
        have hhere := htiled.1
        rw [hcs] at hhere htile
        exact htile hhere
      have hhere := htiled.1
      rw [hend] at hhere
      have hlast := hhere.unfinished_of_changed htile
      refine ⟨[], [⟨offset, text, readTile text⟩], _, ?_, rfl, .inr ⟨_, rfl, hlast⟩⟩
      rw [hend]
      rfl

/-! ## Faults -/

namespace Reading

variable {r : Reading} {e : PatternError}

/-- The end of a pattern is no final fault. -/
theorem not_isFinal_of_conclude (h : r.conclude = .error e) : e.fault.isFinal = false := by
  unfold conclude at h
  split at h
  · rename_i hclose
    obtain rfl := Except.error.inj h
    obtain ⟨_, _, _, -, -, rfl⟩ := close_eq_error hclose
    rfl
  · cases h
  · obtain rfl := Except.error.inj h
    rfl

/-- Neither is an unfinished block in front of it. -/
theorem not_isFinal_of_unfinished {block : Block} (hblock : Unfinished block.reading)
    (h : r.outcome [block] = .error e) : e.fault.isFinal = false := by
  rw [outcome] at h
  generalize block.reading = reading at hblock h
  cases hblock with
  | fault hfault =>
    obtain rfl := Except.error.inj h
    exact hfault
  | openGroup =>
    simp only [judge, openGroup] at h
    split_ifs at h
    · obtain rfl := Except.error.inj h
      rfl
    · exact not_isFinal_of_conclude h

/-- **One fault, any rest**: blocks with a final fault have it in front of any other blocks, too. -/
theorem outcome_append {front last more : List Block}
    (hlast : last = [] ∨ ∃ block, last = [block] ∧ Unfinished block.reading)
    (h : r.outcome (front ++ last) = .error e) (hfinal : e.fault.isFinal = true) :
    r.outcome (front ++ more) = .error e := by
  induction front generalizing r with
  | nil =>
    exfalso
    have hmended : e.fault.isFinal = false := by
      rcases hlast with rfl | ⟨block, rfl, hblock⟩
      · exact not_isFinal_of_conclude h
      · exact not_isFinal_of_unfinished hblock h
    rw [hmended] at hfinal
    cases hfinal
  | cons block front ih =>
    rw [List.cons_append, outcome] at h ⊢
    cases hreading : block.reading with
    | error fault =>
      rw [hreading] at h
      exact h
    | ok token =>
      rw [hreading] at h
      dsimp only at h ⊢
      cases hjudge : (r.number token).judge block.offset token with
      | stop result =>
        rw [hjudge] at h
        exact h
      | next r' =>
        rw [hjudge] at h
        exact ih h

end Reading

namespace Expr

/-- **Final faults**: a pattern that is refused for a final fault is refused for it at the same
position whatever is appended. -/
theorem parse_append_of_error {pattern : String} {e : PatternError} (h : parse pattern = .error e)
    (hfinal : e.fault.isFinal = true) (suffix : String) : parse (pattern ++ suffix) = .error e := by
  obtain ⟨front, last, more, hshort, hlong, hlast⟩ :=
    exists_blocks_append pattern.toList suffix.toList 0
  rw [parse_eq_outcome, hshort] at h
  rw [parse_eq_outcome, String.toList_append, hlong]
  exact Reading.outcome_append hlast h hfinal

/-- The fault comes before a parenthesis that is made part of another block. -/
theorem parse_append_of_error_seam :
    parse "é(a|b+*(" = .error ⟨7, .repeatedQuantifier .star⟩ ∧
      (Fault.repeatedQuantifier .star).isFinal = true ∧
      parse ("é(a|b+*(" ++ "?:c)\\q") = .error ⟨7, .repeatedQuantifier .star⟩ := by
  have h : parse "é(a|b+*(" = .error ⟨7, .repeatedQuantifier .star⟩ := by decide +kernel
  exact ⟨h, rfl, parse_append_of_error h rfl "?:c)\\q"⟩

end Expr

end RegexMachine
