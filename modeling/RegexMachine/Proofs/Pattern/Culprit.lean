import RegexMachine.Proofs.Pattern.Session
import RegexMachine.Proofs.Pattern.Sites
import Mathlib.Data.List.Induction

/-!
# The place that is to blame

A pattern that does not parse is refused with a position. `Site.Blamed` says for each fault which
kind of place it may be due to, in terms of the text, the tokens before it and the blocks behind it.
The position is always that of such a place (`Expr.parse_culprit`).

What the parser keeps of the tokens that it has read is little: the open groups and the end of the
current term. `Reading.Located` says what this tells about the tokens, and every token preserves it.
-/

namespace RegexMachine

/-! ## What tokens end with -/

/-- The open groups behind a token, innermost first. -/
def opensTo (opened : List Nat) : Nat × Token → List Nat
  | (position, .openGroup _) => position :: opened
  | (_, .closeGroup) => opened.tail
  | _ => opened

/-- The positions of the groups that the tokens leave open, innermost first. -/
def openGroups (items : List (Nat × Token)) : List Nat :=
  items.foldl opensTo []

theorem openGroups_concat (items : List (Nat × Token)) (item : Nat × Token) :
    openGroups (items ++ [item]) = opensTo (openGroups items) item := by
  rw [openGroups, List.foldl_append]
  rfl

/-- A group that is open was opened by one of the tokens. -/
theorem exists_openGroup {items : List (Nat × Token)} {position : Nat}
    (h : position ∈ openGroups items) : ∃ before captures behind,
      items = before ++ (position, .openGroup captures) :: behind := by
  induction items using List.reverseRecOn with
  | nil => cases h
  | append_singleton items item ih =>
    obtain ⟨last, token⟩ := item
    rw [openGroups_concat] at h
    have hearlier (hopen : position ∈ openGroups items) : ∃ before captures behind,
        items ++ [(last, token)] = before ++ (position, .openGroup captures) :: behind := by
      obtain ⟨before, captures, behind, rfl⟩ := ih hopen
      exact ⟨before, captures, behind ++ [(last, token)], by simp⟩
    cases token with
    | openGroup captures =>
      rcases List.mem_cons.mp h with rfl | h
      · exact ⟨items, captures, [], rfl⟩
      · exact hearlier h
    | closeGroup => exact hearlier (List.mem_of_mem_tail h)
    | character | bar | quantifier | finish => exact hearlier h

/-- An expression begins behind these tokens. -/
inductive StartsExpression : List Token → Prop where
  /-- that of the pattern -/
  | pattern : StartsExpression []
  /-- that of a group -/
  | group (before : List Token) (captures : Bool) :
      StartsExpression (before ++ [.openGroup captures])

/-- An alternative begins behind these tokens. -/
inductive StartsBranch : List Token → Prop where
  /-- the first one of an expression -/
  | first {tokens : List Token} (h : StartsExpression tokens) : StartsBranch tokens
  /-- another one -/
  | bar (before : List Token) : StartsBranch (before ++ [.bar])

/-- The last of these tokens ends an atom. -/
inductive EndsAtom : List Token → Prop where
  /-- it is a character -/
  | character (before : List Token) (c : Char) : EndsAtom (before ++ [.character c])
  /-- it ends a group -/
  | group (before : List Token) : EndsAtom (before ++ [.closeGroup])

/-- The last of these tokens ends a repetition, which is greedy or lazy. -/
inductive EndsRepetition : Bool → List Token → Prop where
  /-- an atom and a quantifier -/
  | greedy {atom : List Token} (h : EndsAtom atom) (q : Quantifier) :
      EndsRepetition true (atom ++ [.quantifier q])
  /-- an atom, a quantifier and a question mark -/
  | lazy {atom : List Token} (h : EndsAtom atom) (q : Quantifier) :
      EndsRepetition false (atom ++ [.quantifier q, .quantifier .question])

theorem EndsRepetition.makeLazy {tokens : List Token} (h : EndsRepetition true tokens) :
    EndsRepetition false (tokens ++ [.quantifier .question]) := by
  cases h with
  | greedy h q =>
    rw [List.append_assoc]
    exact .lazy h q

/-! ## What a reading tells about the tokens -/

/-- The end of a level tells what the tokens end with. -/
def Level.Follows (level : Level) (items : List (Nat × Token)) : Prop :=
  match level.tail, level.alternatives with
  | .nothing, [] => StartsExpression (items.map Prod.snd)
  | .nothing, (_, position) :: _ => ∃ before, items = before ++ [(position, .bar)]
  | .atom _, _ => EndsAtom (items.map Prod.snd)
  | .greedy _ _, _ => EndsRepetition true (items.map Prod.snd)
  | .lazy _ _, _ => EndsRepetition false (items.map Prod.snd)

namespace Level.Follows

variable {level : Level} {items : List (Nat × Token)} (h : level.Follows items)

include h

theorem startsExpression (htail : level.tail = .nothing) (halternatives : level.alternatives = []) :
    StartsExpression (items.map Prod.snd) := by
  simpa only [Follows, htail, halternatives] using h

theorem eq_concat_bar {e : Expr} {position : Nat} {before : List (Expr × Nat)}
    (htail : level.tail = .nothing) (halternatives : level.alternatives = (e, position) :: before) :
    ∃ before, items = before ++ [(position, .bar)] := by
  simpa only [Follows, htail, halternatives] using h

theorem startsBranch (htail : level.tail = .nothing) : StartsBranch (items.map Prod.snd) := by
  cases halternatives : level.alternatives with
  | nil => exact .first (h.startsExpression htail halternatives)
  | cons alternative before =>
    obtain ⟨earlier, rfl⟩ := h.eq_concat_bar htail halternatives
    simpa using StartsBranch.bar (earlier.map Prod.snd)

theorem endsAtom {e : Expr} (htail : level.tail = .atom e) : EndsAtom (items.map Prod.snd) := by
  simpa only [Follows, htail] using h

theorem endsGreedy {q : Quantifier} {e : Expr} (htail : level.tail = .greedy q e) :
    EndsRepetition true (items.map Prod.snd) := by
  simpa only [Follows, htail] using h

theorem endsLazy {q : Quantifier} {e : Expr} (htail : level.tail = .lazy q e) :
    EndsRepetition false (items.map Prod.snd) := by
  simpa only [Follows, htail] using h

end Level.Follows

namespace Reading

/-- What was read are these tokens. -/
structure Located (r : Reading) (items : List (Nat × Token)) : Prop where
  /-- the open groups are those that the tokens leave open -/
  frames : r.frames.map Frame.position = openGroups items
  /-- the innermost level ends as the tokens do -/
  level : r.level.Follows items

variable {r r' : Reading} {items : List (Nat × Token)} {position : Nat} {token : Token}

/-- **One token** -/
theorem Advances.located (h : Advances position r token r') (hr : r.Located items) :
    r'.Located (items ++ [(position, token)]) := by
  obtain ⟨hframes, hlevel⟩ := hr
  refine ⟨?_, ?_⟩
  · rw [openGroups_concat, ← hframes]
    cases h with
    | character | bar | greedy | lazy | openCapture | openPlain => rfl
    | closeGroup _ hopen =>
      rw [hopen]
      rfl
  · cases h with
    | character c =>
      simpa [Level.Follows, Level.push] using EndsAtom.character (items.map Prod.snd) c
    | bar => exact ⟨items, rfl⟩
    | greedy q htail =>
      simpa [Level.Follows] using EndsRepetition.greedy (hlevel.endsAtom htail) q
    | lazy htail =>
      simpa [Level.Follows] using (hlevel.endsGreedy htail).makeLazy
    | openCapture | openPlain =>
      simpa [Level.Follows, Level.empty] using StartsExpression.group (items.map Prod.snd) _
    | closeGroup =>
      simpa [Level.Follows, Level.push] using EndsAtom.group (items.map Prod.snd)

theorem located_start : start.Located [] where
  frames := rfl
  level := .pattern

/-- What a token at `position` is refused for. -/
inductive Refuses (position : Nat) (r : Reading) : Token → PatternError → Prop where
  /-- a bar at the start of an expression -/
  | emptyBefore (htail : r.level.tail = .nothing) (h : r.level.alternatives = []) :
      Refuses position r .bar ⟨position, .emptyAlternative⟩
  /-- a bar or the end of a group right behind a bar, which is at fault -/
  | emptyBehind {token : Token} {e : Expr} {earlier : Nat} {before : List (Expr × Nat)}
      (htoken : token = .bar ∨ token = .closeGroup) (htail : r.level.tail = .nothing)
      (h : r.level.alternatives = (e, earlier) :: before) :
      Refuses position r token ⟨earlier, .emptyAlternative⟩
  /-- a quantifier with nothing to repeat -/
  | dangling (q : Quantifier) (htail : r.level.tail = .nothing) :
      Refuses position r (.quantifier q) ⟨position, .danglingQuantifier q⟩
  /-- a quantifier behind a greedy repetition, which it cannot make lazy -/
  | greedy {q before : Quantifier} {e : Expr} (hq : q ≠ .question)
      (htail : r.level.tail = .greedy before e) :
      Refuses position r (.quantifier q) ⟨position, .repeatedQuantifier q⟩
  /-- a quantifier behind a lazy repetition -/
  | lazy (q : Quantifier) {before : Quantifier} {e : Expr} (htail : r.level.tail = .lazy before e) :
      Refuses position r (.quantifier q) ⟨position, .repeatedQuantifier q⟩
  /-- a group in too many others -/
  | tooDeep (captures : Bool) (h : maxNesting ≤ r.depth) :
      Refuses position r (.openGroup captures) ⟨position, .nestingTooDeep⟩
  /-- the end of a group that was not opened -/
  | unmatched (h : r.frames = []) : Refuses position r .closeGroup ⟨position, .unmatchedClose⟩

theorem bar_refuses {e : PatternError} (h : r.level.bar position = .error e) :
    Refuses position r .bar e := by
  unfold Level.bar at h
  split at h
  · rename_i htail halternatives
    obtain rfl := Except.error.inj h
    exact .emptyBefore htail halternatives
  · rename_i htail halternatives
    obtain rfl := Except.error.inj h
    exact .emptyBehind (.inl rfl) htail halternatives
  · cases h

/-- Only an alternative that is missing behind a bar keeps a level from being closed. -/
theorem close_eq_error {level : Level} {e : PatternError} (h : level.close = .error e) :
    ∃ first earlier before, level.tail = .nothing ∧
      level.alternatives = (first, earlier) :: before ∧ e = ⟨earlier, .emptyAlternative⟩ := by
  unfold Level.close at h
  split at h
  · rename_i htail halternatives
    exact ⟨_, _, _, htail, halternatives, (Except.error.inj h).symm⟩
  · cases h

/-- **One token**: what stops the parse. -/
theorem refuses_of_judge {e : PatternError} (htoken : token ≠ .finish)
    (h : (r.number token).judge position token = .stop (.error e)) :
    Refuses position r token e := by
  cases token with
  | character c => cases h
  | bar =>
    simp only [judge, number] at h
    split at h
    · cases h
    · rename_i hbar
      obtain rfl := Except.error.inj (Step.stop.inj h)
      exact bar_refuses hbar
  | quantifier q =>
    simp only [judge, number] at h
    split at h
    · cases h
    · rename_i hquantify
      obtain rfl := Except.error.inj (Step.stop.inj h)
      cases htail : r.level.tail <;> simp only [htail, Tail.quantify] at hquantify
      · obtain rfl := Except.error.inj hquantify
        exact .dangling q htail
      · cases hquantify
      · split_ifs at hquantify with hq
        obtain rfl := Except.error.inj hquantify
        exact .greedy hq htail
      · obtain rfl := Except.error.inj hquantify
        exact .lazy q htail
  | openGroup captures =>
    simp only [judge, openGroup, Moment.depth_number] at h
    split_ifs at h with hdepth
    obtain rfl := Except.error.inj (Step.stop.inj h)
    exact .tooDeep captures hdepth
  | closeGroup =>
    simp only [judge, number, closeGroup] at h
    split at h
    · rename_i hclose
      obtain rfl := Except.error.inj (Step.stop.inj h)
      obtain ⟨first, earlier, before, htail, halternatives, rfl⟩ := close_eq_error hclose
      exact .emptyBehind (.inr rfl) htail halternatives
    · rename_i hframes
      obtain rfl := Except.error.inj (Step.stop.inj h)
      exact .unmatched hframes
    · cases h
  | finish => exact absurd rfl htoken

end Reading

/-! ## Places that are to blame -/

/-- Why a place is to blame for a fault. -/
inductive Site.Blamed {pattern : String} (s : Site pattern) : Fault → Prop where
  /-- it ends a group, and no group is open -/
  | unmatchedClose (hchar : s.char = ')') (hopen : openGroups s.items = []) :
      s.Blamed .unmatchedClose
  /-- it opens the innermost of the groups that are open at the end of the pattern -/
  | missingClose {all : List (Nat × Token)} {outer : List Nat} (hchar : s.char = '(')
      (hall : Spelled (blocks 0 pattern.toList) all)
        (hopen : openGroups all = s.position :: outer) :
      s.Blamed .missingClose
  /-- it opens a group while 250 are open -/
  | nestingTooDeep (hchar : s.char = '(') (hopen : (openGroups s.items).length = 250) :
      s.Blamed .nestingTooDeep
  /-- it is faulty by itself, and begins with `(?` that is not followed by `:` -/
  | unsupportedGroup {rest : List Char} (hfaulty : s.block.reading = .error .unsupportedGroup)
      (hchar : s.char = '(') (hback : s.back = '?' :: rest) (hcolon : rest.head? ≠ some ':') :
      s.Blamed .unsupportedGroup
  /-- it is the quantifier, at the start of an alternative -/
  | danglingQuantifier {q : Quantifier} (hchar : s.char = q.symbol)
      (hstart : StartsBranch s.tokens) : s.Blamed (.danglingQuantifier q)
  /-- it is the quantifier, right behind a repetition that it does not make lazy -/
  | repeatedQuantifier {q : Quantifier} {greedy : Bool} (hchar : s.char = q.symbol)
      (hend : EndsRepetition greedy s.tokens) (hcomplete : greedy = true → q ≠ .question) :
      s.Blamed (.repeatedQuantifier q)
  /-- it is a bar with nothing before it in its expression -/
  | emptyBefore (hchar : s.char = '|') (hstart : StartsExpression s.tokens) :
      s.Blamed .emptyAlternative
  /-- it is a bar, and the pattern ends behind it, or another bar or the end of a group follows -/
  | emptyBehind (hchar : s.char = '|') (hnext : s.behind = [] ∨ ∃ next rest,
      s.behind = next :: rest ∧ (next.reading = .ok .bar ∨ next.reading = .ok .closeGroup)) :
      s.Blamed .emptyAlternative
  /-- it is faulty by itself, and consists of a backslash and the character -/
  | invalidEscape {c : Char} {rest : List Char}
      (hfaulty : s.block.reading = .error (.invalidEscape c)) (hchar : s.char = '\\')
      (hback : s.back = c :: rest) : s.Blamed (.invalidEscape c)
  /-- it is faulty by itself, and is the backslash at the end of the pattern -/
  | trailingBackslash (hfaulty : s.block.reading = .error .trailingBackslash)
      (hchar : s.char = '\\') (hback : s.back = []) : s.Blamed .trailingBackslash

variable {pattern : String}

/-- A block that is faulty by itself is to blame. -/
theorem Site.blamed_of_error {s : Site pattern} {fault : Fault}
    (h : s.block.reading = .error fault) : s.Blamed fault := by
  have hbegins := s.begins
  rw [h] at hbegins
  generalize hchar : s.char = c, hback : s.back = back,
    hreading : Except.error fault = reading at hbegins
  cases hbegins with
  | trailing =>
    obtain rfl := Except.error.inj hreading
    exact .trailingBackslash h hchar hback
  | escape c rest =>
    obtain rfl := readEscape_eq_error hreading.symm
    exact .invalidEscape h hchar hback
  | unfinished =>
    obtain rfl := Except.error.inj hreading
    exact .unsupportedGroup h hchar hback (by simp)
  | groupKind c rest =>
    obtain ⟨rfl, hc⟩ := readGroupKind_eq_error hreading.symm
    exact .unsupportedGroup h hchar hback (by simpa using hc)
  | alone => cases hreading

namespace Reading

variable {r : Reading} {items : List (Nat × Token)} {position : Nat} {token : Token}
  {read behind : List Block} {e : PatternError}

/-- A token that stops the parse is to blame, or the bar before it. -/
theorem Refuses.exists_blamed (h : Refuses position r token e) (hr : r.Located items)
    (hdepth : r.depth = r.frames.length) (hle : r.depth ≤ maxNesting)
    (hblocks : blocks 0 pattern.toList = read ++ behind)
    (hspelled : Spelled read (items ++ [(position, token)])) :
    ∃ s : Site pattern, s.position = e.position ∧ s.Blamed e.fault := by
  obtain ⟨s, hposition, hreading, rfl, -⟩ := exists_site_of_item hblocks hspelled
  cases h with
  | emptyBefore htail h =>
    exact ⟨s, hposition, .emptyBefore (Site.char_of_mark hreading rfl)
      (hr.level.startsExpression htail h)⟩
  | emptyBehind htoken htail h =>
    obtain ⟨before, hbar⟩ := hr.level.eq_concat_bar htail h
    rw [hbar, List.append_assoc] at hspelled
    obtain ⟨bar, hposition, hreading, -, between, hbetween, hbehind⟩ :=
      exists_site_of_item hblocks hspelled
    obtain ⟨next, rfl, hnext⟩ := eq_singleton_of_spelled hbetween
    refine ⟨bar, hposition, .emptyBehind (Site.char_of_mark hreading rfl)
      (.inr ⟨next, _, hbehind, ?_⟩)⟩
    rcases htoken with rfl | rfl
    · exact .inl hnext
    · exact .inr hnext
  | dangling q htail =>
    exact ⟨s, hposition, .danglingQuantifier (Site.char_of_mark hreading rfl)
      (hr.level.startsBranch htail)⟩
  | greedy hq htail =>
    exact ⟨s, hposition, .repeatedQuantifier (Site.char_of_mark hreading rfl)
      (hr.level.endsGreedy htail) fun _ => hq⟩
  | lazy q htail =>
    exact ⟨s, hposition, .repeatedQuantifier (Site.char_of_mark hreading rfl)
      (hr.level.endsLazy htail) nofun⟩
  | tooDeep captures h =>
    refine ⟨s, hposition, .nestingTooDeep (Site.char_of_mark hreading rfl) ?_⟩
    rw [← hr.frames, List.length_map, ← hdepth]
    exact Nat.le_antisymm hle h
  | unmatched h =>
    refine ⟨s, hposition, .unmatchedClose (Site.char_of_mark hreading rfl) ?_⟩
    rw [← hr.frames, h]
    rfl

/-- If the pattern ends too early, the last bar is to blame, or the innermost group that is open. -/
theorem exists_blamed_of_conclude (h : r.conclude = .error e) (hr : r.Located items)
    (hspelled : Spelled (blocks 0 pattern.toList) items) :
    ∃ s : Site pattern, s.position = e.position ∧ s.Blamed e.fault := by
  unfold conclude at h
  have hblocks := (List.append_nil (blocks 0 pattern.toList)).symm
  split at h
  · rename_i hclose
    obtain rfl := Except.error.inj h
    obtain ⟨first, earlier, before, htail, halternatives, rfl⟩ := close_eq_error hclose
    obtain ⟨before, rfl⟩ := hr.level.eq_concat_bar htail halternatives
    obtain ⟨s, hposition, hreading, -, between, hbetween, hbehind⟩ :=
      exists_site_of_item hblocks hspelled
    rw [eq_nil_of_spelled hbetween] at hbehind
    exact ⟨s, hposition, .emptyBehind (Site.char_of_mark hreading rfl) (.inl hbehind)⟩
  · cases h
  · rename_i frame frames _ hframes
    obtain rfl := Except.error.inj h
    have hopen : openGroups items = frame.position :: frames.map Frame.position := by
      rw [← hr.frames, hframes]
      rfl
    obtain ⟨before, captures, behind, rfl⟩ :=
      exists_openGroup (hopen ▸ List.mem_cons_self : frame.position ∈ openGroups items)
    obtain ⟨s, hposition, hreading, -⟩ := exists_site_of_item hblocks hspelled
    rw [← hposition] at hopen hspelled
    exact ⟨s, hposition, .missingClose (Site.char_of_mark hreading rfl) hspelled hopen⟩

end Reading

namespace Moment

/-- The moment of a parse at which these tokens were read, and the current one is next. -/
structure Placed (pattern : String) (m : Moment) (items : List (Nat × Token)) : Prop where
  /-- they are spelled by all blocks but those behind the current token -/
  read : ∃ read, blocks 0 pattern.toList = read ++ m.rest ∧
    Spelled read (items ++ [(m.position, m.looking)])
  /-- and are what the reading knows of -/
  located : m.reading.Located items

variable {m m' : Moment} {items : List (Nat × Token)}

theorem Placed.looking_ne_finish (h : m.Placed pattern items) : m.looking ≠ .finish := by
  obtain ⟨read, hblocks, hspelled⟩ := h.read
  obtain ⟨s, -, hreading, -⟩ := exists_site_of_item hblocks hspelled
  have hmem : s.block ∈ blocks 0 pattern.toList := by simp [s.blocks_eq]
  intro hlooking
  rw [hlooking] at hreading
  exact reading_ne_finish 0 pattern.toList s.block hmem hreading

theorem Next.placed (h : m.Next m') (hm : m.Placed pattern items) :
    m'.Placed pattern (items ++ [(m.position, m.looking)]) := by
  obtain ⟨⟨read, hblocks, hspelled⟩, hlocated⟩ := hm
  cases h with
  | @intro r r' looking token position block rest hadvance hblock =>
    refine ⟨⟨read ++ [block], by simpa using hblocks, ?_⟩, hadvance.located hlocated⟩
    exact spelled_append hspelled (spelled_cons_iff.mpr ⟨token, [], hblock, rfl, rfl⟩)

theorem exists_placed (h : Relation.ReflTransGen Next m m') (hm : m.Placed pattern items) :
    ∃ items', m'.Placed pattern items' := by
  induction h with
  | refl => exact ⟨items, hm⟩
  | tail _ hnext ih =>
    obtain ⟨items', hplaced⟩ := ih
    exact ⟨_, hnext.placed hplaced⟩

/-- A parse that fails has a place to blame. -/
theorem Ends.exists_blamed {finish : Nat} {outcome : Except PatternError Expr × Session}
    {s : Session} {e : PatternError} (h : m.Ends finish outcome) (hm : m.Placed pattern items)
    (hsince : m.reading.Since s) (hs : s.depth = 0) (he : outcome.1 = .error e) :
    ∃ site : Site pattern, site.position = e.position ∧ site.Blamed e.fault := by
  obtain ⟨read, hblocks, hspelled⟩ := hm.read
  have hdepth : m.reading.depth = m.reading.frames.length := by
    rw [hsince.depth_eq, hs, Nat.zero_add]
  cases h with
  | stop hstop =>
    obtain rfl := he
    exact (Reading.refuses_of_judge hm.looking_ne_finish hstop).exists_blamed hm.located hdepth
      hsince.depth_le hblocks hspelled
  | finish hadvance hrest =>
    rw [hrest, List.append_nil] at hblocks
    exact Reading.exists_blamed_of_conclude he (hadvance.located hm.located) (hblocks ▸ hspelled)
  | fault hadvance hrest hblock =>
    obtain rfl := Except.error.inj he
    rw [hrest] at hblocks
    obtain ⟨site, rfl, -⟩ := exists_site hblocks hspelled
    exact ⟨site, rfl, Site.blamed_of_error hblock⟩

end Moment

/-- **The culprit**: a pattern that does not parse is refused at a character of it, where a block of
the pattern begins that is to blame for the fault. -/
theorem Expr.parse_culprit {pattern : String} {e : PatternError} (h : parse pattern = .error e) :
    e.position < Text.byteSize pattern.toList ∧ Text.IsBoundary pattern e.position ∧
      ∃ s : Site pattern, s.position = e.position ∧ s.Blamed e.fault := by
  have hblamed : ∃ s : Site pattern, s.position = e.position ∧ s.Blamed e.fault := by
    rw [parse, Session.start, Lexer.ofPattern, Lexer.scan] at h
    dsimp only at h
    cases hblocks : blocks 0 pattern.toList with
    | nil =>
      rw [hblocks] at h
      cases h
    | cons block rest =>
      rw [hblocks] at h
      cases hreading : block.reading with
      | error fault =>
        simp only [hreading] at h
        obtain rfl := Except.error.inj h
        have hfirst : blocks 0 pattern.toList = [] ++ block :: rest := hblocks
        obtain ⟨s, rfl, -⟩ := exists_site hfirst (spelled_nil_iff.mpr rfl)
        exact ⟨s, rfl, Site.blamed_of_error hreading⟩
      | ok token =>
        simp only [hreading] at h
        let s : Session := ⟨⟨rest, Text.byteSize pattern.toList⟩, token, block.offset, 0, 0⟩
        obtain ⟨m, hpasses, hends⟩ := s.begin.exists_last (Text.byteSize pattern.toList)
        have hbegin : s.begin.Placed pattern [] :=
          ⟨⟨[block], hblocks, spelled_cons_iff.mpr ⟨token, [], hreading, rfl, rfl⟩⟩,
            Reading.located_start⟩
        obtain ⟨items, hm⟩ := Moment.exists_placed hpasses hbegin
        exact hends.exists_blamed hm (Session.Passes.since hpasses (Nat.zero_le _)) rfl h
  obtain ⟨s, hposition, hs⟩ := hblamed
  rw [← hposition]
  exact ⟨s.position_lt, s.isBoundary, s, rfl, hs⟩

/-- Whether a pattern is refused for a given fault can be decided. -/
instance (pattern : String) (e : PatternError) : Decidable (Expr.parse pattern = .error e) :=
  match Expr.parse pattern with
  | .ok _ => isFalse nofun
  | .error _ => decidable_of_iff' _ (Iff.of_eq (Except.error.injEq _ e))

/-- The first group is the only one that is open at the end. It stands behind a letter of two
bytes. -/
theorem Expr.parse_culprit_open :
    parse "é(ü(a|b)*?c" = .error ⟨2, .missingClose⟩ ∧
      ∃ s : Site "é(ü(a|b)*?c", s.position = 2 ∧ s.char = '(' ∧ s.Blamed .missingClose := by
  have h : parse "é(ü(a|b)*?c" = .error ⟨2, .missingClose⟩ := by decide +kernel
  obtain ⟨-, -, s, hposition, hs⟩ := parse_culprit h
  refine ⟨h, s, hposition, ?_, hs⟩
  cases hs with
  | missingClose hchar => exact hchar

end RegexMachine
