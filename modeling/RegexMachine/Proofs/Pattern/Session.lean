import RegexMachine.Proofs.Pattern.Derivation
import Mathlib.Logic.Relation

/-!
# Sessions

A session may be asked for another parse after a fault. It then goes on in the middle of the
pattern, at a token that may have been judged before, with the nesting and the numbers that were
left behind.

A parse is a sequence of moments (`Moment.Next`), each of which uses up a block, and a last one that
gives the answer (`Moment.Ends`). So what holds of a parse is shown for one moment and carried
through all of them:

* **every parse** — the nesting stays within its bounds and is left as it was if the parse succeeds,
  and the groups of what was read have the numbers that follow those before (`Session.Sane`);
* **all parses** — each of them uses up blocks or leaves the session at a token that is answered in
  the same way for ever (`Session.Settled`).
-/

namespace RegexMachine

/-- A parse in the middle. -/
structure Moment where
  /-- what was read and not finished -/
  reading : Reading
  /-- the current token -/
  looking : Token
  /-- byte offset of the current token -/
  position : Nat
  /-- the blocks behind it -/
  rest : List Block

namespace Moment

/-- The result of the parse, and the session that it leaves behind. -/
def outcome (m : Moment) (finish : Nat) : Except PatternError Expr × Session :=
  Session.read m.reading m.looking m.position finish m.rest

/-- The current token is judged, and the next one is read. -/
inductive Next : Moment → Moment → Prop where
  /-- the token lets the parse go on, and the next block reads as a token -/
  | intro {r r' : Reading} {looking token : Token} {position : Nat} {block : Block}
      {rest : List Block} (hadvance : r.Advances position looking r')
      (hblock : block.reading = .ok token) :
      Next ⟨r, looking, position, block :: rest⟩ ⟨r', token, block.offset, rest⟩

/-- What the last moment of a parse leads to, in a pattern that ends at byte `finish`. -/
inductive Ends (m : Moment) (finish : Nat) : Except PatternError Expr × Session → Prop where
  /-- the current token stops the parse -/
  | stop {result : Except PatternError Expr}
      (h : (m.reading.number m.looking).judge m.position m.looking = .stop result) :
      Ends m finish (result, ⟨⟨m.rest, finish⟩, m.looking, m.position,
        (m.reading.number m.looking).captures, m.reading.depth⟩)
  /-- the pattern ends -/
  | finish {r : Reading} (h : m.reading.Advances m.position m.looking r) (hrest : m.rest = []) :
      Ends m finish (r.conclude, ⟨⟨[], finish⟩, .finish, finish, r.captures, r.depth⟩)
  /-- the next block is faulty -/
  | fault {r : Reading} {block : Block} {rest : List Block} {fault : Fault}
      (h : m.reading.Advances m.position m.looking r) (hrest : m.rest = block :: rest)
      (hblock : block.reading = .error fault) :
      Ends m finish (.error ⟨block.offset, fault⟩, ⟨⟨rest, finish⟩, m.looking, m.position,
        r.captures, max m.reading.depth r.depth⟩)

variable {m m' : Moment}

theorem depth_number (r : Reading) (token : Token) : (r.number token).depth = r.depth := by
  cases token with
  | openGroup captures => cases captures <;> rfl
  | _ => rfl

theorem captures_le_number (r : Reading) (token : Token) :
    r.captures ≤ (r.number token).captures := by
  cases token with
  | openGroup captures => cases captures <;> simp [Reading.number]
  | _ => exact Nat.le_refl _

/-- A parse goes on to its next moment, or this is its last one. -/
theorem next_or_ends (m : Moment) (finish : Nat) :
    (∃ m', m.Next m' ∧ m.outcome finish = m'.outcome finish) ∨
      m.Ends finish (m.outcome finish) := by
  obtain ⟨r, looking, position, rest⟩ := m
  simp only [outcome]
  rw [Session.read.eq_def]
  cases hjudge : (r.number looking).judge position looking with
  | stop result =>
    simp only [hjudge, depth_number]
    exact .inr (Ends.stop (m := ⟨r, looking, position, rest⟩) hjudge)
  | next r' =>
    have hadvance := Reading.judge_eq_next_iff.mp hjudge
    cases rest with
    | nil =>
      simp only [hjudge]
      exact .inr (Ends.finish (m := ⟨r, looking, position, []⟩) hadvance rfl)
    | cons block rest =>
      cases hblock : block.reading with
      | ok token =>
        simp only [hjudge, hblock]
        exact .inl ⟨_, .intro hadvance hblock, rfl⟩
      | error fault =>
        simp only [hjudge, hblock, depth_number]
        exact .inr (Ends.fault (m := ⟨r, looking, position, block :: rest⟩) hadvance rfl hblock)

theorem Next.length_rest (h : m.Next m') : m'.rest.length + 1 = m.rest.length := by
  cases h
  rfl

theorem exists_last (m : Moment) (finish : Nat) :
    ∃ m', Relation.ReflTransGen Next m m' ∧ m'.Ends finish (m.outcome finish) := by
  induction hlength : m.rest.length generalizing m with
  | zero =>
    rcases m.next_or_ends finish with ⟨m', hnext, -⟩ | hends
    · have := hnext.length_rest
      omega
    · exact ⟨m, .refl, hends⟩
  | succ n ih =>
    rcases m.next_or_ends finish with ⟨m', hnext, hsame⟩ | hends
    · have hrest := hnext.length_rest
      obtain ⟨last, hpasses, hends⟩ := ih m' (by omega)
      exact ⟨last, .head hnext hpasses, hsame ▸ hends⟩
    · exact ⟨m, .refl, hends⟩

/-- The moments of a parse have one outcome. -/
theorem Next.outcome_eq (h : m.Next m') (finish : Nat) : m.outcome finish = m'.outcome finish := by
  cases h with
  | @intro r r' looking token position block rest hadvance hblock =>
    have hjudge := Reading.judge_eq_next_iff.mpr hadvance
    simp only [outcome]
    rw [Session.read.eq_def]
    simp only [hjudge, hblock]

theorem outcome_eq_of_passes (h : Relation.ReflTransGen Next m m') (finish : Nat) :
    m.outcome finish = m'.outcome finish := by
  induction h with
  | refl => rfl
  | tail _ hnext ih => exact ih.trans (hnext.outcome_eq finish)

end Moment

/-! ## Every parse -/

/-- What was read since a session had some nesting and numbers. -/
structure Reading.Since (r : Reading) (s : Session) : Prop where
  /-- the open groups nest in what was open before -/
  depth_eq : r.depth = s.depth + r.frames.length
  /-- not too deep -/
  depth_le : r.depth ≤ maxNesting
  /-- the numbers go on from those before -/
  captures_le : s.captures ≤ r.captures
  /-- the groups have the numbers that follow -/
  indices_eq : r.indices = List.range' (s.captures + 1) (r.captures - s.captures)

variable {s : Session} {r r' : Reading} {m m' : Moment} {token : Token} {position : Nat}

/-- **One token** -/
theorem Reading.Advances.since (h : Advances position r token r') (hr : r.Since s) :
    r'.Since s := by
  refine ⟨?_, ?_, Nat.le_trans hr.captures_le h.captures_le,
    h.indices_from hr.captures_le hr.indices_eq⟩
  · have hdepth := hr.depth_eq
    cases h with
    | character | bar | greedy | lazy => exact hdepth
    | openCapture | openPlain => exact congrArg (· + 1) hdepth
    | closeGroup hclose hframes =>
      rw [hframes, List.length_cons] at hdepth
      simp only
      omega
  · have hle := hr.depth_le
    cases h with
    | character | bar | greedy | lazy => exact hle
    | openCapture hlt | openPlain hlt => exact hlt
    | closeGroup => exact Nat.le_trans (Nat.sub_le _ _) hle

namespace Session

/-- The first moment of a parse. -/
def begin (s : Session) : Moment :=
  ⟨⟨s.captures, s.depth, [], .empty⟩, s.looking, s.position, s.lexer.rest⟩

/-- The parse comes to a moment. -/
def Passes (s : Session) (m : Moment) : Prop := Relation.ReflTransGen Moment.Next s.begin m

theorem since_begin (h : s.depth ≤ maxNesting) : s.begin.reading.Since s where
  depth_eq := rfl
  depth_le := h
  captures_le := Nat.le_refl _
  indices_eq := by simp [begin, Reading.indices, Reading.outerIndices, Level.indices]

theorem Passes.since (h : s.Passes m) (hs : s.depth ≤ maxNesting) : m.reading.Since s := by
  induction h with
  | refl => exact since_begin hs
  | tail _ hnext ih =>
    cases hnext with
    | intro hadvance hblock => exact hadvance.since ih

end Session

/-- A reading that is concluded has no open groups, and all groups are in the expression. -/
theorem Reading.Since.conclude {e : Expr} (hr : r.Since s) (h : r.conclude = .ok e) :
    r.depth = s.depth ∧ e.indices = List.range' (s.captures + 1) e.captureCount ∧
      r.captures = s.captures + e.captureCount := by
  obtain ⟨hclose, hframes⟩ := conclude_eq_ok_iff.mp h
  have hindices : e.indices = List.range' (s.captures + 1) (r.captures - s.captures) := by
    rw [Level.indices_close hclose, ← hr.indices_eq, Reading.indices, hframes]
    rfl
  have hcount : e.captureCount = r.captures - s.captures := by
    rw [Expr.captureCount_eq_length, hindices, List.length_range']
  refine ⟨?_, hcount ▸ hindices, ?_⟩
  · rw [hr.depth_eq, hframes]
    rfl
  · rw [hcount, Nat.add_sub_cancel' hr.captures_le]

/-- The result of a parse and the session that it leaves are in order, for a parse that began with
some nesting and numbers. -/
structure Session.InOrder (s : Session) (outcome : Except PatternError Expr × Session) : Prop where
  /-- the nesting is within its bounds -/
  depth_le : outcome.2.depth ≤ maxNesting
  /-- no group is closed that was open before -/
  le_depth : s.depth ≤ outcome.2.depth
  /-- no number is given twice -/
  le_captures : s.captures ≤ outcome.2.captures
  /-- if the parse succeeds all groups are closed, and those that capture have the next numbers -/
  ok : ∀ e, outcome.1 = .ok e → outcome.2.depth = s.depth ∧
    e.indices = List.range' (s.captures + 1) e.captureCount ∧
      outcome.2.captures = s.captures + e.captureCount

theorem Moment.Ends.inOrder {finish : Nat} {outcome : Except PatternError Expr × Session}
    (h : m.Ends finish outcome) (hm : m.reading.Since s) : s.InOrder outcome := by
  have hdepth : s.depth ≤ m.reading.depth := hm.depth_eq ▸ Nat.le_add_right _ _
  cases h with
  | @stop result hstop =>
    refine ⟨hm.depth_le, hdepth, Nat.le_trans hm.captures_le (captures_le_number _ _), ?_⟩
    rintro e rfl
    by_cases hlooking : m.looking = .finish
    · rw [hlooking] at hstop ⊢
      exact hm.conclude (Reading.Step.stop.inj hstop)
    · exact absurd hstop (Reading.judge_ne_stop_ok hlooking)
  | finish hadvance hrest =>
    have hr := hadvance.since hm
    exact ⟨hr.depth_le, hr.depth_eq ▸ Nat.le_add_right _ _, hr.captures_le, fun e he =>
      hr.conclude he⟩
  | fault hadvance hrest hblock =>
    have hr := hadvance.since hm
    refine ⟨Nat.max_le.mpr ⟨hm.depth_le, hr.depth_le⟩, Nat.le_trans hdepth (Nat.le_max_left _ _),
      hr.captures_le, ?_⟩
    rintro e ⟨⟩

theorem Moment.captures_le_of_passes (h : Relation.ReflTransGen Next m m') :
    m.reading.captures ≤ m'.reading.captures := by
  induction h with
  | refl => exact Nat.le_refl _
  | tail _ hnext ih =>
    cases hnext with
    | intro hadvance hblock => exact Nat.le_trans ih hadvance.captures_le

theorem Moment.Ends.captures_le {finish : Nat} {outcome : Except PatternError Expr × Session}
    (h : m.Ends finish outcome) : m.reading.captures ≤ outcome.2.captures := by
  cases h with
  | stop => exact captures_le_number _ _
  | finish hadvance => exact hadvance.captures_le
  | fault hadvance => exact hadvance.captures_le

/-- **Every parse** of a session is like that. -/
structure Session.Sane (s : Session) : Prop extends s.InOrder s.parse where
  /-- it comes to a last moment, which gives the answer -/
  ends : ∃ m, s.Passes m ∧ m.Ends s.lexer.finish s.parse
  /-- the nesting is within its bounds all the time -/
  depth_moment : ∀ m, s.Passes m → m.reading.depth ≤ maxNesting
  /-- the numbers never go back -/
  captures_moment : ∀ m, s.Passes m → s.captures ≤ m.reading.captures ∧
    m.reading.captures ≤ s.parse.2.captures

namespace Session

/-- **Termination**: a parse comes to a last moment. -/
theorem exists_ends (s : Session) : ∃ m, s.Passes m ∧ m.Ends s.lexer.finish s.parse :=
  s.begin.exists_last s.lexer.finish

theorem sane (hs : s.depth ≤ maxNesting) : s.Sane := by
  obtain ⟨m, hpasses, hends⟩ := s.exists_ends
  refine ⟨hends.inOrder (hpasses.since hs), ⟨m, hpasses, hends⟩, ?_, ?_⟩
  · intro m' hm'
    exact (hm'.since hs).depth_le
  · intro m' hm'
    refine ⟨Moment.captures_le_of_passes hm', ?_⟩
    obtain ⟨last, hlast, hends'⟩ := m'.exists_last s.lexer.finish
    rw [← Moment.outcome_eq_of_passes hm' s.lexer.finish] at hends'
    exact Nat.le_trans (Moment.captures_le_of_passes hlast) hends'.captures_le

/-! ## All parses -/

/-- The session after so many parses. -/
def after (s : Session) : Nat → Session
  | 0 => s
  | k + 1 => (s.after k).parse.2

/-- The current token is one that no parse can go on from. -/
def Settled (s : Session) : Prop :=
  match s.looking with
  | .character _ => False
  | .openGroup _ => maxNesting ≤ s.depth
  | .bar | .quantifier _ | .closeGroup | .finish => True

/-- A settled session stays as it is but for the numbers, on which no answer depends. -/
theorem Settled.exists_answer (h : s.Settled) : ∃ answer more, ∀ n,
    parse { s with captures := n } = (answer, { s with captures := n + more }) := by
  obtain ⟨lexer, looking, position, captures, depth⟩ := s
  cases looking with
  | character c => exact h.elim
  | bar =>
    refine ⟨.error ⟨position, .emptyAlternative⟩, 0, fun n => ?_⟩
    rw [parse, read.eq_def]
    rfl
  | quantifier q =>
    refine ⟨.error ⟨position, .danglingQuantifier q⟩, 0, fun n => ?_⟩
    rw [parse, read.eq_def]
    rfl
  | openGroup capturing =>
    have hdeep : maxNesting ≤ depth := h
    refine ⟨.error ⟨position, .nestingTooDeep⟩, if capturing then 1 else 0, fun n => ?_⟩
    rw [parse, read.eq_def]
    cases capturing <;> simp [Reading.number, Reading.judge, Reading.openGroup, hdeep]
  | closeGroup =>
    refine ⟨.error ⟨position, .unmatchedClose⟩, 0, fun n => ?_⟩
    rw [parse, read.eq_def]
    rfl
  | finish =>
    refine ⟨.ok (.concat []), 0, fun n => ?_⟩
    rw [parse, read.eq_def]
    rfl

theorem Settled.after_eq (h : s.Settled) (k : Nat) : ∃ n, s.after k = { s with captures := n } := by
  obtain ⟨answer, more, hparse⟩ := h.exists_answer
  induction k with
  | zero => exact ⟨s.captures, rfl⟩
  | succ k ih =>
    obtain ⟨n, hn⟩ := ih
    rw [after, hn, hparse]
    exact ⟨_, rfl⟩

theorem Settled.after (h : s.Settled) (k : Nat) : (s.after k).Settled := by
  obtain ⟨n, hn⟩ := h.after_eq k
  rw [hn]
  exact h

theorem Settled.parse_after (h : s.Settled) (k : Nat) : (s.after k).parse.1 = s.parse.1 := by
  obtain ⟨answer, more, hparse⟩ := h.exists_answer
  obtain ⟨n, hn⟩ := h.after_eq k
  have hnow := hparse s.captures
  rw [hn, hparse]
  exact (congrArg Prod.fst hnow).symm

theorem after_add (s : Session) (j k : Nat) : s.after (j + k) = (s.after j).after k := by
  induction k with
  | zero => rfl
  | succ k ih => rw [← Nat.add_assoc, after, after, ih]

theorem Passes.length_rest (h : s.Passes m) : m.rest.length ≤ s.lexer.rest.length := by
  induction h with
  | refl => exact Nat.le_refl _
  | tail _ hnext ih =>
    have := hnext.length_rest
    omega

/-- **One parse** settles the session or uses up blocks. -/
theorem settled_or_shorter (s : Session) :
    s.parse.2.Settled ∨ s.parse.2.lexer.rest.length < s.lexer.rest.length := by
  obtain ⟨m, hpasses, hends⟩ := s.exists_ends
  have hlength := hpasses.length_rest
  generalize s.parse = outcome at hends
  cases hends with
  | stop hstop =>
    left
    rw [Settled]
    cases hlooking : m.looking with
    | character c =>
      rw [hlooking] at hstop
      cases hstop
    | openGroup capturing =>
      simp only
      by_contra hlt
      rw [hlooking, Reading.judge, Reading.openGroup, Moment.depth_number, if_neg hlt] at hstop
      cases hstop
    | bar | quantifier | closeGroup | finish => trivial
  | finish => exact .inl trivial
  | fault hadvance hrest =>
    right
    rw [hrest, List.length_cons] at hlength
    exact hlength

/-- **All parses**: every one of them settles the session or uses up blocks. -/
theorem settled_after_or (s : Session) (k : Nat) :
    (s.after k).Settled ∨ (s.after k).lexer.rest.length + k ≤ s.lexer.rest.length := by
  induction k with
  | zero => exact .inr (Nat.le_refl _)
  | succ k ih =>
    rcases ih with hsettled | hle
    · exact .inl (hsettled.after 1)
    · rcases (s.after k).settled_or_shorter with hsettled | hlt
      · exact .inl hsettled
      · right
        rw [after]
        omega

theorem length_blocks_le (offset : Nat) (cs : List Char) :
    (blocks offset cs).length ≤ cs.length := by
  induction offset, cs using blocks.induct with
  | case1 | case2 | case4 => simp [blocks]
  | case3 offset c rest ih =>
    rw [blocks]
    simp only [List.length_cons]
    omega
  | case5 offset c rest ih =>
    rw [blocks]
    simp only [List.length_cons]
    omega
  | case6 offset c rest hlast hescape hopen hgroup ih =>
    rw [blocks.eq_6 _ _ _ hlast hescape hopen hgroup, List.length_cons, List.length_cons]
    exact Nat.succ_le_succ ih

/-- A session starts with a token that was read, and with fewer blocks than the pattern has
characters. -/
theorem start_settled_or {pattern : String} (h : start pattern = .ok s) :
    s.Settled ∨ s.lexer.rest.length < pattern.toList.length := by
  have hle := length_blocks_le 0 pattern.toList
  simp only [start, Lexer.ofPattern, Lexer.scan] at h
  cases hblocks : blocks 0 pattern.toList with
  | nil =>
    rw [hblocks] at h
    obtain rfl := Except.ok.inj h
    exact .inl trivial
  | cons block rest =>
    rw [hblocks] at h hle
    cases hreading : block.reading with
    | error fault =>
      simp only [hreading] at h
      cases h
    | ok token =>
      simp only [hreading] at h
      obtain rfl := Except.ok.inj h
      exact .inr hle

theorem start_depth {pattern : String} (h : start pattern = .ok s) : s.depth = 0 := by
  rw [start] at h
  split at h
  · obtain rfl := Except.ok.inj h
    rfl
  · cases h

theorem looking_of_ok {e : Expr} (h : s.parse.1 = .ok e) : s.parse.2.looking = .finish := by
  obtain ⟨m, -, hends⟩ := s.exists_ends
  generalize s.parse = outcome at hends h
  cases hends with
  | stop hstop =>
    subst h
    by_contra hlooking
    exact Reading.judge_ne_stop_ok hlooking hstop
  | finish => rfl
  | fault => cases h

/-- At the end of the pattern there is nothing left to parse. -/
theorem parse_of_finish (h : s.looking = .finish) : s.parse = (.ok (.concat []), s) := by
  obtain ⟨lexer, looking, position, captures, depth⟩ := s
  obtain rfl : looking = .finish := h
  rw [parse, read.eq_def]
  rfl

theorem after_of_finish (h : s.looking = .finish) (k : Nat) : s.after k = s := by
  induction k with
  | zero => rfl
  | succ k ih => rw [after, ih, parse_of_finish h]

theorem depth_after_le (hs : s.depth ≤ maxNesting) (k : Nat) : (s.after k).depth ≤ maxNesting := by
  induction k with
  | zero => exact hs
  | succ k ih => exact (sane ih).depth_le

/-- **Sessions**: however many parses are asked for, each of them is in order. Behind the first one
that succeeds there is nothing left, and after as many as the pattern has characters the answer
stays the same. -/
theorem sane_of_start {pattern : String} {s : Session} (h : start pattern = .ok s) :
    (∀ k, (s.after k).Sane) ∧
    (∀ k e, (s.after k).parse.1 = .ok e → ∀ j, k < j → (s.after j).parse.1 = .ok (.concat [])) ∧
    ∀ i j, pattern.toList.length ≤ i → pattern.toList.length ≤ j →
      (s.after i).parse.1 = (s.after j).parse.1 := by
  refine ⟨?_, ?_, ?_⟩
  · intro k
    apply sane
    apply depth_after_le
    rw [start_depth h]
    exact Nat.zero_le _
  · intro k e hok j hj
    obtain ⟨i, rfl⟩ := Nat.exists_eq_add_of_le hj
    have hlooking : (s.after (k + 1)).looking = .finish := looking_of_ok hok
    rw [after_add, after_of_finish hlooking, parse_of_finish hlooking]
  · have hsettled : (s.after pattern.toList.length).Settled := by
      rcases start_settled_or h with hsettled | hlt
      · exact hsettled.after _
      · rcases s.settled_after_or pattern.toList.length with hsettled | hle
        · exact hsettled
        · omega
    have hsame (i : Nat) (hi : pattern.toList.length ≤ i) :
        (s.after i).parse.1 = (s.after pattern.toList.length).parse.1 := by
      obtain ⟨k, rfl⟩ := Nat.exists_eq_add_of_le hi
      rw [after_add, hsettled.parse_after]
    intro i j hi hj
    rw [hsame i hi, hsame j hj]

/-- Two groups that are left open by faults, and a parenthesis that closes neither of them. -/
theorem sane_of_start_left_open : ∃ s, start "(\\q(\\q)" = .ok s ∧ (∀ k, (s.after k).Sane) ∧
    (s.after 7).parse.1 = (s.after 1000).parse.1 := by
  obtain ⟨s, hs⟩ : ∃ s, start "(\\q(\\q)" = .ok s := ⟨_, rfl⟩
  obtain ⟨hsane, -, hsame⟩ := sane_of_start hs
  exact ⟨s, hs, hsane, hsame 7 1000 (by decide) (by decide)⟩

end Session

end RegexMachine
