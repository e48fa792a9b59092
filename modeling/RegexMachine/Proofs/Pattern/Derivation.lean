import RegexMachine.Proofs.Pattern.Reading

/-!
# What was read is derived

While a pattern is read, the finished expressions and the open groups account for all tokens so far.
`Reading.Derives` says how, and `Advances.derives` that it stays true. Along with the tokens go the
numbers of the groups, and the room that the open groups leave for nesting.
-/

namespace RegexMachine

open Grammar

/-! ## One level -/

/-- The tokens of the end of a term. -/
def Tail.Derives : Tail → List Token → Prop
  | .nothing, ts => ts = []
  | .atom e, ts => Atom ts e
  | .greedy q body, ts => ∃ us, Atom us body ∧ us ++ [.quantifier q] = ts
  | .lazy q body, ts => ∃ us, Atom us body ∧ us ++ [.quantifier q, .quantifier .question] = ts

theorem Tail.Derives.term {tail : Tail} {ts : List Token} (h : tail.Derives ts) :
    Term ts tail.factor?.toList := by
  cases tail with
  | nothing =>
    obtain rfl : ts = [] := h
    exact .nil
  | atom e => exact (Factor.atom h).term
  | greedy q body =>
    obtain ⟨us, hus, rfl⟩ := h
    exact (Factor.greedy hus q).term
  | lazy q body =>
    obtain ⟨us, hus, rfl⟩ := h
    exact (Factor.lazy hus q).term

/-- The tokens of the alternatives before the current term, with the bars behind them. -/
inductive Level.Before : List (Expr × Nat) → List Token → Prop where
  /-- the current term is the first one -/
  | nil : Before [] []
  /-- another one -/
  | cons {alternatives : List (Expr × Nat)} {ts us : List Token} {es : List Expr} (position : Nat)
      (h : Before alternatives ts) (hterm : Term us es) (hne : es ≠ []) :
      Before ((ofFactors es, position) :: alternatives) (ts ++ (us ++ [.bar]))

/-- The tokens of a level. -/
structure Level.Derives (level : Level) (before factors tail : List Token) : Prop where
  /-- the alternatives before the current term -/
  before : Level.Before level.alternatives before
  /-- the factors of the current term before its tail -/
  factors : Term factors level.factors.reverse
  /-- the end of the current term -/
  tail : level.tail.Derives tail
  /-- nothing stands before an empty tail -/
  empty : level.tail = .nothing → level.factors = []

namespace Level

theorem allFactors_reverse (level : Level) :
    level.allFactors.reverse = level.factors.reverse ++ level.tail.factor?.toList := by
  rw [allFactors, List.reverse_append]
  cases level.tail.factor? <;> rfl

theorem allFactors_ne_nil {level : Level} (h : level.tail ≠ .nothing) : level.allFactors ≠ [] := by
  cases htail : level.tail <;> simp_all [allFactors, Tail.factor?]

namespace Derives

variable {level : Level} {before factors tail ts : List Token}

theorem start : Level.empty.Derives [] [] [] := ⟨.nil, .nil, rfl, fun _ => rfl⟩

theorem term (h : level.Derives before factors tail) :
    Term (factors ++ tail) level.allFactors.reverse := by
  rw [allFactors_reverse]
  exact h.factors.append h.tail.term

theorem push {e : Expr} (h : level.Derives before factors tail) (he : Atom ts e) :
    (level.push e).Derives before (factors ++ tail) ts :=
  ⟨h.before, h.term, he, by simp [Level.push]⟩

theorem bar (h : level.Derives before factors tail) (hne : level.tail ≠ .nothing) (position : Nat) :
    Derives ⟨(level.term, position) :: level.alternatives, [], .nothing⟩
      (before ++ ((factors ++ tail) ++ [.bar])) [] [] := by
  rw [level.term_eq]
  refine ⟨.cons position h.before h.term ?_, .nil, rfl, fun _ => rfl⟩
  simpa using allFactors_ne_nil hne

/-- What stands behind the alternatives becomes the innermost of them. -/
theorem alternatives_fold {alternatives : List (Expr × Nat)} {e : Expr}
    (h : Before alternatives before) (he : Alternatives ts e) :
    Alternatives (before ++ ts)
      (alternatives.foldl (fun rest (first, _) => .alternation first rest) e) := by
  induction h generalizing ts e with
  | nil => exact he
  | cons position h hterm hne ih => simpa using ih (.more hterm hne he)

theorem close {e : Expr} (h : level.Derives before factors tail) (hclose : level.close = .ok e) :
    Expression (before ++ (factors ++ tail)) e := by
  obtain ⟨hempty, rfl⟩ := close_eq_ok_iff.mp hclose
  have hbefore := h.before
  have hterm := h.term
  rw [level.term_eq]
  by_cases hnothing : level.tail = .nothing
  · -- an empty term has to be the only one
    rw [hempty hnothing] at hbefore ⊢
    cases hbefore
    exact .term hterm
  · refine (alternatives_fold hbefore (.last hterm ?_)).expression
    simpa using allFactors_ne_nil hnothing

end Derives

end Level

/-! ## All levels -/

namespace Reading

/-- The tokens of the open groups, and of the level inside all of them. -/
inductive Derives : List Frame → Level → List Token → Prop where
  /-- outside of all groups -/
  | outermost {level : Level} {before factors tail : List Token}
      (h : level.Derives before factors tail) : Derives [] level (before ++ (factors ++ tail))
  /-- inside a group -/
  | inside {frame : Frame} {frames : List Frame} {level : Level}
    {ts before factors tail : List Token}
      (h : Derives frames frame.outer ts) (h' : level.Derives before factors tail) :
      Derives (frame :: frames) level
        (ts ++ .openGroup frame.capture.isSome :: (before ++ (factors ++ tail)))

namespace Derives

variable {frames : List Frame} {level level' : Level} {ts us : List Token}

/-- More tokens at the innermost level. -/
theorem extend (h : Derives frames level ts)
    (hlevel : ∀ {before factors tail}, level.Derives before factors tail →
      ∃ before' factors' tail', level'.Derives before' factors' tail' ∧
        before' ++ (factors' ++ tail') = before ++ (factors ++ tail) ++ us) :
    Derives frames level' (ts ++ us) := by
  cases h with
  | outermost h =>
    obtain ⟨before, factors, tail, h', htokens⟩ := hlevel h
    exact htokens ▸ .outermost h'
  | inside hframes h =>
    obtain ⟨before, factors, tail, h', htokens⟩ := hlevel h
    rw [List.append_assoc, List.cons_append, ← htokens]
    exact .inside hframes h'

theorem push {e : Expr} (h : Derives frames level ts) (he : Atom us e) :
    Derives frames (level.push e) (ts ++ us) :=
  h.extend fun hlevel => ⟨_, _, _, hlevel.push he, by simp⟩

end Derives

/-- Every token is accounted for. -/
theorem Advances.derives {position : Nat} {r r' : Reading} {token : Token} {ts : List Token}
    (h : Advances position r token r') (hr : Derives r.frames r.level ts) :
    Derives r'.frames r'.level (ts ++ [token]) := by
  cases h with
  | character c => exact hr.push (.character c)
  | bar hne => exact hr.extend fun hlevel => ⟨_, _, _, hlevel.bar hne position, by simp⟩
  | greedy q htail =>
    refine hr.extend fun {before factors tail} hlevel => ?_
    have hatom := hlevel.tail
    rw [htail] at hatom
    exact ⟨before, factors, tail ++ [.quantifier q],
      ⟨hlevel.before, hlevel.factors, ⟨tail, hatom, rfl⟩, by simp⟩, by simp⟩
  | lazy htail =>
    refine hr.extend fun {before factors tail} hlevel => ?_
    have hgreedy := hlevel.tail
    rw [htail] at hgreedy
    obtain ⟨us, hus, rfl⟩ := hgreedy
    exact ⟨before, factors, _, ⟨hlevel.before, hlevel.factors, ⟨us, hus, rfl⟩, by simp⟩, by simp⟩
  | openCapture | openPlain => exact .inside hr .start
  | @closeGroup e frame frames hclose hframes =>
    rw [hframes] at hr
    cases hr with
    | inside hout hlevel => simpa using hout.push (.group frame.capture (hlevel.close hclose))

end Reading

/-! ## Finished expressions -/

namespace Level

/-- The expressions that are finished at a level, in the order of the text. -/
def parts (level : Level) : List Expr :=
  level.alternatives.reverse.map Prod.fst ++ (level.factors.reverse ++ level.tail.factor?.toList)

variable {level : Level}

@[simp] theorem parts_empty : Level.empty.parts = [] := rfl

@[simp] theorem parts_push (e : Expr) : (level.push e).parts = level.parts ++ [e] := by
  simp [parts, push, allFactors_reverse, Tail.factor?]

theorem parts_bar (position : Nat) :
    parts ⟨(level.term, position) :: level.alternatives, [], .nothing⟩ =
      level.alternatives.reverse.map Prod.fst ++ [level.term] := by
  simp [parts, Tail.factor?]

theorem parts_of_factor {e : Expr} (h : level.tail.factor? = some e) :
    level.parts = level.alternatives.reverse.map Prod.fst ++ level.factors.reverse ++ [e] := by
  simp [parts, h]

/-- The numbers of the groups in the expressions that are finished at a level. -/
def indices (level : Level) : List Nat := level.parts.flatMap Expr.indices

theorem indices_term (level : Level) :
    level.term.indices =
      (level.factors.reverse ++ level.tail.factor?.toList).flatMap Expr.indices := by
  rw [term_eq, indices_ofFactors, allFactors_reverse]

theorem indices_fold (alternatives : List (Expr × Nat)) (e : Expr) :
    (alternatives.foldl (fun rest (first, _) => .alternation first rest) e).indices =
      (alternatives.reverse.map Prod.fst).flatMap Expr.indices ++ e.indices := by
  induction alternatives generalizing e with
  | nil => simp
  | cons a alternatives ih => simp [ih]

theorem indices_close {e : Expr} (h : level.close = .ok e) : e.indices = level.indices := by
  obtain ⟨-, rfl⟩ := close_eq_ok_iff.mp h
  rw [indices_fold, indices_term, indices, parts, List.flatMap_append, List.flatMap_append,
    List.flatMap_append]

/-- Groups nest at most so deep in the expressions that are finished at a level. -/
def Fits (level : Level) (room : Nat) : Prop := ∀ e ∈ level.parts, e.nesting ≤ room

theorem Fits.push {room : Nat} {e : Expr} (h : level.Fits room) (he : e.nesting ≤ room) :
    (level.push e).Fits room := by
  intro e' he'
  rw [parts_push, List.mem_append, List.mem_singleton] at he'
  rcases he' with he' | rfl
  · exact h e' he'
  · exact he

/-- A factor may be replaced by one that is as deep. -/
theorem Fits.replace {room : Nat} {tail : Tail} {e e' : Expr} (h : level.Fits room)
    (he : level.tail.factor? = some e) (he' : tail.factor? = some e')
    (hnesting : e'.nesting = e.nesting) : Fits { level with tail } room := by
  rw [Fits, parts_of_factor he] at h
  intro f hf
  rw [parts_of_factor he', List.mem_append, List.mem_singleton] at hf
  rcases hf with hf | rfl
  · exact h f (List.mem_append_left _ hf)
  · rw [hnesting]
    exact h e (by simp)

theorem nesting_term_le {room : Nat} (h : level.Fits room) : level.term.nesting ≤ room := by
  rw [term_eq, nesting_ofFactors, allFactors_reverse, Expr.nestings_le_iff]
  exact fun e he => h e (List.mem_append_right _ he)

theorem nesting_fold_le {alternatives : List (Expr × Nat)} {room : Nat} {e : Expr}
    (h : ∀ a ∈ alternatives, a.1.nesting ≤ room) (he : e.nesting ≤ room) :
    (alternatives.foldl (fun rest (first, _) => .alternation first rest) e).nesting ≤ room := by
  induction alternatives generalizing e with
  | nil => exact he
  | cons a alternatives ih =>
    rw [List.forall_mem_cons] at h
    exact ih h.2 (Nat.max_le.mpr ⟨h.1, he⟩)

theorem Fits.alternatives {room : Nat} (h : level.Fits room) :
    ∀ a ∈ level.alternatives, a.1.nesting ≤ room := fun a ha =>
  h a.1 (List.mem_append_left _ (List.mem_map_of_mem (List.mem_reverse.mpr ha)))

theorem nesting_close_le {room : Nat} {e : Expr} (h : level.Fits room)
    (hclose : level.close = .ok e) :
    e.nesting ≤ room := by
  obtain ⟨-, rfl⟩ := close_eq_ok_iff.mp hclose
  exact nesting_fold_le h.alternatives (nesting_term_le h)

end Level

namespace Reading

/-! ## The numbers of the groups -/

/-- The numbers of the groups at the levels around the innermost one. -/
def outerIndices : List Frame → List Nat
  | [] => []
  | frame :: frames => outerIndices frames ++ (frame.outer.indices ++ frame.capture.toList)

/-- The numbers of the groups that were opened so far, in the order of the text. -/
def indices (r : Reading) : List Nat := outerIndices r.frames ++ r.level.indices

theorem Advances.captures_le {position : Nat} {r r' : Reading} {token : Token}
    (h : Advances position r token r') : r.captures ≤ r'.captures := by
  cases h <;> simp

/-- A group is numbered when it is opened, from some number on. -/
theorem Advances.indices_from {position first : Nat} {r r' : Reading} {token : Token}
    (h : Advances position r token r') (hle : first ≤ r.captures)
    (hr : r.indices = List.range' (first + 1) (r.captures - first)) :
    r'.indices = List.range' (first + 1) (r'.captures - first) := by
  rw [Reading.indices] at hr ⊢
  cases h with
  | character c => simpa [Level.indices] using hr
  | bar hne =>
    rw [← hr, Level.indices, Level.indices, Level.parts_bar, Level.parts]
    simp [Level.indices_term]
  | greedy q htail | lazy htail =>
    rw [← hr, Level.indices, Level.indices, Level.parts_of_factor (congrArg Tail.factor? htail),
      Level.parts_of_factor rfl]
    simp
  | openCapture =>
    have hnext : first + 1 + 1 * (r.captures - first) = r.captures + 1 := by omega
    rw [Nat.sub_add_comm hle, List.range'_concat, hnext, ← hr]
    simp [outerIndices, Level.indices]
  | openPlain => simpa [outerIndices, Level.indices] using hr
  | closeGroup hclose hframes =>
    rw [← hr, hframes]
    simp [outerIndices, Level.indices, Level.indices_close hclose]

/-- In a first parse the numbers begin with one. -/
theorem Advances.indices {position : Nat} {r r' : Reading} {token : Token}
    (h : Advances position r token r') (hr : r.indices = List.range' 1 r.captures) :
    r'.indices = List.range' 1 r'.captures :=
  h.indices_from (Nat.zero_le _) hr

theorem Advances.captures {position : Nat} {r r' : Reading} {token : Token}
    (h : Advances position r token r') :
    r'.captures = r.captures + [token].count (.openGroup true) := by
  cases h <;> simp

/-! ## Nesting -/

/-- Every level around the innermost one leaves room for the groups that stand in it. -/
def FramesFit : List Frame → Prop
  | [] => True
  | frame :: frames => frame.outer.Fits (maxNesting - frames.length) ∧ FramesFit frames

/-- The depth is that of the open groups, and the finished expressions fit into what is left. -/
structure Fits (r : Reading) : Prop where
  /-- the depth counts the open groups -/
  depth_eq : r.depth = r.frames.length
  /-- there are not too many of them -/
  depth_le : r.depth ≤ maxNesting
  /-- every level around fits -/
  frames : FramesFit r.frames
  /-- so does the innermost one -/
  level : r.level.Fits (maxNesting - r.depth)

theorem Advances.fits {position : Nat} {r r' : Reading} {token : Token}
    (h : Advances position r token r') (hr : r.Fits) : r'.Fits := by
  obtain ⟨hdepth, hle, hframes, hlevel⟩ := hr
  cases h with
  | character c => exact ⟨hdepth, hle, hframes, hlevel.push (Nat.zero_le _)⟩
  | bar hne =>
    refine ⟨hdepth, hle, hframes, fun e he => ?_⟩
    rw [Level.parts_bar, List.mem_append, List.mem_singleton] at he
    rcases he with he | rfl
    · exact hlevel e (List.mem_append_left _ he)
    · exact Level.nesting_term_le hlevel
  | greedy q htail | lazy htail =>
    exact ⟨hdepth, hle, hframes, hlevel.replace (congrArg Tail.factor? htail) rfl rfl⟩
  | openCapture hlt | openPlain hlt =>
    exact ⟨congrArg (· + 1) hdepth, hlt, ⟨hdepth ▸ hlevel, hframes⟩, by simp [Level.Fits]⟩
  | @closeGroup e frame frames hclose hcons =>
    rw [hcons] at hdepth hframes
    rw [List.length_cons] at hdepth
    have hdepth' : r.depth - 1 = frames.length := by omega
    have hbody := Level.nesting_close_le hlevel hclose
    -- the group is one level deeper than what stands inside it
    have hgroup : (Expr.group frame.capture e).nesting ≤ maxNesting - frames.length := by
      rw [Expr.nesting]
      omega
    exact ⟨hdepth', Nat.le_trans (Nat.sub_le _ _) hle, hframes.2, hdepth' ▸ hframes.1.push hgroup⟩

/-! ## The whole pattern -/

/-- What a reading knows of the tokens so far. -/
structure Knows (r : Reading) (ts : List Token) : Prop where
  /-- the grammar derives what was read -/
  derives : Derives r.frames r.level ts
  /-- the groups are numbered in the order of their parentheses -/
  indices : r.indices = List.range' 1 r.captures
  /-- each of these parentheses got a number -/
  captures : r.captures = ts.count (.openGroup true)
  /-- the groups do not nest too deep -/
  fits : r.Fits

theorem knows_start : start.Knows [] where
  derives := .outermost .start
  indices := rfl
  captures := rfl
  fits := ⟨rfl, Nat.zero_le _, trivial, by simp [Level.Fits, start]⟩

/-- One token. -/
theorem Knows.advance {position : Nat} {r r' : Reading} {token : Token} {ts : List Token}
    (hr : r.Knows ts) (h : Advances position r token r') : r'.Knows (ts ++ [token]) where
  derives := h.derives hr.derives
  indices := h.indices hr.indices
  captures := by rw [h.captures, hr.captures, List.count_append]
  fits := h.fits hr.fits

/-- Any number of tokens. -/
theorem Knows.run {r r' : Reading} {ts : List Token} {items : List (Nat × Token)}
    (hr : r.Knows ts) (h : r.run items = some r') : r'.Knows (ts ++ items.map Prod.snd) := by
  induction items generalizing r ts with
  | nil =>
    obtain rfl := Option.some.inj h
    simpa using hr
  | cons item items ih =>
    obtain ⟨position, token⟩ := item
    obtain ⟨s, hadvance, hs⟩ := run_cons_eq_some_iff.mp h
    simpa using ih (hr.advance hadvance) hs

theorem conclude_eq_ok_iff {r : Reading} {e : Expr} :
    r.conclude = .ok e ↔ r.level.close = .ok e ∧ r.frames = [] := by
  rw [conclude]
  cases r.level.close <;> cases r.frames <;> simp

theorem Knows.conclude {r : Reading} {ts : List Token} {e : Expr} (hr : r.Knows ts)
    (h : r.conclude = .ok e) : Expression ts e ∧ e.nesting ≤ maxNesting ∧
      e.indices = List.range' 1 (ts.count (.openGroup true)) := by
  obtain ⟨hclose, hframes⟩ := conclude_eq_ok_iff.mp h
  have hderives := hr.derives
  have hindices := hr.indices
  rw [hframes] at hderives
  refine ⟨?_, ?_, ?_⟩
  · cases hderives with
    | outermost hlevel => exact hlevel.close hclose
  · exact Nat.le_trans (Level.nesting_close_le hr.fits.level hclose) (Nat.sub_le _ _)
  · rw [Level.indices_close hclose, ← hr.captures, ← hindices, Reading.indices, hframes]
    rfl

end Reading

/-- **What is accepted is derived**, and its groups are numbered in the order of their
parentheses. -/
theorem Expr.derives_of_parse {pattern : String} {e : Expr} (h : parse pattern = .ok e) :
    ∃ tokens, Lexes pattern tokens ∧ Expression tokens e ∧ e.nesting ≤ maxNesting ∧
      tokens.count (.openGroup true) = e.captureCount ∧
      e.indices = List.range' 1 e.captureCount := by
  obtain ⟨items, hitems, r, hrun, hconclude⟩ := parse_eq_ok_iff_run.mp h
  obtain ⟨hderives, hnesting, hindices⟩ := (Reading.knows_start.run hrun).conclude hconclude
  have hcount := congrArg List.length hindices
  rw [List.length_range', ← captureCount_eq_length] at hcount
  exact ⟨_, lexes_iff.mpr ⟨items, hitems, rfl⟩, hderives, hnesting, hcount.symm, hcount ▸ hindices⟩

end RegexMachine
