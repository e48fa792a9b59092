import RegexMachine.Proofs.Pattern.Derivation

/-!
# What is derived is accepted

Tokens that the grammar derives are read without a fault, wherever they stand in a pattern: there is
one statement for each symbol of the grammar, about a reading that has come to where the tokens
begin. The groups have to be numbered from there on, and to leave room for each other.
-/

namespace RegexMachine

open Grammar

/-- Groups are numbered one after the other, from behind `n` on. -/
def Numbered (n : Nat) (indices : List Nat) : Prop := indices = List.range' (n + 1) indices.length

theorem numbered_append_iff {n : Nat} {is js : List Nat} :
    Numbered n (is ++ js) ↔ Numbered n is ∧ Numbered (n + is.length) js := by
  rw [Numbered, Numbered, Numbered, List.length_append, ← List.range'_append_1, Nat.add_right_comm]
  constructor
  · exact fun h => List.append_inj h (by simp)
  · rintro ⟨his, hjs⟩
    rw [← his, ← hjs]

namespace Reading

/-- The reading when more groups were numbered and the innermost level has grown. -/
def goOn (r : Reading) (indices : List Nat) (level : Level) : Reading :=
  { r with captures := r.captures + indices.length, level }

theorem goOn_goOn (r : Reading) (is js : List Nat) (level level' : Level) :
    (r.goOn is level).goOn js level' = r.goOn (is ++ js) level' := by
  simp [goOn, Nat.add_assoc]

/-- What comes next has the right numbers, and there is room for it. -/
structure Admits (r : Reading) (indices : List Nat) (nesting : Nat) : Prop where
  /-- the groups are numbered on from those so far -/
  numbered : Numbered r.captures indices
  /-- they do not nest too deep here -/
  room : r.depth + nesting ≤ maxNesting

/-- An atom becomes the end of the current term. -/
def ReadsAtom (ts : List Token) (e : Expr) : Prop :=
  ∀ (r : Reading) (items : List (Nat × Token)), items.map Prod.snd = ts →
    r.Admits e.indices e.nesting → r.run items = some (r.goOn e.indices (r.level.push e))

/-- So does a factor, which may be a repetition. -/
def ReadsFactor (ts : List Token) (e : Expr) : Prop :=
  ∀ (r : Reading) (items : List (Nat × Token)), items.map Prod.snd = ts →
    r.Admits e.indices e.nesting → ∃ tail, tail.factor? = some e ∧
      r.run items = some (r.goOn e.indices ⟨r.level.alternatives, r.level.allFactors, tail⟩)

/-- Factors are added to the current term. -/
def ReadsTerm (ts : List Token) (es : List Expr) : Prop :=
  ∀ (r : Reading) (items : List (Nat × Token)), items.map Prod.snd = ts →
    r.Admits (es.flatMap Expr.indices) (Expr.nestings es) → ∃ level,
      r.run items = some (r.goOn (es.flatMap Expr.indices) level) ∧
      level.alternatives = r.level.alternatives ∧
      level.allFactors = es.reverse ++ r.level.allFactors ∧
      (level.tail = .nothing → es = [] ∧ r.level.tail = .nothing)

/-- What stands behind a bar becomes the innermost alternative. -/
def ReadsAlternatives (ts : List Token) (e : Expr) : Prop :=
  ∀ (r : Reading) (items : List (Nat × Token)), items.map Prod.snd = ts →
    r.Admits e.indices e.nesting → r.level.allFactors = [] → ∃ level,
      r.run items = some (r.goOn e.indices level) ∧
      level.close = .ok (r.level.alternatives.foldl (fun rest (a, _) => .alternation a rest) e)

/-- What stands in a group, or in the whole pattern, makes up a level. -/
def ReadsExpression (ts : List Token) (e : Expr) : Prop :=
  ∀ (r : Reading) (items : List (Nat × Token)), items.map Prod.snd = ts →
    r.Admits e.indices e.nesting → r.level = .empty → ∃ level,
      r.run items = some (r.goOn e.indices level) ∧ level.close = .ok e

theorem run_append_of_run {r s : Reading} {items : List (Nat × Token)} (h : r.run items = some s)
    (more : List (Nat × Token)) : r.run (items ++ more) = s.run more := by
  rw [run_append, h, Option.bind_some]

theorem run_cons_of_advances {r s : Reading} {position : Nat} {token : Token}
    (h : Advances position r token s) (items : List (Nat × Token)) :
    r.run ((position, token) :: items) = s.run items := by
  rw [run, judge_eq_next_iff.mpr h]

/-! ## Atoms -/

theorem ReadsAtom.character (c : Char) : ReadsAtom [.character c] (.literal c) := by
  intro r items hitems _
  obtain ⟨⟨position, token⟩, rest, rfl, rfl, hrest⟩ := List.map_eq_cons_iff.mp hitems
  obtain rfl := List.map_eq_nil_iff.mp hrest
  rw [run_cons_of_advances (.character c)]
  rfl

/-- The right number is the next one. -/
theorem Admits.advances {r : Reading} {capture : Option Nat} {e : Expr}
    (h : r.Admits (Expr.group capture e).indices (Expr.group capture e).nesting) (position : Nat) :
    Advances position r (.openGroup capture.isSome)
      ⟨r.captures + capture.toList.length, r.depth + 1, ⟨position, capture, r.level⟩ :: r.frames,
        .empty⟩ := by
  have hroom : r.depth < maxNesting := by
    have := h.room
    rw [Expr.nesting] at this
    omega
  have hnumbered := h.numbered
  rw [Expr.indices_group, numbered_append_iff] at hnumbered
  cases capture with
  | none => exact .openPlain hroom
  | some index =>
    obtain rfl : index = r.captures + 1 := by simpa [Numbered] using hnumbered.1
    exact .openCapture hroom

theorem ReadsAtom.group {ts : List Token} {e : Expr} (capture : Option Nat)
    (h : ReadsExpression ts e) :
    ReadsAtom (.openGroup capture.isSome :: (ts ++ [.closeGroup])) (.group capture e) := by
  intro r items hitems hadmits
  obtain ⟨⟨position, token⟩, rest, rfl, rfl, hrest⟩ := List.map_eq_cons_iff.mp hitems
  obtain ⟨inside, last, rfl, hinside, hlast⟩ := List.map_eq_append_iff.mp hrest
  obtain ⟨⟨stop, token⟩, rest, rfl, rfl, hend⟩ := List.map_eq_cons_iff.mp hlast
  obtain rfl := List.map_eq_nil_iff.mp hend
  have hnumbered := hadmits.numbered
  have hroom := hadmits.room
  rw [Expr.indices_group, numbered_append_iff] at hnumbered
  rw [Expr.nesting] at hroom
  have hinner : r.depth + 1 + e.nesting ≤ maxNesting := by omega
  -- the parenthesis opens a level, the expression fills it, the other parenthesis closes it
  obtain ⟨level, hrun, hclose⟩ := h
    ⟨r.captures + capture.toList.length, r.depth + 1,
      ⟨position, capture, r.level⟩ :: r.frames, .empty⟩
    inside hinside ⟨hnumbered.2, hinner⟩ rfl
  rw [run_cons_of_advances (hadmits.advances position), run_append_of_run hrun,
    run_cons_of_advances (.closeGroup hclose rfl)]
  simp [goOn, Nat.add_assoc]

/-! ## Factors -/

theorem ReadsAtom.factor {ts : List Token} {e : Expr} (h : ReadsAtom ts e) : ReadsFactor ts e :=
  fun r items hitems hadmits => ⟨.atom e, rfl, h r items hitems hadmits⟩

theorem ReadsAtom.greedy {ts : List Token} {e : Expr} (h : ReadsAtom ts e) (q : Quantifier) :
    ReadsFactor (ts ++ [.quantifier q]) (.repetition q true e) := by
  intro r items hitems hadmits
  obtain ⟨front, last, rfl, hfront, hlast⟩ := List.map_eq_append_iff.mp hitems
  obtain ⟨⟨position, token⟩, rest, rfl, rfl, hrest⟩ := List.map_eq_cons_iff.mp hlast
  obtain rfl := List.map_eq_nil_iff.mp hrest
  refine ⟨.greedy q e, rfl, ?_⟩
  rw [run_append_of_run (h r front hfront hadmits), run_cons_of_advances (.greedy q rfl)]
  rfl

theorem ReadsAtom.lazy {ts : List Token} {e : Expr} (h : ReadsAtom ts e) (q : Quantifier) :
    ReadsFactor (ts ++ [.quantifier q, .quantifier .question]) (.repetition q false e) := by
  intro r items hitems hadmits
  obtain ⟨front, last, rfl, hfront, hlast⟩ := List.map_eq_append_iff.mp hitems
  obtain ⟨⟨position, token⟩, rest, rfl, rfl, hrest⟩ := List.map_eq_cons_iff.mp hlast
  obtain ⟨⟨next, token⟩, rest, rfl, rfl, hend⟩ := List.map_eq_cons_iff.mp hrest
  obtain rfl := List.map_eq_nil_iff.mp hend
  refine ⟨.lazy q e, rfl, ?_⟩
  rw [run_append_of_run (h r front hfront hadmits), run_cons_of_advances (.greedy q rfl),
    run_cons_of_advances (.lazy rfl)]
  rfl

/-! ## Terms -/

theorem ReadsTerm.nil : ReadsTerm [] [] := by
  intro r items hitems _
  obtain rfl := List.map_eq_nil_iff.mp hitems
  exact ⟨r.level, rfl, rfl, rfl, fun h => ⟨rfl, h⟩⟩

theorem ReadsTerm.cons {ts us : List Token} {e : Expr} {es : List Expr} (h : ReadsFactor ts e)
    (h' : ReadsTerm us es) : ReadsTerm (ts ++ us) (e :: es) := by
  intro r items hitems hadmits
  obtain ⟨front, back, rfl, hfront, hback⟩ := List.map_eq_append_iff.mp hitems
  have hnumbered := hadmits.numbered
  have hroom := hadmits.room
  rw [List.flatMap_cons, numbered_append_iff] at hnumbered
  rw [Expr.nestings] at hroom
  obtain ⟨tail, htail, hrun⟩ := h r front hfront ⟨hnumbered.1, by omega⟩
  obtain ⟨level, hrun', halternatives, hfactors, hempty⟩ := h'
    (r.goOn e.indices ⟨r.level.alternatives, r.level.allFactors, tail⟩) back hback
    ⟨hnumbered.2, Nat.le_trans (Nat.add_le_add_left (Nat.le_max_right _ _) _) hroom⟩
  refine ⟨level, ?_, halternatives, ?_, fun hnothing => ?_⟩
  · rw [run_append_of_run hrun, hrun', goOn_goOn, List.flatMap_cons]
  · rw [hfactors, List.reverse_cons, List.append_assoc, goOn, Level.allFactors, htail]
    rfl
  · have hbefore : tail = .nothing := (hempty hnothing).2
    rw [hbefore] at htail
    cases htail

/-! ## Alternatives -/

/-- A term that is not empty ends well, and so does what is made of it and the alternatives
before. -/
theorem close_of_factors {level : Level} {alternatives : List (Expr × Nat)} {es : List Expr}
    (halternatives : level.alternatives = alternatives) (hfactors : level.allFactors = es.reverse)
    (hempty : level.tail = .nothing → alternatives = []) :
    level.close =
      .ok (alternatives.foldl (fun rest (a, _) => .alternation a rest) (ofFactors es)) := by
  refine Level.close_eq_ok_iff.mpr ⟨halternatives ▸ hempty, ?_⟩
  rw [halternatives, level.term_eq, hfactors, List.reverse_reverse]

theorem ReadsTerm.last {ts : List Token} {es : List Expr} (h : ReadsTerm ts es) (hne : es ≠ []) :
    ReadsAlternatives ts (ofFactors es) := by
  intro r items hitems hadmits hlevel
  rw [indices_ofFactors, nesting_ofFactors] at hadmits
  obtain ⟨level, hrun, halternatives, hfactors, hempty⟩ := h r items hitems hadmits
  rw [hlevel, List.append_nil] at hfactors
  refine ⟨level, by rw [hrun, indices_ofFactors], close_of_factors halternatives hfactors ?_⟩
  exact fun hnothing => absurd (hempty hnothing).1 hne

theorem ReadsTerm.more {ts us : List Token} {es : List Expr} {e : Expr} (h : ReadsTerm ts es)
    (hne : es ≠ []) (h' : ReadsAlternatives us e) :
    ReadsAlternatives (ts ++ .bar :: us) (.alternation (ofFactors es) e) := by
  intro r items hitems hadmits hlevel
  obtain ⟨front, rest, rfl, hfront, hrest⟩ := List.map_eq_append_iff.mp hitems
  obtain ⟨⟨position, token⟩, back, rfl, rfl, hback⟩ := List.map_eq_cons_iff.mp hrest
  have hnumbered := hadmits.numbered
  have hroom := hadmits.room
  rw [Expr.indices_alternation, indices_ofFactors, numbered_append_iff] at hnumbered
  rw [Expr.nesting, nesting_ofFactors] at hroom
  obtain ⟨level, hrun, halternatives, hfactors, hempty⟩ :=
    h r front hfront ⟨hnumbered.1, by omega⟩
  rw [hlevel, List.append_nil] at hfactors
  have hbar : level.tail ≠ .nothing := fun hnothing => hne (hempty hnothing).1
  -- the bar puts the term to the alternatives before
  obtain ⟨level', hrun', hclose⟩ := h'
    (r.goOn (es.flatMap Expr.indices) ⟨(level.term, position) :: level.alternatives, [], .nothing⟩)
    back hback ⟨hnumbered.2, Nat.le_trans (Nat.add_le_add_left (Nat.le_max_right _ _) _) hroom⟩ rfl
  refine ⟨level', ?_, ?_⟩
  · rw [run_append_of_run hrun, run_cons_of_advances (.bar hbar), Expr.indices_alternation,
      indices_ofFactors, ← goOn_goOn]
    exact hrun'
  · rw [hclose, ← halternatives, ← List.reverse_reverse es, ← hfactors, ← level.term_eq]
    rfl

/-! ## Expressions -/

theorem ReadsTerm.expression {ts : List Token} {es : List Expr} (h : ReadsTerm ts es) :
    ReadsExpression ts (ofFactors es) := by
  intro r items hitems hadmits hlevel
  rw [indices_ofFactors, nesting_ofFactors] at hadmits
  obtain ⟨level, hrun, halternatives, hfactors, -⟩ := h r items hitems hadmits
  have hempty : Level.empty.allFactors = [] := rfl
  rw [hlevel] at halternatives hfactors
  rw [hempty, List.append_nil] at hfactors
  exact ⟨level, by rw [hrun, indices_ofFactors],
    close_of_factors halternatives hfactors fun _ => rfl⟩

theorem ReadsAlternatives.expression {ts : List Token} {e : Expr} (h : ReadsAlternatives ts e) :
    ReadsExpression ts e := by
  intro r items hitems hadmits hlevel
  have hempty : r.level.allFactors = [] := by rw [hlevel]; rfl
  obtain ⟨level, hrun, hclose⟩ := h r items hitems hadmits hempty
  rw [hlevel] at hclose
  exact ⟨level, hrun, hclose⟩

end Reading

open Reading

/-! ## All of them -/

mutual

theorem Grammar.Expression.reads {ts : List Token} {e : Expr} :
    Expression ts e → ReadsExpression ts e
  | .term h => h.reads.expression
  | .choice h hne h' => (h.reads.more hne h'.reads).expression

theorem Grammar.Alternatives.reads {ts : List Token} {e : Expr} :
    Alternatives ts e → ReadsAlternatives ts e
  | .last h hne => h.reads.last hne
  | .more h hne h' => h.reads.more hne h'.reads

theorem Grammar.Term.reads {ts : List Token} {es : List Expr} : Term ts es → ReadsTerm ts es
  | .nil => .nil
  | .cons h h' => .cons h.reads h'.reads

theorem Grammar.Factor.reads {ts : List Token} {e : Expr} : Factor ts e → ReadsFactor ts e
  | .atom h => h.reads.factor
  | .greedy h q => h.reads.greedy q
  | .lazy h q => h.reads.lazy q

theorem Grammar.Atom.reads {ts : List Token} {e : Expr} : Atom ts e → ReadsAtom ts e
  | .character c => .character c
  | .group capture h => .group capture h.reads

end

/-- **What is derived is accepted**, if its groups are numbered in the order of their parentheses
and do not nest too deep. -/
theorem Expr.parse_of_derives {pattern : String} {e : Expr} {tokens : List Token}
    (hlexes : Lexes pattern tokens) (hderives : Expression tokens e)
    (hnesting : e.nesting ≤ maxNesting) (hindices : e.indices = List.range' 1 e.indices.length) :
    parse pattern = .ok e := by
  obtain ⟨items, hitems, htokens⟩ := lexes_iff.mp hlexes
  have hadmits : start.Admits e.indices e.nesting := ⟨by simpa [Numbered, start] using hindices,
    by simpa [start] using hnesting⟩
  obtain ⟨level, hrun, hclose⟩ := hderives.reads start items htokens hadmits rfl
  exact parse_eq_ok_iff_run.mpr ⟨items, hitems, _, hrun, conclude_eq_ok_iff.mpr ⟨hclose, rfl⟩⟩

/-- **The parser accepts exactly its grammar.** A pattern stands for an expression if it falls into
tokens from which the grammar derives that expression, where groups nest at most `maxNesting` deep
and those that capture are numbered in the order of their opening parentheses. -/
theorem Expr.parse_eq_ok_iff (pattern : String) (e : Expr) :
    parse pattern = .ok e ↔ ∃ tokens, Lexes pattern tokens ∧ Expression tokens e ∧
      e.nesting ≤ maxNesting ∧ e.indices = List.range' 1 e.captureCount := by
  constructor
  · intro h
    obtain ⟨tokens, hlexes, hderives, hnesting, -, hindices⟩ := derives_of_parse h
    exact ⟨tokens, hlexes, hderives, hnesting, hindices⟩
  · rintro ⟨tokens, hlexes, hderives, hnesting, hindices⟩
    rw [captureCount_eq_length] at hindices
    exact parse_of_derives hlexes hderives hnesting hindices

end RegexMachine
