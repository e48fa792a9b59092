import RegexMachine.Proofs.Expr.Renumbering
import RegexMachine.Proofs.Pattern.Printing
import RegexMachine.Proofs.Pattern.Tiling

/-!
# Patterns made of patterns

Where patterns that can be read are put together, the whole is read like its parts:

* **blocks** — no block forms across the seam, since those of the first part are complete, and the
  second part does not begin with a question mark (`Lexes.append`);
* **tokens** — the tokens of the parts derive their trees one behind the other, with a bar in
  between, or inside a group;
* **numbers** — the groups of the second part are numbered on from those of the first one.
-/

namespace RegexMachine

open Grammar

/-! ## Blocks -/

theorem readings_of_tile {text rest : List Char} (h : Tile text rest.head?) :
    readings (text ++ rest) = readTile text :: readings rest := by
  rw [readings, blocks_of_tile h, List.map_cons, map_reading_blocks _ 0, readings]

/-- What is put behind complete blocks is read by itself. -/
theorem readings_append {tiles : List (List Char)} (h : Tiled tiles) {ts : List Token}
    (hread : readings tiles.flatten = ts.map .ok) {more : List Char}
    (hmore : more.head? ≠ some '?') :
    readings (tiles.flatten ++ more) = ts.map .ok ++ readings more := by
  induction tiles generalizing ts with
  | nil =>
    rw [List.flatten_nil, readings_nil, eq_comm, List.map_eq_nil_iff] at hread
    rw [hread]
    rfl
  | cons text tiles ih =>
    rw [List.flatten_cons, readings_of_tile h.1, eq_comm, List.map_eq_cons_iff] at hread
    obtain ⟨token, ts, rfl, htoken, hts⟩ := hread
    have htile : Tile text (tiles.flatten ++ more).head? := by
      cases hrest : tiles.flatten with
      | nil => exact h.1.of_ok htoken.symm hmore
      | cons c cs =>
        have hhere := h.1
        rwa [hrest] at hhere
    rw [List.flatten_cons, List.append_assoc, readings_of_tile htile, ih h.2 hts.symm, ← htoken]
    rfl

/-- **No block across the seam**: two patterns one behind the other have the blocks of both. -/
theorem Lexes.append {p q : String} {ts us : List Token} (hp : Lexes p ts) (hq : Lexes q us)
    (hbegins : q.toList.head? ≠ some '?') : Lexes (p ++ q) (ts ++ us) := by
  obtain ⟨tiles, hflatten, htiled⟩ := exists_tiled p.toList
  have hread : readings tiles.flatten = ts.map .ok := hflatten ▸ hp
  have hjoined := readings_append htiled hread hbegins
  rw [hflatten, show readings q.toList = us.map .ok from hq, ← List.map_append] at hjoined
  rw [Lexes, String.toList_append]
  exact hjoined

theorem lexes_bar : Lexes "|" [.bar] := rfl

theorem lexes_closeGroup : Lexes ")" [.closeGroup] := rfl

theorem lexes_openGroup (captures : Bool) :
    Lexes (Token.openGroup captures).text [.openGroup captures] := by
  cases captures <;> rfl

/-- A pattern that begins with a question mark begins with a quantifier. -/
theorem Lexes.head?_ne {p : String} {ts : List Token} (h : Lexes p ts)
    (hlegible : Legible ts) : p.toList.head? ≠ some '?' := by
  intro hhead
  obtain ⟨rest, hrest⟩ := List.head?_eq_some_iff.mp hhead
  have hread : readings ('?' :: rest) = ts.map .ok := hrest ▸ h
  rw [readings_char (by decide) fun heq => absurd heq (by decide), eq_comm,
    List.map_eq_cons_iff] at hread
  obtain ⟨token, us, rfl, htoken, -⟩ := hread
  obtain rfl := Except.ok.inj htoken
  exact hlegible.begins rfl

/-! ## What can be read -/

namespace Expr

/-- A pattern stands for a tree if it falls into the tokens of the tree, and the tree is one that
the parser makes. -/
theorem parse_eq_ok_iff_canonical {pattern : String} {e : Expr} :
    parse pattern = .ok e ↔ Lexes pattern e.tokens ∧ e.Canonical := by
  constructor
  · intro h
    obtain ⟨tokens, hlexes, hderives, hnesting, -, hindices⟩ := derives_of_parse h
    obtain ⟨hshape, rfl⟩ := expression_iff.mp hderives
    exact ⟨hlexes, hshape, hnesting, hindices⟩
  · rintro ⟨hlexes, hshape, hnesting, hindices⟩
    rw [captureCount_eq_length] at hindices
    exact parse_of_derives hlexes (expression_iff.mpr ⟨hshape, rfl⟩) hnesting hindices

/-- A pattern that can be read does not begin with a question mark. -/
theorem head?_ne_of_parse {pattern : String} {e : Expr} (h : parse pattern = .ok e) :
    pattern.toList.head? ≠ some '?' := by
  obtain ⟨hlexes, hcanonical⟩ := parse_eq_ok_iff_canonical.mp h
  exact hlexes.head?_ne (legible_tokens e hcanonical.shape)

/-! ## Trees with other numbers -/

section

variable {f : Nat → Nat}

@[simp] theorem isAtom_renumber (e : Expr) : (e.renumber f).isAtom = e.isAtom := by
  cases e <;> rfl

@[simp] theorem isFactor_renumber (e : Expr) : (e.renumber f).isFactor = e.isFactor := by
  cases e <;> rfl

@[simp] theorem isChoice_renumber (e : Expr) : (e.renumber f).isChoice = e.isChoice := by
  cases e <;> rfl

@[simp] theorem isBlank_renumber (e : Expr) : (e.renumber f).isBlank = e.isBlank := by
  rcases e with _ | ⟨_ | _⟩ | _ | _ | _ <;> rfl

theorem allTokens_renumberAll {parts : List Expr}
    (ih : ∀ e ∈ parts, (e.renumber f).tokens = e.tokens) :
    allTokens (renumberAll f parts) = allTokens parts := by
  induction parts with
  | nil => rfl
  | cons e es ihes =>
    rw [renumberAll, allTokens, allTokens, ih e List.mem_cons_self,
      ihes fun e he => ih e (List.mem_cons_of_mem _ he)]

/-- The numbers of groups are not written. -/
@[simp] theorem tokens_renumber (e : Expr) : (e.renumber f).tokens = e.tokens := by
  induction e with
  | literal c => rfl
  | concat parts ih => exact allTokens_renumberAll ih
  | alternation first second ih₁ ih₂ => rw [renumber, tokens, tokens, ih₁, ih₂]
  | repetition q greedy body ih => cases greedy <;> rw [renumber, tokens, tokens, ih]
  | group capture body ih => rw [renumber, tokens, tokens, ih, Option.isSome_map]

theorem allCanonical_renumberAll {parts : List Expr}
    (ih : ∀ e ∈ parts, (e.renumber f).canonical = e.canonical) :
    allCanonical (renumberAll f parts) = allCanonical parts := by
  induction parts with
  | nil => rfl
  | cons e es ihes =>
    rw [renumberAll, allCanonical, allCanonical, ih e List.mem_cons_self, isFactor_renumber,
      ihes fun e he => ih e (List.mem_cons_of_mem _ he)]

/-- Nor do they matter to the shape. -/
@[simp] theorem canonical_renumber (e : Expr) : (e.renumber f).canonical = e.canonical := by
  induction e with
  | literal c => rfl
  | concat parts ih =>
    rw [renumber, canonical, canonical, allCanonical_renumberAll ih, renumberAll_eq_map,
      List.length_map]
  | alternation first second ih₁ ih₂ => simp [renumber, canonical, ih₁, ih₂]
  | repetition q greedy body ih => simp [renumber, canonical, ih]
  | group capture body ih => exact ih

end

/-! ## Factors and alternatives -/

/-- The factors of a term. -/
def factors : Expr → List Expr
  | concat parts => parts
  | e => [e]

/-- The alternatives of an expression. -/
def alternatives : Expr → List Expr
  | alternation first second => first :: second.alternatives
  | e => [e]

/-- The expression with these alternatives, which nests to the right. -/
def ofAlternatives : List Expr → Expr
  | [] => concat []
  | [e] => e
  | e :: es => alternation e (ofAlternatives es)

theorem factors_renumber (f : Nat → Nat) (e : Expr) :
    (e.renumber f).factors = e.factors.map (renumber f) := by
  cases e with
  | concat parts => exact renumberAll_eq_map parts
  | literal | alternation | repetition | group => rfl

theorem alternatives_renumber (f : Nat → Nat) (e : Expr) :
    (e.renumber f).alternatives = e.alternatives.map (renumber f) := by
  induction e with
  | alternation first second _ ih => rw [renumber, alternatives, alternatives, ih, List.map_cons]
  | literal | concat | repetition | group => rfl

theorem alternatives_of_not_isChoice {e : Expr} (h : e.isChoice = false) :
    e.alternatives = [e] := by
  cases e with
  | alternation => cases h
  | literal | concat | repetition | group => rfl

theorem alternatives_ne_nil (e : Expr) : e.alternatives ≠ [] := by
  cases e <;> exact List.cons_ne_nil _ _

theorem ofAlternatives_cons (e : Expr) {es : List Expr} (h : es ≠ []) :
    ofAlternatives (e :: es) = alternation e (ofAlternatives es) := by
  obtain ⟨f, es, rfl⟩ := List.exists_cons_of_ne_nil h
  rfl

theorem ofAlternatives_alternatives (e : Expr) : ofAlternatives e.alternatives = e := by
  induction e with
  | alternation first second _ ih =>
    rw [alternatives, ofAlternatives_cons _ second.alternatives_ne_nil, ih]
  | literal | concat | repetition | group => rfl

end Expr

namespace Grammar

theorem factors_ofFactors {ts : List Token} {es : List Expr} (h : Term ts es) :
    (ofFactors es).factors = es := by
  obtain ⟨hall, -⟩ := h.canonical
  unfold ofFactors
  split
  · rename_i e
    rw [Expr.allCanonical, Bool.and_eq_true, Bool.and_eq_true] at hall
    have hfactor := hall.1.2
    cases e with
    | concat => cases hfactor
    | literal | alternation | repetition | group => rfl
  · rfl

/-- Other than an alternation, an expression is a term of its factors. -/
theorem Expression.factors {ts : List Token} {e : Expr} (h : Expression ts e)
    (hchoice : e.isChoice = false) : Term ts e.factors ∧ ofFactors e.factors = e := by
  cases h with
  | term h =>
    rw [factors_ofFactors h]
    exact ⟨h, rfl⟩
  | choice => cases hchoice

/-- Alternatives in front of others. -/
theorem Alternatives.append {ts us : List Token} {e f : Expr} :
    Alternatives ts e → Alternatives us f →
      Alternatives (ts ++ .bar :: us) (Expr.ofAlternatives (e.alternatives ++ f.alternatives))
  | .last h hne, h' => by
    obtain ⟨hall, -⟩ := h.canonical
    rw [Expr.alternatives_of_not_isChoice (canonical_ofFactors hall).2.1, List.singleton_append,
      Expr.ofAlternatives_cons _ f.alternatives_ne_nil, Expr.ofAlternatives_alternatives]
    exact .more h hne h'
  | .more (e := second) h hne hmore, h' => by
    have hne' : second.alternatives ++ f.alternatives ≠ [] := by
      simp [second.alternatives_ne_nil]
    rw [Expr.alternatives, List.cons_append, Expr.ofAlternatives_cons _ hne', List.append_assoc]
    exact .more h hne (hmore.append h')

end Grammar

namespace Expr

theorem nestings_append (es fs : List Expr) :
    nestings (es ++ fs) = max (nestings es) (nestings fs) := by
  induction es with
  | nil => rw [List.nil_append, nestings, Nat.zero_max]
  | cons e es ih => rw [List.cons_append, nestings, nestings, ih, Nat.max_assoc]

theorem indices_ofAlternatives (es : List Expr) :
    (ofAlternatives es).indices = es.flatMap indices := by
  fun_induction ofAlternatives es with
  | case1 => rfl
  | case2 e => simp
  | case3 e es _ ih => rw [indices_alternation, ih, List.flatMap_cons]

theorem nesting_ofAlternatives (es : List Expr) : (ofAlternatives es).nesting = nestings es := by
  fun_induction ofAlternatives es with
  | case1 => rfl
  | case2 e => simp [nestings]
  | case3 e es _ ih => rw [nesting, ih, nestings]

/-! ## Joined patterns -/

variable {p q : String} {e f : Expr}

/-- Only the empty pattern stands for the empty term. -/
theorem not_isBlank_of_parse (h : parse p = .ok e) (hne : p ≠ "") : e.isBlank = false := by
  obtain ⟨hlexes, -⟩ := parse_eq_ok_iff_canonical.mp h
  have hcs : p.toList ≠ [] := by simpa using hne
  obtain ⟨text, rest, hsplit, htile⟩ := exists_tile hcs
  have hread : readings p.toList = e.tokens.map .ok := hlexes
  rw [hsplit, readings_of_tile htile] at hread
  rcases e with _ | ⟨_ | _⟩ | _ | _ | _
  · rfl
  · cases hread
  all_goals rfl

/-- A pattern whose tokens derive the parts of two trees together, with the groups of the second one
numbered on, stands for all of the parts. -/
theorem parse_of_joined {pattern : String} {tokens : List Token} {build : List Expr → Expr}
    {es fs : List Expr} (hp : parse p = .ok e) (hq : parse q = .ok f)
    (hindices : ∀ parts, (build parts).indices = parts.flatMap indices)
    (hnesting : ∀ parts, (build parts).nesting = nestings parts) (hes : build es = e)
    (hfs : build fs = f.shift e.captureCount) (hlexes : Lexes pattern tokens)
    (hderives : Expression tokens (build (es ++ fs))) : parse pattern = .ok (build (es ++ fs)) := by
  obtain ⟨-, -, henesting, henumbered⟩ := parse_eq_ok_iff_canonical.mp hp
  obtain ⟨-, -, hfnesting, hfnumbered⟩ := parse_eq_ok_iff_canonical.mp hq
  have hall : (build (es ++ fs)).indices = List.range' 1 (e.captureCount + f.captureCount) := by
    rw [hindices, List.flatMap_append, ← hindices, ← hindices, hes, hfs, henumbered,
      indices_shift hfnumbered, Nat.add_comm _ 1, List.range'_append_1]
  apply parse_of_derives hlexes hderives
  · rw [hnesting, nestings_append, ← hnesting, ← hnesting, hes, hfs, nesting_shift]
    exact Nat.max_le.mpr ⟨henesting, hfnesting⟩
  · rw [hall, List.length_range']

/-- **Joining**: two patterns one behind the other stand for the factors of both, and with a bar in
between for the alternatives of both. The groups of the second one are numbered on from those of the
first one. -/
theorem parse_join (hp : parse p = .ok e) (hq : parse q = .ok f) :
    (e.isChoice = false → f.isChoice = false → parse (p ++ q) =
      .ok (ofFactors (e.factors ++ f.factors.map (shift e.captureCount)))) ∧
    (p ≠ "" → q ≠ "" → parse (p ++ "|" ++ q) =
      .ok (ofAlternatives (e.alternatives ++ f.alternatives.map (shift e.captureCount)))) := by
  obtain ⟨helexes, hecanonical⟩ := parse_eq_ok_iff_canonical.mp hp
  obtain ⟨hflexes, hfcanonical⟩ := parse_eq_ok_iff_canonical.mp hq
  have hbegins := head?_ne_of_parse hq
  have hederives := derivable_of_canonical e hecanonical.shape
  have hfderives := derivable_of_canonical (f.shift e.captureCount)
    ((canonical_renumber f).trans hfcanonical.shape)
  have htokens : (f.shift e.captureCount).tokens = f.tokens := tokens_renumber f
  have hfactors : (f.shift e.captureCount).factors = f.factors.map (shift e.captureCount) :=
    factors_renumber _ f
  have halternatives : (f.shift e.captureCount).alternatives =
      f.alternatives.map (shift e.captureCount) := alternatives_renumber _ f
  constructor
  · intro hechoice hfchoice
    obtain ⟨heterm, hees⟩ := hederives.expression.factors hechoice
    obtain ⟨hfterm, hffs⟩ := hfderives.expression.factors ((isChoice_renumber f).trans hfchoice)
    rw [htokens] at hfterm
    rw [← hfactors]
    exact parse_of_joined hp hq indices_ofFactors nesting_ofFactors hees hffs
      (helexes.append hflexes hbegins) (.term (heterm.append hfterm))
  · intro hpne hqne
    have healternatives := hederives.alternatives (not_isBlank_of_parse hp hpne)
    have hfalternatives := hfderives.alternatives
      ((isBlank_renumber f).trans (not_isBlank_of_parse hq hqne))
    rw [htokens] at hfalternatives
    rw [← halternatives, String.append_assoc]
    refine parse_of_joined hp hq indices_ofAlternatives nesting_ofAlternatives
      (ofAlternatives_alternatives e) (ofAlternatives_alternatives _)
      (helexes.append (lexes_bar.append hflexes hbegins) ?_)
      (healternatives.append hfalternatives).expression
    rw [String.toList_append]
    simp

/-- The three groups of both patterns together. -/
theorem parse_join_groups :
    let e := concat [literal '(', group (some 1) (literal 'a')]
    let loop (first second : Nat) : Expr := repetition .star false
      (group (some first) (alternation (group (some second) (literal 'b')) (literal 'c')))
    parse "\\((a)" = .ok e ∧ parse "((b)|c)*?" = .ok (loop 1 2) ∧
    parse "\\((a)((b)|c)*?" = .ok (concat [literal '(', group (some 1) (literal 'a'), loop 2 3]) ∧
    parse "\\((a)|((b)|c)*?" = .ok (alternation e (loop 2 3)) := by
  intro e loop
  have hp : parse "\\((a)" = .ok e := parse_eq_ok_iff_canonical.mpr ⟨rfl, by decide⟩
  have hq : parse "((b)|c)*?" = .ok (loop 1 2) := parse_eq_ok_iff_canonical.mpr ⟨rfl, by decide⟩
  obtain ⟨hbehind, hbeside⟩ := parse_join hp hq
  exact ⟨hp, hq, hbehind rfl rfl, hbeside (by decide) (by decide)⟩

end Expr

end RegexMachine
