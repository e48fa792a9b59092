import RegexMachine.Proofs.Pattern.Grammar

/-!
# The shape of parsed expressions

A tree may have more shapes than patterns can write. The **canonical** ones are those that the
grammar derives: a term of one factor is that factor, no term stands directly in another one,
alternations nest to the right and none of their terms is empty, and a quantifier applies to a
character or a group.

A canonical tree is derived from one list of tokens (`Expr.tokens`), which can be read off the tree:

* **shape** — whatever is derived is canonical, and derived from its own tokens;
* **derivation** — the tokens of a canonical tree derive it.

`Grammar.expression_iff` says both.
-/

namespace RegexMachine

namespace Expr

/-- A character or a group, which a quantifier can apply to. -/
def isAtom : Expr → Bool
  | literal _ | group _ _ => true
  | _ => false

/-- A character, a group or a repetition, which can be a part of a concatenation. -/
def isFactor : Expr → Bool
  | literal _ | group _ _ | repetition _ _ _ => true
  | _ => false

/-- An alternation. -/
def isChoice : Expr → Bool
  | alternation _ _ => true
  | _ => false

/-- The concatenation of no parts. -/
def isBlank : Expr → Bool
  | concat [] => true
  | _ => false

mutual

/-- The tree has the shape that the grammar gives it. -/
def canonical : Expr → Bool
  | literal _ => true
  | concat parts => parts.length != 1 && allCanonical parts
  | alternation first second =>
    first.canonical && !first.isChoice && !first.isBlank && second.canonical && !second.isBlank
  | repetition _ _ body => body.canonical && body.isAtom
  | group _ body => body.canonical

/-- All of the trees can be parts of a concatenation, and have the shape that the grammar gives
them. -/
def allCanonical : List Expr → Bool
  | [] => true
  | e :: es => e.canonical && e.isFactor && allCanonical es

end

mutual

/-- The tokens that a canonical tree is written with. -/
def tokens : Expr → List Token
  | literal c => [.character c]
  | concat parts => allTokens parts
  | alternation first second => first.tokens ++ .bar :: second.tokens
  | repetition q true body => body.tokens ++ [.quantifier q]
  | repetition q false body => body.tokens ++ [.quantifier q, .quantifier .question]
  | group capture body => .openGroup capture.isSome :: (body.tokens ++ [.closeGroup])

/-- The tokens of trees one after the other. -/
def allTokens : List Expr → List Token
  | [] => []
  | e :: es => e.tokens ++ allTokens es

end

theorem isFactor_of_isAtom {e : Expr} (h : e.isAtom = true) : e.isFactor = true := by
  cases e <;> trivial

theorem not_isChoice_of_isFactor {e : Expr} (h : e.isFactor = true) : e.isChoice = false := by
  cases e with
  | alternation => cases h
  | literal | concat | repetition | group => rfl

theorem not_isBlank_of_isFactor {e : Expr} (h : e.isFactor = true) : e.isBlank = false := by
  cases e with
  | concat => cases h
  | literal | alternation | repetition | group => rfl

end Expr

namespace Grammar

open RegexMachine.Expr (canonical allCanonical tokens allTokens isAtom isFactor isChoice isBlank)

/-! ## Terms -/

theorem tokens_ofFactors (es : List Expr) : (ofFactors es).tokens = allTokens es := by
  unfold ofFactors
  split
  · rw [allTokens, allTokens, List.append_nil]
  · rw [tokens]

theorem canonical_ofFactors {es : List Expr} (h : allCanonical es = true) :
    (ofFactors es).canonical = true ∧ (ofFactors es).isChoice = false ∧
      (es ≠ [] → (ofFactors es).isBlank = false) := by
  unfold ofFactors
  split
  · rename_i e
    rw [allCanonical, Bool.and_eq_true, Bool.and_eq_true] at h
    exact ⟨h.1.1, Expr.not_isChoice_of_isFactor h.1.2, fun _ => Expr.not_isBlank_of_isFactor h.1.2⟩
  · rename_i hone
    refine ⟨?_, rfl, fun hne => ?_⟩
    · rw [canonical, h, Bool.and_true, bne_iff_ne]
      intro hlength
      obtain ⟨e, rfl⟩ := List.length_eq_one_iff.mp hlength
      exact hone e rfl
    · obtain ⟨e, es, rfl⟩ := List.exists_cons_of_ne_nil hne
      rfl

theorem canonical_choice {es : List Expr} {e : Expr} (hall : allCanonical es = true) (hne : es ≠ [])
    (hsecond : e.canonical = true) (hblank : e.isBlank = false) :
    (Expr.alternation (ofFactors es) e).canonical = true := by
  obtain ⟨hfirst, hchoice, hfirstBlank⟩ := canonical_ofFactors hall
  rw [canonical, hfirst, hchoice, hfirstBlank hne, hsecond, hblank]
  rfl

theorem tokens_choice (es : List Expr) (e : Expr) :
    (Expr.alternation (ofFactors es) e).tokens = allTokens es ++ .bar :: e.tokens := by
  rw [tokens, tokens_ofFactors]

/-! ## What is derived is canonical -/

mutual

theorem Expression.canonical {ts : List Token} {e : Expr} :
    Expression ts e → e.canonical = true ∧ e.tokens = ts
  | .term h => by
    obtain ⟨hall, rfl⟩ := h.canonical
    exact ⟨(canonical_ofFactors hall).1, tokens_ofFactors _⟩
  | .choice h hne h' => by
    obtain ⟨hall, rfl⟩ := h.canonical
    obtain ⟨hsecond, hblank, rfl⟩ := h'.canonical
    exact ⟨canonical_choice hall hne hsecond hblank, tokens_choice _ _⟩

theorem Alternatives.canonical {ts : List Token} {e : Expr} :
    Alternatives ts e → e.canonical = true ∧ e.isBlank = false ∧ e.tokens = ts
  | .last h hne => by
    obtain ⟨hall, rfl⟩ := h.canonical
    obtain ⟨hterm, -, hblank⟩ := canonical_ofFactors hall
    exact ⟨hterm, hblank hne, tokens_ofFactors _⟩
  | .more h hne h' => by
    obtain ⟨hall, rfl⟩ := h.canonical
    obtain ⟨hsecond, hblank, rfl⟩ := h'.canonical
    exact ⟨canonical_choice hall hne hsecond hblank, rfl, tokens_choice _ _⟩

theorem Term.canonical {ts : List Token} {es : List Expr} :
    Term ts es → allCanonical es = true ∧ allTokens es = ts
  | .nil => ⟨rfl, rfl⟩
  | .cons h h' => by
    obtain ⟨hfactor, hshape, rfl⟩ := h.canonical
    obtain ⟨hall, rfl⟩ := h'.canonical
    refine ⟨?_, by rw [allTokens]⟩
    rw [allCanonical, hfactor, hshape, hall]
    rfl

theorem Factor.canonical {ts : List Token} {e : Expr} :
    Factor ts e → e.canonical = true ∧ e.isFactor = true ∧ e.tokens = ts
  | .atom h => by
    obtain ⟨hatom, hshape, rfl⟩ := h.canonical
    exact ⟨hatom, Expr.isFactor_of_isAtom hshape, rfl⟩
  | .greedy h q => by
    obtain ⟨hatom, hshape, rfl⟩ := h.canonical
    refine ⟨?_, rfl, rfl⟩
    rw [Expr.canonical, hatom, hshape]
    rfl
  | .lazy h q => by
    obtain ⟨hatom, hshape, rfl⟩ := h.canonical
    refine ⟨?_, rfl, rfl⟩
    rw [Expr.canonical, hatom, hshape]
    rfl

theorem Atom.canonical {ts : List Token} {e : Expr} :
    Atom ts e → e.canonical = true ∧ e.isAtom = true ∧ e.tokens = ts
  | .character c => ⟨rfl, rfl, rfl⟩
  | .group capture h => by
    obtain ⟨hbody, rfl⟩ := h.canonical
    exact ⟨hbody, rfl, rfl⟩

end

/-! ## What is canonical is derived -/

/-- The symbols of the grammar from which the tokens of a tree derive it. -/
structure Derivable (e : Expr) : Prop where
  /-- an atom, if it is one -/
  atom : e.isAtom = true → Atom e.tokens e
  /-- a factor, if it is one -/
  factor : e.isFactor = true → Factor e.tokens e
  /-- a term, unless it is an alternation -/
  term : e.isChoice = false → ∃ es, Term e.tokens es ∧ ofFactors es = e ∧
    (e.isBlank = false → es ≠ [])
  /-- what stands behind a bar, unless it is blank -/
  alternatives : e.isBlank = false → Alternatives e.tokens e

namespace Derivable

variable {e : Expr}

theorem of_factor (hatom : e.isAtom = true → Atom e.tokens e) (h : Factor e.tokens e) :
    Derivable e where
  atom := hatom
  factor _ := h
  term _ := ⟨[e], h.term, rfl, fun _ => List.cons_ne_nil e []⟩
  alternatives _ := .last h.term (List.cons_ne_nil e [])

theorem of_atom (h : Atom e.tokens e) : Derivable e :=
  of_factor (fun _ => h) (.atom h)

/-- A tree is an alternation or a term. -/
theorem expression (h : Derivable e) : Expression e.tokens e := by
  cases hchoice : e.isChoice with
  | true =>
    have hblank : e.isBlank = false := by
      cases e with
      | concat => cases hchoice
      | literal | alternation | repetition | group => rfl
    exact (h.alternatives hblank).expression
  | false =>
    obtain ⟨es, hterm, hes, -⟩ := h.term hchoice
    have hexpression := Expression.term hterm
    rwa [hes] at hexpression

end Derivable

theorem term_allTokens {parts : List Expr}
    (ih : ∀ e ∈ parts, e.canonical = true → Derivable e) (h : allCanonical parts = true) :
    Term (allTokens parts) parts := by
  induction parts with
  | nil => exact .nil
  | cons e es ihes =>
    rw [allCanonical, Bool.and_eq_true, Bool.and_eq_true] at h
    obtain ⟨⟨hshape, hfactor⟩, hall⟩ := h
    have hfirst := (ih e List.mem_cons_self hshape).factor hfactor
    exact .cons hfirst (ihes (fun e he => ih e (List.mem_cons_of_mem _ he)) hall)

theorem derivable_of_canonical (e : Expr) (h : e.canonical = true) : Derivable e := by
  induction e with
  | literal c => exact .of_atom (.character c)
  | concat parts ih =>
    rw [canonical, Bool.and_eq_true, bne_iff_ne] at h
    obtain ⟨hlength, hall⟩ := h
    have hterm := term_allTokens ih hall
    have hparts : ofFactors parts = .concat parts := by
      unfold ofFactors
      split
      · exact absurd rfl hlength
      · rfl
    have hne : (Expr.concat parts).isBlank = false → parts ≠ [] := by
      rintro hblank rfl
      cases hblank
    exact
      { atom := fun hatom => by cases hatom
        factor := fun hfactor => by cases hfactor
        term := fun _ => ⟨parts, hterm, hparts, hne⟩
        alternatives := fun hblank => by
          have hlast := Alternatives.last hterm (hne hblank)
          rwa [hparts] at hlast }
  | alternation first second ih₁ ih₂ =>
    simp only [canonical, Bool.and_eq_true, Bool.not_eq_true'] at h
    obtain ⟨⟨⟨⟨hfirst, hchoice⟩, hblank₁⟩, hsecond⟩, hblank₂⟩ := h
    obtain ⟨es, hterm, rfl, hne⟩ := (ih₁ hfirst).term hchoice
    have hmore := Alternatives.more hterm (hne hblank₁) ((ih₂ hsecond).alternatives hblank₂)
    exact
      { atom := fun hatom => by cases hatom
        factor := fun hfactor => by cases hfactor
        term := fun hno => by cases hno
        alternatives := fun _ => hmore }
  | repetition q greedy body ih =>
    rw [canonical, Bool.and_eq_true] at h
    have hbody := (ih h.1).atom h.2
    refine .of_factor (fun hatom => by cases hatom) ?_
    cases greedy with
    | true => exact .greedy hbody q
    | false => exact .lazy hbody q
  | group capture body ih =>
    rw [canonical] at h
    exact .of_atom (.group capture (ih h).expression)

/-- **Shape**: a list of tokens derives a tree exactly if the tree is canonical and the tokens are
its own. -/
theorem expression_iff {ts : List Token} {e : Expr} :
    Expression ts e ↔ e.canonical = true ∧ e.tokens = ts := by
  constructor
  · exact Expression.canonical
  · rintro ⟨h, rfl⟩
    exact (derivable_of_canonical e h).expression

end Grammar

end RegexMachine
