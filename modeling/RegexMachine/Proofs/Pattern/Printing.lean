import RegexMachine.Proofs.Pattern.Acceptance
import RegexMachine.Proofs.Pattern.Canonical

/-!
# Printing expressions

`Expr.print` writes a tree as a pattern: ASCII punctuation with a backslash, any other character as
it is, and parentheses only where the tree has a group.

The tokens of a canonical tree are **legible**: whatever is written behind them, they are read back
one by one. Only an opening parenthesis looks ahead, for a `?`, and no expression begins with one.
So the parser gives a printed tree back if it is canonical, its groups are numbered and they do not
nest too deep, and every tree that the parser makes is like that.
-/

namespace RegexMachine

open Grammar (expression_iff)

/-! ## Spelling -/

/-- The characters that a token is written with. -/
def Token.spell : Token → List Char
  | character c => if isAsciiPunctuation c then ['\\', c] else [c]
  | bar => ['|']
  | quantifier q => [q.symbol]
  | openGroup true => ['(']
  | openGroup false => ['(', '?', ':']
  | closeGroup => [')']
  | finish => []

/-- The characters that tokens are written with, one after the other. -/
def spell (ts : List Token) : List Char := ts.flatMap Token.spell

/-- The pattern that a tree is written as. -/
def Expr.print (e : Expr) : String := String.ofList (spell e.tokens)

@[simp] theorem spell_nil : spell [] = [] := rfl

@[simp] theorem spell_cons (t : Token) (ts : List Token) : spell (t :: ts) = t.spell ++ spell ts :=
  List.flatMap_cons

@[simp] theorem spell_append (ts us : List Token) : spell (ts ++ us) = spell ts ++ spell us :=
  List.flatMap_append

/-! ## Blocks -/

/-- What the blocks of a text read as. -/
def readings (cs : List Char) : List (Except Fault Token) := (blocks 0 cs).map Block.reading

/-- It does not depend on where the text stands. -/
theorem map_reading_blocks (offset other : Nat) (cs : List Char) :
    (blocks offset cs).map Block.reading = (blocks other cs).map Block.reading := by
  induction offset, cs using blocks.induct generalizing other with
  | case1 offset => simp only [blocks, List.map_nil]
  | case2 offset => simp only [blocks, List.map_cons, List.map_nil]
  | case3 offset c rest ih => rw [blocks, blocks, List.map_cons, List.map_cons, ih]
  | case4 offset => simp only [blocks, List.map_cons, List.map_nil]
  | case5 offset c rest ih => rw [blocks, blocks, List.map_cons, List.map_cons, ih]
  | case6 offset c rest hlast hescape hopen hgroup ih =>
    rw [blocks.eq_6 offset c rest hlast hescape hopen hgroup,
      blocks.eq_6 other c rest hlast hescape hopen hgroup, List.map_cons, List.map_cons, ih]

theorem readings_nil : readings [] = [] := by
  rw [readings, blocks, List.map_nil]

theorem readings_escape (c : Char) (rest : List Char) :
    readings ('\\' :: c :: rest) = readEscape c :: readings rest := by
  rw [readings, blocks, List.map_cons, map_reading_blocks _ 0, readings]

theorem readings_plainGroup (rest : List Char) :
    readings ('(' :: '?' :: ':' :: rest) = .ok (.openGroup false) :: readings rest := by
  rw [readings, blocks, List.map_cons, map_reading_blocks _ 0, readings]
  rfl

/-- A character alone. The two that begin longer blocks are a backslash, and a parenthesis before a
question mark. -/
theorem readings_char {c : Char} {rest : List Char} (hescape : c ≠ '\\')
    (hopen : c = '(' → rest.head? ≠ some '?') :
    readings (c :: rest) = .ok (.ofChar c) :: readings rest := by
  have hlast : c = '\\' → rest = [] → False := fun hc => absurd hc hescape
  have hpair : ∀ d more, c = '\\' → rest = d :: more → False := fun _ _ hc => absurd hc hescape
  have hshort : c = '(' → rest = ['?'] → False := by
    rintro hc rfl
    exact hopen hc rfl
  have hgroup : ∀ d more, c = '(' → rest = '?' :: d :: more → False := by
    rintro d more hc rfl
    exact hopen hc rfl
  rw [readings, blocks.eq_6 0 c rest hlast hpair hshort hgroup, List.map_cons,
    map_reading_blocks _ 0, readings]

theorem readEscape_of_punctuation {c : Char} (h : isAsciiPunctuation c = true) :
    readEscape c = .ok (.character c) := by
  unfold readEscape
  split
  · exact absurd h (by decide)
  · exact absurd h (by decide)
  · exact absurd h (by decide)
  · exact absurd h (by decide)
  · exact if_pos h

/-- All marks are punctuation. -/
theorem ofChar_of_not_punctuation {c : Char} (h : isAsciiPunctuation c = false) :
    Token.ofChar c = .character c := by
  unfold Token.ofChar
  split
  · exact absurd h (by decide)
  · exact absurd h (by decide)
  · exact absurd h (by decide)
  · exact absurd h (by decide)
  · exact absurd h (by decide)
  · exact absurd h (by decide)
  · rfl

/-! ## Legible tokens -/

/-- The tokens are read back, whatever is written behind them. -/
def Reads (ts : List Token) : Prop :=
  ∀ rest, readings (spell ts ++ rest) = ts.map .ok ++ readings rest

theorem Reads.append {ts us : List Token} (h : Reads ts) (h' : Reads us) : Reads (ts ++ us) := by
  intro rest
  rw [spell_append, List.append_assoc, h, h', List.map_append, List.append_assoc]

theorem reads_character (c : Char) : Reads [.character c] := by
  intro rest
  rw [spell_cons, spell_nil, List.append_nil, Token.spell]
  split_ifs with hc
  · rw [List.cons_append, List.cons_append, List.nil_append, readings_escape,
      readEscape_of_punctuation hc]
    rfl
  · rw [Bool.not_eq_true] at hc
    have hescape : c ≠ '\\' := by
      rintro rfl
      exact absurd hc (by decide)
    have hopen : c ≠ '(' := by
      rintro rfl
      exact absurd hc (by decide)
    rw [List.cons_append, List.nil_append, readings_char hescape fun heq => absurd heq hopen,
      ofChar_of_not_punctuation hc]
    rfl

theorem reads_bar : Reads [.bar] :=
  fun _ => readings_char (by decide) fun heq => absurd heq (by decide)

theorem reads_closeGroup : Reads [.closeGroup] :=
  fun _ => readings_char (by decide) fun heq => absurd heq (by decide)

theorem reads_quantifier (q : Quantifier) : Reads [.quantifier q] := by
  intro rest
  cases q with
  | star => exact readings_char (by decide) fun heq => absurd heq (by decide)
  | plus => exact readings_char (by decide) fun heq => absurd heq (by decide)
  | question => exact readings_char (by decide) fun heq => absurd heq (by decide)

/-- The tokens are read back, also behind an opening parenthesis. -/
structure Legible (ts : List Token) : Prop where
  /-- they are read back -/
  reads : Reads ts
  /-- they do not begin with a question mark -/
  begins : (spell ts).head? ≠ some '?'

namespace Legible

variable {ts us : List Token}

theorem nil : Legible [] := ⟨fun _ => rfl, by simp⟩

theorem append (h : Legible ts) (h' : Legible us) : Legible (ts ++ us) where
  reads := h.reads.append h'.reads
  begins := by
    rw [spell_append, List.head?_append]
    cases hhead : (spell ts).head? with
    | none => exact h'.begins
    | some c =>
      have hbegins := h.begins
      rwa [hhead] at hbegins

/-- Whatever is written behind them, it does not come first. -/
theorem head?_ne (h : Legible ts) (hne : spell ts ≠ []) (rest : List Char) :
    (spell ts ++ rest).head? ≠ some '?' := by
  obtain ⟨c, cs, hspell⟩ := List.exists_cons_of_ne_nil hne
  have hbegins := h.begins
  rw [hspell] at hbegins ⊢
  exact hbegins

theorem append_reads (h : Legible ts) (hne : spell ts ≠ []) (h' : Reads us) :
    Legible (ts ++ us) where
  reads := h.reads.append h'
  begins := by
    rw [spell_append]
    exact h.head?_ne hne (spell us)

theorem character (c : Char) : Legible [.character c] where
  reads := reads_character c
  begins := by
    rw [spell_cons, spell_nil, List.append_nil, Token.spell]
    split_ifs with hc
    · simp
    · rintro heq
      obtain rfl : c = '?' := by simpa using heq
      exact hc (by decide)

theorem bar : Legible [.bar] := ⟨reads_bar, by decide⟩

theorem closeGroup : Legible [.closeGroup] := ⟨reads_closeGroup, by decide⟩

/-- An opening parenthesis looks ahead at what is written behind it. -/
theorem group (captures : Bool) (h : Legible ts) :
    Legible (.openGroup captures :: (ts ++ [.closeGroup])) where
  reads := by
    intro rest
    have hinner := h.append closeGroup
    have hne : spell (ts ++ [.closeGroup]) ≠ [] := by simp [Token.spell]
    rw [spell_cons, List.append_assoc, List.map_cons, List.cons_append, ← hinner.reads rest]
    cases captures with
    | true => exact readings_char (by decide) fun _ => hinner.head?_ne hne rest
    | false => exact readings_plainGroup _
  begins := by cases captures <;> simp [Token.spell]

end Legible

namespace Expr

theorem legible_allTokens {parts : List Expr}
    (ih : ∀ e ∈ parts, e.canonical = true → Legible e.tokens) (h : allCanonical parts = true) :
    Legible (allTokens parts) := by
  induction parts with
  | nil => exact .nil
  | cons e es ihes =>
    rw [allCanonical, Bool.and_eq_true, Bool.and_eq_true] at h
    obtain ⟨⟨hshape, -⟩, hall⟩ := h
    rw [allTokens]
    exact (ih e List.mem_cons_self hshape).append
      (ihes (fun e he => ih e (List.mem_cons_of_mem _ he)) hall)

theorem spell_atom_ne_nil {e : Expr} (h : e.isAtom = true) : spell e.tokens ≠ [] := by
  cases e with
  | literal c =>
    rw [tokens, spell_cons, Token.spell]
    split_ifs <;> simp
  | group capture body => cases capture <;> simp [tokens, Token.spell]
  | concat | alternation | repetition => cases h

/-- **Legibility**: a canonical tree is written with tokens that are read back. -/
theorem legible_tokens (e : Expr) (h : e.canonical = true) : Legible e.tokens := by
  induction e with
  | literal c => exact .character c
  | concat parts ih =>
    rw [canonical, Bool.and_eq_true] at h
    exact legible_allTokens ih h.2
  | alternation first second ih₁ ih₂ =>
    simp only [canonical, Bool.and_eq_true] at h
    obtain ⟨⟨⟨⟨hfirst, -⟩, -⟩, hsecond⟩, -⟩ := h
    exact (ih₁ hfirst).append (Legible.bar.append (ih₂ hsecond))
  | repetition q greedy body ih =>
    rw [canonical, Bool.and_eq_true] at h
    have hbody := ih h.1
    have hne := spell_atom_ne_nil h.2
    cases greedy with
    | true => exact hbody.append_reads hne (reads_quantifier q)
    | false =>
      exact hbody.append_reads hne ((reads_quantifier q).append (reads_quantifier .question))
  | group capture body ih =>
    rw [canonical] at h
    exact .group capture.isSome (ih h)

theorem lexes_print {e : Expr} (h : e.canonical = true) : Lexes e.print e.tokens := by
  have hreads := (legible_tokens e h).reads []
  rw [List.append_nil, readings_nil, List.append_nil] at hreads
  rw [Lexes, print, String.toList_ofList]
  exact hreads

/-! ## Printing and parsing -/

/-- A tree as the parser makes it. -/
structure Canonical (e : Expr) : Prop where
  /-- it has the shape that the grammar gives it -/
  shape : e.canonical = true
  /-- its groups do not nest too deep -/
  nesting : e.nesting ≤ maxNesting
  /-- its capturing groups are numbered in the order of their opening parentheses -/
  numbered : e.indices = List.range' 1 e.captureCount

instance (e : Expr) : Decidable e.Canonical :=
  decidable_of_iff (e.canonical = true ∧ e.nesting ≤ maxNesting ∧
    e.indices = List.range' 1 e.captureCount)
    ⟨fun ⟨shape, nesting, numbered⟩ => ⟨shape, nesting, numbered⟩,
      fun ⟨shape, nesting, numbered⟩ => ⟨shape, nesting, numbered⟩⟩

/-- **Round trip**: every tree that the parser makes is canonical, and parsing what a canonical tree
is written as gives the tree back. -/
theorem canonical_parse_print :
    (∀ (pattern : String) (e : Expr), parse pattern = .ok e → e.Canonical) ∧
      ∀ e : Expr, e.Canonical → parse e.print = .ok e := by
  constructor
  · intro pattern e h
    obtain ⟨tokens, -, hderives, hnesting, -, hindices⟩ := derives_of_parse h
    exact ⟨(expression_iff.mp hderives).1, hnesting, hindices⟩
  · intro e h
    have hderives := expression_iff.mpr ⟨h.shape, rfl⟩
    have hindices := h.numbered
    rw [captureCount_eq_length] at hindices
    exact parse_of_derives (lexes_print h.shape) hderives h.nesting hindices

/-- Marks that stand for themselves, an empty group, a lazy repetition, groups of both kinds, and
characters that show as blanks. -/
theorem parse_print_groups :
    let e := alternation
      (concat [literal '\\', repetition .star false (group (some 1) (concat []))])
      (alternation
        (group none (alternation (literal '?') (repetition .plus true (literal '\u00a0'))))
        (group (some 2) (literal '\n')))
    e.print = "\\\\()*?|(?:\\?|\u00a0+)|(\n)" ∧ e.Canonical ∧ parse e.print = .ok e := by
  intro e
  have hcanonical : e.Canonical := by decide
  exact ⟨by decide, hcanonical, canonical_parse_print.2 e hcanonical⟩

end Expr

end RegexMachine
