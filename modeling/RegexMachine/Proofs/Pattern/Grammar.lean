import RegexMachine.Pattern.Parser
import RegexMachine.Proofs.Expr.Groups

/-!
# The grammar of patterns

What a pattern stands for, said without a parser: it falls into tokens (`Lexes`), and the tokens are
derived by a grammar, one relation for each of its symbols. The grammar has nothing to say about two
things that are properties of the whole tree, how groups are numbered and how deep they nest.
-/

namespace RegexMachine

/-- The pattern falls into blocks that read as these tokens. None of the blocks is at fault. -/
def Lexes (pattern : String) (tokens : List Token) : Prop :=
  (blocks 0 pattern.toList).map Block.reading = tokens.map .ok

namespace Grammar

/-- The expression of a term: a factor alone is that factor, anything else is a concatenation. -/
def ofFactors : List Expr → Expr
  | [e] => e
  | es => .concat es

mutual

/-- A term alone, or at least two of them with bars in between, of which none is empty. They nest to
the right. -/
inductive Expression : List Token → Expr → Prop where
  /-- `expr ::= term` -/
  | term {ts : List Token} {es : List Expr} (h : Term ts es) : Expression ts (ofFactors es)
  /-- `expr ::= term ("|" term)+` -/
  | choice {ts us : List Token} {es : List Expr} {e : Expr} (h : Term ts es) (hne : es ≠ [])
      (h' : Alternatives us e) : Expression (ts ++ .bar :: us) (.alternation (ofFactors es) e)

/-- Terms with bars in between, of which none is empty: what stands behind a bar. -/
inductive Alternatives : List Token → Expr → Prop where
  /-- the last one -/
  | last {ts : List Token} {es : List Expr} (h : Term ts es) (hne : es ≠ []) :
      Alternatives ts (ofFactors es)
  /-- one before others -/
  | more {ts us : List Token} {es : List Expr} {e : Expr} (h : Term ts es) (hne : es ≠ [])
      (h' : Alternatives us e) : Alternatives (ts ++ .bar :: us) (.alternation (ofFactors es) e)

/-- `term ::= factor*` -/
inductive Term : List Token → List Expr → Prop where
  /-- no factor -/
  | nil : Term [] []
  /-- a factor before others -/
  | cons {ts us : List Token} {e : Expr} {es : List Expr} (h : Factor ts e) (h' : Term us es) :
      Term (ts ++ us) (e :: es)

/-- An atom that may be repeated. As no atom begins with a quantifier, none follows a factor. -/
inductive Factor : List Token → Expr → Prop where
  /-- `factor ::= atom` -/
  | atom {ts : List Token} {e : Expr} (h : Atom ts e) : Factor ts e
  /-- `factor ::= atom q` -/
  | greedy {ts : List Token} {e : Expr} (h : Atom ts e) (q : Quantifier) :
      Factor (ts ++ [.quantifier q]) (.repetition q true e)
  /-- `factor ::= atom q "?"` -/
  | lazy {ts : List Token} {e : Expr} (h : Atom ts e) (q : Quantifier) :
      Factor (ts ++ [.quantifier q, .quantifier .question]) (.repetition q false e)

/-- A character or a group. -/
inductive Atom : List Token → Expr → Prop where
  /-- `atom ::= character` -/
  | character (c : Char) : Atom [.character c] (.literal c)
  /-- `atom ::= "(" expr ")"` where the group has a number, else `atom ::= "(?:" expr ")"` -/
  | group {ts : List Token} {e : Expr} (capture : Option Nat) (h : Expression ts e) :
      Atom (.openGroup capture.isSome :: (ts ++ [.closeGroup])) (.group capture e)

end

theorem Alternatives.expression {ts : List Token} {e : Expr} (h : Alternatives ts e) :
    Expression ts e := by
  cases h with
  | last h hne => exact .term h
  | more h hne h' => exact .choice h hne h'

theorem Term.append {ts us : List Token} {es fs : List Expr} (h : Term ts es) (h' : Term us fs) :
    Term (ts ++ us) (es ++ fs) := by
  induction es generalizing ts with
  | nil =>
    cases h
    exact h'
  | cons e es ih =>
    cases h with
    | cons he hes =>
      rw [List.append_assoc]
      exact .cons he (ih hes)

theorem Factor.term {ts : List Token} {e : Expr} (h : Factor ts e) : Term ts [e] := by
  simpa using Term.cons h .nil

/-! ## What a term is made of -/

@[simp] theorem indices_ofFactors (es : List Expr) :
    (ofFactors es).indices = es.flatMap Expr.indices := by
  unfold ofFactors
  split <;> simp

@[simp] theorem nesting_ofFactors (es : List Expr) : (ofFactors es).nesting = Expr.nestings es := by
  unfold ofFactors
  split <;> simp [Expr.nesting, Expr.nestings]

end Grammar

/-! ## Tokens -/

theorem ofChar_ne_finish (c : Char) : Token.ofChar c ≠ .finish := by
  unfold Token.ofChar
  split <;> simp

theorem readEscape_ne_finish (c : Char) : readEscape c ≠ .ok .finish := by
  unfold readEscape
  split
  all_goals try split
  all_goals simp

theorem readGroupKind_ne_finish (c : Char) : readGroupKind c ≠ .ok .finish := by
  unfold readGroupKind
  split <;> simp

/-- No block reads as the end of the pattern. -/
theorem reading_ne_finish (offset : Nat) (cs : List Char) :
    ∀ block ∈ blocks offset cs, block.reading ≠ .ok .finish := by
  induction offset, cs using blocks.induct with
  | case1 => simp [blocks]
  | case2 => simp [blocks]
  | case3 offset c rest ih => simpa [blocks, readEscape_ne_finish] using ih
  | case4 => simp [blocks]
  | case5 offset c rest ih => simpa [blocks, readGroupKind_ne_finish] using ih
  | case6 offset c rest hlast hescape hopen hgroup ih =>
    rw [blocks.eq_6 offset c rest hlast hescape hopen hgroup]
    simpa [ofChar_ne_finish] using ih

theorem map_reading_eq_iff {rest : List Block} (finish : Nat) (tokens : List Token)
    (h : ∀ block ∈ rest, block.reading ≠ .ok .finish) :
    rest.map Block.reading = tokens.map .ok ↔ Token.finish ∉ tokens ∧
      ((Lexer.mk rest finish).scans (tokens.length + 1)).map (·.map Prod.snd) =
        (tokens ++ [Token.finish]).map .ok := by
  induction rest generalizing tokens with
  | nil =>
    cases tokens with
    | nil => simp [Lexer.scans, Lexer.scan, Except.map]
    | cons token tokens => simp +contextual [Lexer.scans, Lexer.scan, Except.map]
  | cons block rest ih =>
    rw [List.forall_mem_cons] at h
    cases hreading : block.reading with
    | error fault => cases tokens <;> simp [Lexer.scans, Lexer.scan, hreading, Except.map]
    | ok token =>
      have htoken : token ≠ .finish := by
        rintro rfl
        exact h.1 hreading
      cases tokens with
      | nil => simp [Lexer.scans, Lexer.scan, hreading, Except.map, htoken]
      | cons head tokens =>
        by_cases hhead : token = head
        · subst hhead
          simpa [Lexer.scans, Lexer.scan, hreading, Except.map, htoken.symm] using ih tokens h.2
        · simp [Lexer.scans, Lexer.scan, hreading, Except.map, hhead]

/-- Scanning on and on gives the tokens, and only then the end of the pattern. -/
theorem lexes_iff_scans {pattern : String} {tokens : List Token} :
    Lexes pattern tokens ↔ Token.finish ∉ tokens ∧
      ((Lexer.ofPattern pattern).scans (tokens.length + 1)).map (·.map Prod.snd) =
        (tokens ++ [Token.finish]).map .ok :=
  map_reading_eq_iff _ tokens (reading_ne_finish 0 pattern.toList)

end RegexMachine
