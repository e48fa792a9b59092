import RegexMachine.Proofs.Pattern.Joining
import RegexMachine.Proofs.Pattern.Truncation

/-!
# Texts as patterns

A text in which a backslash stands before each ASCII punctuation character is a pattern for that
very text: what is escaped is all that could be a mark, and every other character stands for itself.
Its tree is the concatenation of the characters, whose language is the text alone.
-/

namespace RegexMachine

open Grammar (ofFactors)
open Text (byteSize)

/-- The pattern for a text. -/
def escape (s : String) : String :=
  String.ofList (s.toList.flatMap fun c => if isAsciiPunctuation c then ['\\', c] else [c])

namespace Expr

/-- The characters of a text one after the other. -/
def ofText (cs : List Char) : Expr := ofFactors (cs.map literal)

theorem allCanonical_literals (cs : List Char) : allCanonical (cs.map literal) = true := by
  induction cs with
  | nil => rfl
  | cons c cs ih => exact ih

theorem allTokens_literals (cs : List Char) :
    allTokens (cs.map literal) = cs.map Token.character := by
  induction cs with
  | nil => rfl
  | cons c cs ih => rw [List.map_cons, allTokens, ih, List.map_cons, tokens, List.singleton_append]

theorem tokens_ofText (cs : List Char) : (ofText cs).tokens = cs.map Token.character := by
  rw [ofText, Grammar.tokens_ofFactors, allTokens_literals]

theorem nestings_literals (cs : List Char) : nestings (cs.map literal) = 0 := by
  induction cs with
  | nil => rfl
  | cons c cs ih => rw [List.map_cons, nestings, ih, nesting, Nat.max_self]

theorem indices_ofText (cs : List Char) : (ofText cs).indices = [] := by
  simp [ofText]

theorem canonical_ofText (cs : List Char) : (ofText cs).Canonical where
  shape := (Grammar.canonical_ofFactors (allCanonical_literals cs)).1
  nesting := by
    rw [ofText, Grammar.nesting_ofFactors, nestings_literals]
    exact Nat.zero_le _
  numbered := by rw [captureCount_eq_length, indices_ofText]; rfl

theorem print_ofText (s : String) : (ofText s.toList).print = escape s := by
  rw [print, tokens_ofText, spell, escape, List.flatMap_map]
  rfl

theorem parse_escape (s : String) : parse (escape s) = .ok (ofText s.toList) := by
  have hcanonical := canonical_ofText s.toList
  rw [← print_ofText]
  exact parse_eq_ok_iff_canonical.mpr ⟨lexes_print hcanonical.shape, hcanonical⟩

/-! ## The language of a text -/

theorem language_ofFactors (es : List Expr) : (ofFactors es).language = languages es := by
  unfold ofFactors
  split
  · rw [languages, languages, mul_one]
  · rw [language]

theorem mem_languages_literals {cs w : List Char} :
    w ∈ languages (cs.map literal) ↔ w = cs := by
  induction cs generalizing w with
  | nil => exact Language.mem_one w
  | cons c cs ih =>
    rw [List.map_cons, languages, Language.mem_mul]
    constructor
    · rintro ⟨u, hu, v, hv, rfl⟩
      obtain rfl := mem_language_literal.mp hu
      rw [ih.mp hv, List.singleton_append]
    · rintro rfl
      exact ⟨[c], mem_language_literal.mpr rfl, cs, ih.mpr rfl, rfl⟩

theorem mem_language_ofText {cs w : List Char} : w ∈ (ofText cs).language ↔ w = cs := by
  rw [ofText, language_ofFactors, mem_languages_literals]

end Expr

namespace Regex

/-- **Escaping**: an escaped text is a pattern without groups. It matches the subjects that begin
with the text, and what it matches is the text. -/
theorem compile_escape (s : String) : ∃ r, compile (escape s) = .ok r ∧ r.program.groups = 0 ∧
    ∀ subject, (r.isMatch subject = true ↔ s.toList <+: subject.toList) ∧
      ∀ c, r.captures subject = some c → c.span 0 = some (0, byteSize s.toList) := by
  obtain ⟨p, hcompile, hprogram, -, hgroups⟩ := compile_of_parse (Expr.parse_escape s)
  have hplaced := Expr.placedIn hprogram
  have hfits := Machine.fits_ofProgram p
  refine ⟨⟨escape s, p⟩, hcompile, ?_, fun subject => ⟨⟨fun hmatch => ?_, ?_⟩, fun c hc => ?_⟩⟩
  · rw [hgroups, Expr.captureCount_eq_length, Expr.indices_ofText]
    rfl
  · obtain ⟨c, hc⟩ := Option.isSome_iff_exists.mp hmatch
    obtain ⟨run, hrun, -⟩ := (Machine.captures_eq_some_iff hfits subject c).mp hc
    obtain ⟨w, back, -, hsubject, hw, -⟩ := Expr.exists_word_of_accepts hplaced hrun.accepts
    obtain rfl := Expr.mem_language_ofText.mp hw
    exact ⟨back, hsubject.symm⟩
  · rintro ⟨back, hback⟩
    obtain ⟨run, hrun⟩ := Expr.exists_accepts_of_word hplaced hback.symm
      (Expr.mem_language_ofText.mpr rfl)
    rw [isMatch, Option.isSome_iff_ne_none]
    exact fun hnone => (Machine.captures_eq_none_iff hfits subject).mp hnone run hrun
  · obtain ⟨run, w, back, hrun, -, hsubject, hend, hspan⟩ := exists_run_of_captures hcompile hc
    obtain ⟨v, _, _, -, hv, -, hlast⟩ := Expr.exists_word_of_accepts hplaced hrun.accepts
    obtain rfl := Expr.mem_language_ofText.mp hv
    rw [hspan, ← hend, hlast]
    simp

end Regex

end RegexMachine
