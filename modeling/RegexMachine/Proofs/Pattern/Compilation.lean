import RegexMachine.Proofs.Assembly.Slots
import RegexMachine.Proofs.Expr.Evaluation
import RegexMachine.Proofs.Pattern.Derivation
import RegexMachine.Regex

/-!
# Patterns and their programs

A pattern that can be read has a program: since its groups are numbered in the order of their
parentheses, nothing can be wrong with the listing. The number of groups is the same wherever it is
counted.
-/

namespace RegexMachine

namespace Regex

theorem compile_of_fault {pattern : String} {fault : PatternError}
    (h : Expr.parse pattern = .error fault) : compile pattern = .error (.pattern fault) := by
  rw [compile, h]
  rfl

theorem parse_of_compile {pattern : String} {r : Regex} (h : compile pattern = .ok r) :
    ∃ e, Expr.parse pattern = .ok e := by
  cases hparse : Expr.parse pattern with
  | error fault =>
    rw [compile_of_fault hparse] at h
    cases h
  | ok e => exact ⟨e, rfl⟩

/-- Behind the parser nothing fails. -/
theorem compile_of_parse {pattern : String} {e : Expr} (h : Expr.parse pattern = .ok e) :
    ∃ p, compile pattern = .ok ⟨pattern, p⟩ ∧ e.program = .ok p ∧ p.code.toList = e.listing ∧
      p.groups = e.captureCount := by
  obtain ⟨tokens, -, -, -, -, hindices⟩ := Expr.derives_of_parse h
  obtain ⟨p, hp, hcode, hgroups⟩ := Expr.program_of_numbered hindices
  refine ⟨p, ?_, hp, hcode, hgroups⟩
  simp only [compile, h, hp, Except.mapError, bind, Except.bind]

/-- What a pattern finds in a subject can be evaluated. -/
theorem exists_captures_of_evaluate {pattern subject : String} {slots : Slots}
    (h : (Expr.parse pattern).toOption.bind (·.evaluate subject) = some (some slots)) :
    ∃ r, compile pattern = .ok r ∧ r.captures subject = some ⟨subject, slots⟩ := by
  cases hparse : Expr.parse pattern with
  | error fault =>
    rw [hparse] at h
    cases h
  | ok e =>
    rw [hparse] at h
    obtain ⟨p, hcompile, hp, -, -⟩ := compile_of_parse hparse
    obtain ⟨p', hp', hfound⟩ := Expr.captures_of_evaluate h
    obtain rfl : p = p' := Except.ok.inj (hp.symm.trans hp')
    exact ⟨_, hcompile, hfound⟩

/-- **Compilation fails only on patterns that cannot be read**, with the report of the parser. And
the groups of a program are those of the expression and of the pattern: there is one for every
opening parenthesis that captures, they are numbered from one on, and each of their slots is saved
by a single instruction. -/
theorem compile_follows_parse (pattern : String) :
    ((∃ r, compile pattern = .ok r) ↔ ∃ e, Expr.parse pattern = .ok e) ∧
    (∀ error, compile pattern = .error error →
      ∃ fault, Expr.parse pattern = .error fault ∧ error = .pattern fault) ∧
    ∀ r e, compile pattern = .ok r → Expr.parse pattern = .ok e →
      ∃ tokens, Lexes pattern tokens ∧ tokens.count (.openGroup true) = e.captureCount ∧
        e.indices = List.range' 1 e.captureCount ∧
        r.program.captureSlots = 2 * e.captureCount ∧ r.program.slots = 2 * e.captureCount + 2 ∧
        ∀ slot < 2 * e.captureCount + 2, r.program.code.toList.count (.save slot) = 1 := by
  cases hparse : Expr.parse pattern with
  | error fault =>
    have hcompile := compile_of_fault hparse
    refine ⟨by simp [hcompile], fun error herror => ⟨fault, rfl, ?_⟩, by simp⟩
    rw [hcompile] at herror
    exact (Except.error.inj herror).symm
  | ok e =>
    obtain ⟨p, hcompile, -, hcode, hgroups⟩ := compile_of_parse hparse
    obtain ⟨tokens, hlexes, -, -, hcount, hindices⟩ := Expr.derives_of_parse hparse
    refine ⟨by simp [hcompile], by simp [hcompile], fun r e' hr he' => ?_⟩
    obtain rfl := Except.ok.inj he'
    rw [hcompile] at hr
    obtain rfl := Except.ok.inj hr
    refine ⟨tokens, hlexes, hcount, hindices, congrArg (2 * ·) hgroups,
      congrArg Program.slotsFor hgroups, fun slot hslot => ?_⟩
    rw [hcode]
    exact Expr.count_save_of_numbered hindices hslot

end Regex

end RegexMachine
