import RegexMachine.Proofs.Expr.Wrapping
import RegexMachine.Proofs.Pattern.Compilation
import RegexMachine.Proofs.Pattern.Joining

/-!
# Patterns in parentheses

A pattern in parentheses stands for a group around its tree, since no parenthesis runs together with
what is between them (`Expr.lexes_group`). A group that does not capture leaves no trace in the
program. One that captures comes before all others, and takes the span of the whole match.
-/

namespace RegexMachine

namespace Expr

variable {pattern : String} {e : Expr}

/-- Parentheses do not run together with what is between them. -/
theorem lexes_group (h : parse pattern = .ok e) (captures : Bool) :
    Lexes ((Token.openGroup captures).text ++ pattern ++ ")")
      (.openGroup captures :: e.tokens ++ [.closeGroup]) := by
  obtain ⟨hlexes, -⟩ := parse_eq_ok_iff_canonical.mp h
  have hopen := (lexes_openGroup captures).append hlexes (head?_ne_of_parse h)
  exact hopen.append lexes_closeGroup (by decide)

theorem parse_group_none (h : parse pattern = .ok e) (hnesting : e.nesting < maxNesting) :
    parse ("(?:" ++ pattern ++ ")") = .ok (group none e) := by
  obtain ⟨-, hshape, -, hnumbered⟩ := parse_eq_ok_iff_canonical.mp h
  refine parse_eq_ok_iff_canonical.mpr ⟨lexes_group h false, hshape, hnesting, ?_⟩
  rw [captureCount_eq_length, indices_group]
  exact captureCount_eq_length e ▸ hnumbered

theorem parse_group_some (h : parse pattern = .ok e) (hnesting : e.nesting < maxNesting) :
    parse ("(" ++ pattern ++ ")") = .ok (group (some 1) (e.shift 1)) := by
  obtain ⟨-, hshape, -, hnumbered⟩ := parse_eq_ok_iff_canonical.mp h
  have htokens : (group (some 1) (e.shift 1)).tokens =
      .openGroup true :: e.tokens ++ [.closeGroup] := by
    rw [tokens, shift, tokens_renumber]
    rfl
  refine parse_eq_ok_iff_canonical.mpr ⟨htokens ▸ lexes_group h true, ?_, ?_, ?_⟩
  · exact (canonical_renumber e).trans hshape
  · rw [nesting, nesting_shift]
    exact hnesting
  · rw [captureCount_eq_length, indices_group_shift hnumbered, List.length_range']

theorem program_group_none (e : Expr) : (group none e).program = e.program := by
  have hmax : (group none e).maxIndex = e.maxIndex := Nat.zero_max e.maxIndex
  rw [program_eq, program_eq, hmax]
  rfl

end Expr

namespace Captures

theorem span_of_copies {c c' : Captures} (h : Copies Expr.wrapSource c.slots c'.slots) :
    c'.span 0 = c.span 0 ∧ ∀ k, c'.span (k + 1) = c.span k := by
  have hshift (j : Nat) : c'.slots[j + 2]? = c.slots[j]? := by
    rw [h, Expr.wrapSource, if_neg (by omega), Nat.add_sub_cancel]
  constructor
  · rw [span, span, h, h]
    rfl
  · intro k
    rw [span, span, Nat.mul_succ, Nat.add_right_comm, hshift, hshift]

theorem get_congr {c c' : Captures} {g g' : Nat} (hsubject : c'.subject = c.subject)
    (hspan : c'.span g' = c.span g) : c'.get g' = c.get g := by
  rw [get, get, hspan, hsubject]

end Captures

namespace Regex

/-- With the ends of the match in slots of a group as well, a match has one group more. -/
theorem captures_of_doubling {r w : Regex} {place : Nat → Nat}
    (h : r.program.Doubling w.program place Expr.wrapSource) (subject : String) :
    w.isMatch subject = r.isMatch subject ∧ ∀ c, r.captures subject = some c →
      ∃ c', w.captures subject = some c' ∧ c'.span 0 = c.span 0 ∧
        ∀ k, c'.span (k + 1) = c.span k ∧ c'.get (k + 1) = c.get k := by
  cases hfound : r.captures subject with
  | none =>
    have hnone : w.captures subject = none := h.captures_eq_none hfound
    rw [isMatch, isMatch, hfound, hnone]
    exact ⟨rfl, by simp⟩
  | some found =>
    obtain ⟨found', hsome, hsubject, hcopies⟩ := h.exists_captures hfound
    have hsome' : w.captures subject = some found' := hsome
    rw [isMatch, isMatch, hfound, hsome']
    refine ⟨rfl, ?_⟩
    rintro c ⟨⟩
    obtain ⟨hwhole, hgroups⟩ := Captures.span_of_copies hcopies
    exact ⟨found', rfl, hwhole, fun k => ⟨hgroups k, Captures.get_congr hsubject (hgroups k)⟩⟩

variable {pattern : String} {r : Regex} {e : Expr}

/-- **Parentheses** around a pattern: if they do not capture, the program is the same. If they do,
the pattern matches the same subjects, and the new first group is the whole match, with all other
groups behind it. -/
theorem compile_wrapped (hr : compile pattern = .ok r) (he : Expr.parse pattern = .ok e)
    (hnesting : e.nesting < maxNesting) :
    (∃ r', compile ("(?:" ++ pattern ++ ")") = .ok r' ∧ r'.program = r.program) ∧
    ∃ w, compile ("(" ++ pattern ++ ")") = .ok w ∧ ∀ subject,
      w.isMatch subject = r.isMatch subject ∧ ∀ c, r.captures subject = some c →
        ∃ c', w.captures subject = some c' ∧ c'.span 0 = c.span 0 ∧
          ∀ k, c'.span (k + 1) = c.span k ∧ c'.get (k + 1) = c.get k := by
  obtain ⟨p, hcompile, hp, -, -⟩ := compile_of_parse he
  obtain rfl : r = ⟨pattern, p⟩ := Except.ok.inj (hr.symm.trans hcompile)
  obtain ⟨-, -, -, -, -, hnumbered⟩ := Expr.derives_of_parse he
  constructor
  · obtain ⟨p', hcompile', hp', -, -⟩ := compile_of_parse (Expr.parse_group_none he hnesting)
    rw [Expr.program_group_none, hp] at hp'
    exact ⟨_, hcompile', (Except.ok.inj hp').symm⟩
  · obtain ⟨q, hcompile', hq, -, -⟩ := compile_of_parse (Expr.parse_group_some he hnesting)
    exact ⟨_, hcompile', captures_of_doubling (Expr.doubling_group hnumbered hp hq)⟩

/-- With a loop that may read nothing, and an alternation that the parentheses hold together. -/
theorem compile_wrapped_choice : ∃ r w c c',
    compile "(?:(é)|(b*?))*|c" = .ok r ∧ r.captures "ébébc" = some c ∧
    c.slots = #[some 0, some 6, some 3, some 5, some 5, some 6] ∧
    (∃ r', compile ("(?:" ++ "(?:(é)|(b*?))*|c" ++ ")") = .ok r' ∧ r'.program = r.program) ∧
    compile ("(" ++ "(?:(é)|(b*?))*|c" ++ ")") = .ok w ∧ w.captures "ébébc" = some c' ∧
    c'.span 0 = some (0, 6) ∧ c'.span 1 = some (0, 6) ∧ c'.span 2 = some (3, 5) ∧
    c'.span 3 = some (5, 6) ∧ c'.get 3 = some "b" := by
  have he : Expr.parse "(?:(é)|(b*?))*|c" = .ok
      (.alternation
        (.repetition .star true (.group none (.alternation (.group (some 1) (.literal 'é'))
          (.group (some 2) (.repetition .star false (.literal 'b'))))))
        (.literal 'c')) :=
    Expr.parse_eq_ok_iff_canonical.mpr ⟨rfl, by decide⟩
  obtain ⟨r, hr, hc⟩ := exists_captures_of_evaluate
    (show (Expr.parse "(?:(é)|(b*?))*|c").toOption.bind (·.evaluate "ébébc") = some (some
      #[some 0, some 6, some 3, some 5, some 5, some 6]) by decide +kernel)
  obtain ⟨hsame, w, hw, hgroups⟩ := compile_wrapped hr he (by decide)
  obtain ⟨c', hc', hwhole, hspans⟩ := (hgroups "ébébc").2 _ hc
  refine ⟨r, w, _, c', hr, hc, rfl, hsame, hw, hc', hwhole.trans rfl, (hspans 0).1.trans rfl,
    (hspans 1).1.trans rfl, (hspans 2).1.trans rfl, (hspans 2).2.trans ?_⟩
  decide +kernel

end Regex

end RegexMachine
