import RegexMachine.Proofs.Pattern.Captures
import RegexMachine.Proofs.Run.Truncation

/-!
# Matching looks at nothing beyond the match

Threads that are preferred to the one that matched may still be alive behind the end of the match,
and the machine reads on for their sake. They came to nothing, so it makes no difference if the
subject ends where the match does; and what is read up to there is a match whatever comes behind it.
-/

namespace RegexMachine.Regex

variable {pattern subject : String} {r : Regex} {c : Captures}

/-- What a compiled pattern captures is what the most preferred run noted, and the whole match is
what that run read. -/
theorem exists_run_of_captures (hr : compile pattern = .ok r) (hc : r.captures subject = some c) :
    ∃ run w back, r.program.MostPreferred subject run ∧ c = ⟨subject, r.program.slotsOf run⟩ ∧
      subject.toList = w ++ back ∧ (Config.start.after run).offset = Text.byteSize w ∧
      c.span 0 = some (0, Text.byteSize w) := by
  obtain ⟨e, he⟩ := parse_of_compile hr
  obtain ⟨p, hcompile, hprogram, -, -⟩ := compile_of_parse he
  obtain rfl : r = ⟨pattern, p⟩ := Except.ok.inj (hr.symm.trans hcompile)
  obtain ⟨-, -, -, -, -, hindices⟩ := Expr.derives_of_parse he
  have hzero : 0 ∉ e.indices := by simp [hindices]
  have hplaced := Expr.placedIn hprogram
  obtain ⟨run, hrun, rfl⟩ :=
    (Machine.captures_eq_some_iff (Machine.fits_ofProgram p) subject c).mp hc
  obtain ⟨t, hreads, hslots⟩ := Expr.exists_reading_of_accepts hplaced hrun.accepts
  -- the group around the whole expression begins at the start of the subject
  obtain ⟨hstart, -⟩ := hreads.group_slots hzero
    (by simp [Cursor.start, Program.slots, Program.slotsFor])
  have hstop := Expr.stop_of_accepts hplaced hrun.accepts
  obtain ⟨w, back, s, hsubject, -, -, hlast⟩ := Expr.exists_word_of_accepts hplaced hrun.accepts
  have hend : (Config.start.after run).offset = Text.byteSize w := by simp [hlast]
  rw [hend] at hstop
  rw [hslots] at hstart
  exact ⟨run, w, back, hrun, rfl, hsubject, hend, Captures.span_of_slots hstart hstop⟩

/-- **Truncation**: a subject on which a pattern matches may be cut where the match ends, and the
pattern matches the piece with the same spans. It also matches every subject that begins with the
piece. -/
theorem captures_truncated (hr : compile pattern = .ok r) (hc : r.captures subject = some c) :
    ∃ stop piece, c.span 0 = some (0, stop) ∧ Text.slice? subject 0 stop = some piece ∧
      (∃ c', r.captures piece = some c' ∧ c'.slots = c.slots ∧ ∀ g, c'.span g = c.span g) ∧
      ∀ other : String, piece.toList <+: other.toList → r.isMatch other = true := by
  obtain ⟨run, w, back, hrun, rfl, hsubject, hend, hspan⟩ := exists_run_of_captures hr hc
  have hfits := Machine.fits_ofProgram r.program
  have hfront : w <+: subject.toList := ⟨back, hsubject.symm⟩
  have hpiece : (String.ofList w).toList = w := String.toList_ofList
  refine ⟨_, String.ofList w, hspan, Text.slice?_zero hsubject, ?_, fun other hother => ?_⟩
  · have htruncated : r.program.MostPreferred (String.ofList w) run :=
      hrun.truncate (hpiece.symm ▸ hfront) (by rw [hpiece, hend])
    exact ⟨_, Machine.captures_of_mostPreferred hfits htruncated, rfl, fun _ => rfl⟩
  · rw [hpiece] at hother
    have haccepts : r.program.Accepts other .start run :=
      hrun.accepts.of_agree ⟨w, hfront, hother, rfl⟩ (Nat.le_of_eq hend)
    rw [isMatch, Option.isSome_iff_ne_none]
    exact fun hnone => (Machine.captures_eq_none_iff hfits other).mp hnone run haccepts

/-- The first branch, which would be preferred, is alive up to the end of the subject, and the
match ends behind the first character. -/
theorem captures_truncated_alive : ∃ r c stop piece,
    compile "((é)*b|(?:é|a)(c*?)*)" = .ok r ∧ r.captures "ééé" = some c ∧
    c.slots = #[some 0, some 2, some 0, some 2, none, none, none, none] ∧
    c.span 0 = some (0, stop) ∧ Text.slice? "ééé" 0 stop = some piece ∧
    (∃ c', r.captures piece = some c' ∧ c'.slots = c.slots ∧ ∀ g, c'.span g = c.span g) ∧
    ∀ other : String, piece.toList <+: other.toList → r.isMatch other = true := by
  obtain ⟨r, hr, hc⟩ := exists_captures_of_evaluate
    (show (Expr.parse "((é)*b|(?:é|a)(c*?)*)").toOption.bind (·.evaluate "ééé") = some (some
      #[some 0, some 2, some 0, some 2, none, none, none, none]) by decide +kernel)
  obtain ⟨stop, piece, htruncated⟩ := captures_truncated hr hc
  exact ⟨r, _, stop, piece, hr, hc, rfl, htruncated⟩

end RegexMachine.Regex
