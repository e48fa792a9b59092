import RegexMachine.Proofs.Expr.Recognition
import RegexMachine.Proofs.Expr.Runs
import RegexMachine.Proofs.Pattern.Compilation

/-!
# What the groups of a pattern capture

Where a pattern matches, each of its groups either took no part in the match, or captured a word of
what stands inside it, within the match. This holds of every run to a match, so it does not matter
which one the machine prefers, nor whether loops have rounds that read nothing.
-/

namespace RegexMachine

open Text (byteSize)

namespace Captures

variable {c : Captures} {g : Nat}

theorem span_of_slots {start stop : Nat} (hstart : c.slots[2 * g]? = some (some start))
    (hstop : c.slots[2 * g + 1]? = some (some stop)) : c.span g = some (start, stop) := by
  simp [span, hstart, hstop]

theorem get_of_span {start stop : Nat} (h : c.span g = some (start, stop)) :
    c.get g = Text.slice? c.subject start stop := by
  simp [get, h]

theorem span_eq_none (h : c.slots.size ≤ 2 * g) : c.span g = none := by
  simp [span, Array.getElem?_eq_none h]

theorem get_eq_none (h : c.span g = none) : c.get g = none := by
  simp [get, h]

/-- The group `g` took no part in the match, or it captured a word of the language that ends at byte
`limit` at the latest. -/
def InOrder (c : Captures) (g : Nat) (L : Language Char) (limit : Nat) : Prop :=
  (c.slots[2 * g]? = some none ∧ c.slots[2 * g + 1]? = some none) ∨
    ∃ start stop text, c.slots[2 * g]? = some (some start) ∧
      c.slots[2 * g + 1]? = some (some stop) ∧ start ≤ stop ∧ stop ≤ limit ∧
      Text.IsBoundary c.subject start ∧ Text.IsBoundary c.subject stop ∧
      Text.slice? c.subject start stop = some text ∧ c.get g = some text ∧ text.toList ∈ L

theorem inOrder_of_cursor {subject : String} {L : Language Char} {t : Cursor}
    (h : t.InOrder subject g L) : (⟨subject, t.slots⟩ : Captures).InOrder g L t.offset := by
  refine h.slots.imp_right ?_
  rintro ⟨front, w, between, hw, hsubject, hstart, hstop⟩
  obtain ⟨before, hbefore, hoffset⟩ := h.within
  have hslice : Text.slice? subject (byteSize front) (byteSize (front ++ w)) =
      some (String.ofList w) :=
    Text.slice?_eq_some_iff.mpr ⟨front, between ++ t.rest, by simpa using hsubject, rfl, by simp⟩
  -- what was read before ends where the rest begins
  have hread : before = front ++ (w ++ between) := by
    have hrest : before ++ t.rest = front ++ (w ++ between) ++ t.rest := by
      rw [← hbefore, hsubject]
      simp only [List.append_assoc]
    exact List.append_cancel_right hrest
  refine ⟨byteSize front, byteSize (front ++ w), String.ofList w, hstart, hstop, ?_, ?_,
    ⟨front, _, hsubject, rfl⟩, ⟨front ++ w, between ++ t.rest, ?_, rfl⟩, hslice, ?_,
      by simpa using hw⟩
  · rw [Text.byteSize_append]
    exact Nat.le_add_right _ _
  · rw [← hoffset, hread, ← List.append_assoc, Text.byteSize_append (front ++ w)]
    exact Nat.le_add_right _ _
  · rw [hsubject, List.append_assoc]
  · rw [get_of_span (span_of_slots hstart hstop)]
    exact hslice

end Captures

namespace Regex

variable {pattern subject : String} {r : Regex} {c : Captures}

/-- What a compiled pattern captures is what some reading of its expression noted. -/
theorem exists_reading_of_captures (hr : compile pattern = .ok r)
    (hc : r.captures subject = some c) :
    ∃ e t, Expr.parse pattern = .ok e ∧
      (Expr.group (some 0) e).Reads (.start subject (2 * e.captureCount + 2)) t ∧
      c = ⟨subject, t.slots⟩ := by
  obtain ⟨e, he⟩ := parse_of_compile hr
  obtain ⟨p, hcompile, hprogram, -, hgroups⟩ := compile_of_parse he
  obtain rfl : r = ⟨pattern, p⟩ := Except.ok.inj (hr.symm.trans hcompile)
  obtain ⟨run, hrun, rfl⟩ :=
    (Machine.captures_eq_some_iff (Machine.fits_ofProgram p) subject c).mp hc
  obtain ⟨t, hreads, hslots⟩ :=
    Expr.exists_reading_of_accepts (Expr.placedIn hprogram) hrun.accepts
  rw [Program.slots, Program.slotsFor, hgroups] at hreads
  exact ⟨e, t, he, hreads, by rw [hslots]; rfl⟩

/-- **Captures**: where a pattern matches, the match begins at the start of the subject. Every group
of the pattern took no part in it or captured a word of what stands inside the group, within the
match; and there are no other groups. -/
theorem captures_inOrder (hr : compile pattern = .ok r) (hc : r.captures subject = some c) :
    ∃ e stop, Expr.parse pattern = .ok e ∧ c.subject = subject ∧ c.span 0 = some (0, stop) ∧
      Text.IsBoundary subject stop ∧
      (∀ g, 1 ≤ g → g ≤ e.captureCount →
        ∃ body, e.body? g = some body ∧ c.InOrder g body.language stop) ∧
      (∀ g, e.captureCount < g → c.span g = none ∧ c.get g = none) ∧
      c.groups = (List.range' 1 e.captureCount).map c.get := by
  obtain ⟨e, t, he, hreads, rfl⟩ := exists_reading_of_captures hr hc
  obtain ⟨tokens, -, -, -, -, hindices⟩ := Expr.derives_of_parse he
  have hnumbers : (Expr.group (some 0) e).indices = List.range' 0 (e.captureCount + 1) := by
    rw [Expr.indices_group, hindices, List.range'_succ]
    rfl
  have hnodup : (Expr.group (some 0) e).indices.Nodup := hnumbers ▸ List.nodup_range'
  have hsize : t.slots.size = 2 * e.captureCount + 2 :=
    hreads.notesOnly.size_eq.trans Array.size_replicate
  refine ⟨e, t.offset, he, rfl, ?_, ?_, fun g hpos hg => ?_, fun g hg => ?_, ?_⟩
  · -- the group around the whole expression
    have hzero : 0 ∉ e.indices := by simp [hindices]
    obtain ⟨hstart, hstop⟩ := hreads.group_slots hzero (by simp [Cursor.start])
    exact Captures.span_of_slots hstart hstop
  · obtain ⟨front, hsubject, hoffset⟩ := hreads.passes.within ⟨[], rfl, rfl⟩
    exact ⟨front, t.rest, hsubject, hoffset⟩
  · have hmem : g ∈ e.indices := by
      rw [hindices, List.mem_range'_1]
      omega
    obtain ⟨body, hbody, hinside⟩ := Expr.exists_body_of_mem_indices hmem
    have hblank : (Cursor.start subject (2 * e.captureCount + 2)).InOrder subject g body.language :=
      .start subject (by omega) body.language
    have horder := hreads.inOrder hnodup (List.mem_cons_of_mem _ hinside) hblank
    exact ⟨body, hbody, Captures.inOrder_of_cursor horder⟩
  · have hspan : (⟨subject, t.slots⟩ : Captures).span g = none :=
      Captures.span_eq_none (by rw [hsize]; omega)
    exact ⟨hspan, Captures.get_eq_none hspan⟩
  · have hcount : (2 * e.captureCount + 2) / 2 - 1 = e.captureCount := by omega
    rw [Captures.groups, Captures.size, hsize, hcount]

/-- The second group keeps what it captured in the first round of the loop, the third one took part
in the last round, and the fourth one in none. -/
theorem captures_inOrder_nullable : ∃ r c e stop,
    compile "((é*)|(b)|(d))*" = .ok r ∧ r.captures "éébb" = some c ∧
    c.slots = #[some 0, some 6, some 5, some 6, some 0, some 4, some 5, some 6, none, none] ∧
    Expr.parse "((é*)|(b)|(d))*" = .ok e ∧ c.span 0 = some (0, stop) ∧
    ∀ g, 1 ≤ g → g ≤ e.captureCount →
      ∃ body, e.body? g = some body ∧ c.InOrder g body.language stop := by
  obtain ⟨r, hr, hc⟩ := exists_captures_of_evaluate
    (show (Expr.parse "((é*)|(b)|(d))*").toOption.bind (·.evaluate "éébb") = some (some
      #[some 0, some 6, some 5, some 6, some 0, some 4, some 5, some 6, none, none]) by
      decide +kernel)
  obtain ⟨e, stop, he, -, hspan, -, hgroups, -⟩ := captures_inOrder hr hc
  exact ⟨r, _, e, stop, hr, hc, rfl, he, hspan, hgroups⟩

end Regex

end RegexMachine
