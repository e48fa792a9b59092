import RegexMachine.Proofs.Run.Captures

/-!
# Runs see only what they read

A run to a match asks the subject for the characters in front of it and for nothing else. So it is a
run in every subject that is the same as far as the run goes (`Program.Accepts.of_agree`).

A subject that ends there has fewer runs, and this is one of them. Hence the most preferred run
stays the most preferred one when the subject is cut where the run ends
(`Program.MostPreferred.truncate`).
-/

namespace RegexMachine

/-! ## Texts with a common front -/

namespace Text

theorem byteSize_eq_zero_iff {cs : List Char} : byteSize cs = 0 ↔ cs = [] := by
  cases cs with
  | nil => simp
  | cons c cs =>
    have hpos := c.utf8Size_pos
    simp only [byteSize_cons, reduceCtorEq, iff_false]
    omega

/-- Of two front parts of a text the one of fewer bytes is the front of the other. -/
theorem isPrefix_of_byteSize_le {front front' cs : List Char} (h : front <+: cs)
    (h' : front' <+: cs)
    (hle : byteSize front ≤ byteSize front') : front <+: front' := by
  rcases List.prefix_or_prefix_of_prefix h h' with hfront | ⟨more, rfl⟩
  · exact hfront
  · have hmore : more = [] := by
      rw [byteSize_append] at hle
      exact byteSize_eq_zero_iff.mp (by omega)
    rw [hmore, List.append_nil]

/-- Two texts are the same up to byte `stop`. -/
def AgreeTo (stop : Nat) (s t : String) : Prop :=
  ∃ front, front <+: s.toList ∧ front <+: t.toList ∧ byteSize front = stop

/-- The texts have the same character wherever one of them has one that is over by then. -/
theorem AgreeTo.charAt? {s t : String} {stop offset : Nat} {c : Char} (h : AgreeTo stop s t)
    (hc : charAt? s offset = some c) (hle : offset + c.utf8Size ≤ stop) :
    charAt? t offset = some c := by
  obtain ⟨common, hs, ht, rfl⟩ := h
  obtain ⟨front, back, htoList, rfl⟩ := charAt?_eq_some_iff.mp hc
  have hread : front ++ [c] <+: s.toList := ⟨back, by simp [htoList]⟩
  obtain ⟨more, hmore⟩ :=
    (isPrefix_of_byteSize_le hread hs (by simpa [byteSize_append] using hle)).trans ht
  exact charAt?_eq_some_iff.mpr ⟨front, more, by simp [← hmore], rfl⟩

end Text

namespace Program

variable {p : Program} {s t : String} {stop : Nat}

/-! ## The same run in another subject -/

theorem Step.of_agree {c : Config} {m : Move} (hm : p.Step s c m) (h : Text.AgreeTo stop s t)
    (hle : m.goal.offset ≤ stop) : p.Step t c m := by
  cases hm with
  | char hi hc => exact .char hi (h.charAt? hc hle)
  | jump hi => exact .jump hi
  | first hi => exact .first hi
  | second hi => exact .second hi
  | save hi => exact .save hi
  | nop hi => exact .nop hi

theorem Path.of_agree {c : Config} {r : Run} (hr : p.Path s c r) (h : Text.AgreeTo stop s t)
    (hle : (c.after r).offset ≤ stop) : p.Path t c r := by
  induction r generalizing c with
  | nil => trivial
  | cons m r ih =>
    -- no configuration of the run is behind the last one
    have hgoal := (hr.2.offset_le m.goal List.mem_cons_self).2
    exact ⟨hr.1.of_agree h (Nat.le_trans hgoal hle), ih hr.2 hle⟩

theorem Accepts.of_agree {c : Config} {r : Run} (hr : p.Accepts s c r) (h : Text.AgreeTo stop s t)
    (hle : (c.after r).offset ≤ stop) : p.Accepts t c r :=
  ⟨hr.path.of_agree h hle, hr.final⟩

/-- No run ends behind its subject. -/
theorem Path.offset_le_byteSize {r : Run} (hr : p.Path s .start r) :
    (Config.start.after r).offset ≤ Text.byteSize s.toList :=
  (hr.inside inside_start _ (Config.after_mem_along _ _)).2

/-- **Truncation**: the most preferred run is also that of the subject which ends where the run
does. -/
theorem MostPreferred.truncate {r : Run} (hr : p.MostPreferred s r) (ht : t.toList <+: s.toList)
    (hend : Text.byteSize t.toList = (Config.start.after r).offset) : p.MostPreferred t r where
  accepts := hr.accepts.of_agree ⟨_, ht, List.prefix_rfl, hend⟩ (Nat.le_refl _)
  simple := hr.simple
  least other hother hsimple := by
    -- every run of the shorter subject is one of the longer subject
    have hle := hother.path.offset_le_byteSize
    exact hr.least other (hother.of_agree ⟨_, List.prefix_rfl, ht, rfl⟩ hle) hsimple

end Program

end RegexMachine
