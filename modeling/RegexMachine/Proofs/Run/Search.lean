import RegexMachine.Proofs.Run.Captures

/-!
# Depth-first search

A search from a configuration follows the instructions one by one, tries the first target of a split
before the second, and is over at the first match. `Finds` says what it comes to without saying how
it goes: the run that is preferred to all others that reach a match from there, loops and all.

* **instructions** — what a search finds at an instruction follows from what it finds at those the
  instruction goes on to;
* **the machine** — a run that is preferred to all others makes no loops, so where a search finds
  one at the start, the machine finds the same (`Machine.captures_of_finds`).
-/

namespace RegexMachine

/-- A run that is not simple goes through a loop. -/
theorem Config.exists_loop {c : Config} {r : Run} (h : ¬ (c.along r).Nodup) :
    ∃ front loop back, r = front ++ (loop ++ back) ∧ loop ≠ [] ∧
      (c.after front).after loop = c.after front := by
  induction r generalizing c with
  | nil => exact absurd (List.nodup_singleton c) h
  | cons m r ih =>
    by_cases hc : c ∈ m.goal.along r
    · obtain ⟨front, back, rfl, hfront⟩ := exists_split_of_mem_along hc
      exact ⟨[], m :: front, back, rfl, List.cons_ne_nil m front, hfront⟩
    · have hr : ¬ (m.goal.along r).Nodup := fun hr => h (List.nodup_cons.mpr ⟨hc, hr⟩)
      obtain ⟨front, loop, back, rfl, hloop, hafter⟩ := ih hr
      exact ⟨m :: front, loop, back, rfl, hloop, hafter⟩

namespace Program

variable {p : Program} {subject : String}

/-- What a search from `c` finds: nothing if no run from there reaches a match, and otherwise the
slots that the most preferred of these runs leaves behind. -/
def Finds (p : Program) (subject : String) (c : Config) (slots : Slots) : Option Slots → Prop
  | none => ∀ r, ¬ p.Accepts subject c r
  | some found => ∃ r, p.Accepts subject c r ∧ p.slotsAfter c slots r = found ∧
      ∀ s, p.Accepts subject c s → s = r ∨ Preferred r s

namespace Finds

variable {pc offset : Nat} {slots : Slots} {found : Option Slots}

theorem accept (hi : p.code[pc]? = some .accept) :
    p.Finds subject ⟨pc, offset⟩ slots (some slots) :=
  ⟨[], accepts_nil.mpr hi, rfl, fun _ hs => .inl (hs.eq_nil hi)⟩

/-- Where there is only one way on, the search takes it. -/
theorem of_step {c : Config} {m : Move} (hm : p.Step subject c m)
    (honly : ∀ n, p.Step subject c n → n = m) (h : p.Finds subject m.goal (p.note c slots) found) :
    p.Finds subject c slots found := by
  cases found with
  | none =>
    rintro (_ | ⟨n, r⟩) hr
    · exact (accepts_nil.mp hr).not_step hm
    · obtain ⟨hn, hr⟩ := accepts_cons.mp hr
      obtain rfl := honly n hn
      exact h r hr
  | some found =>
    obtain ⟨r, hr, hslots, hbest⟩ := h
    refine ⟨m :: r, accepts_cons.mpr ⟨hm, hr⟩, hslots, ?_⟩
    rintro (_ | ⟨n, s⟩) hs
    · exact absurd hm (accepts_nil.mp hs).not_step
    · obtain ⟨hn, hs⟩ := accepts_cons.mp hs
      obtain rfl := honly n hn
      rcases hbest s hs with rfl | hrs
      · exact .inl rfl
      · exact .inr (.later n hrs)

theorem jump {target : Nat} (hi : p.code[pc]? = some (.jump target))
    (h : p.Finds subject ⟨target, offset⟩ slots found) :
    p.Finds subject ⟨pc, offset⟩ slots found := by
  refine of_step (.jump hi) (fun n hn => ?_) (by simpa [note, hi] using h)
  cases hn <;> simp_all

theorem save {slot : Nat} (hi : p.code[pc]? = some (.save slot))
    (h : p.Finds subject ⟨pc + 1, offset⟩ (slots.setIfInBounds slot (some offset)) found) :
    p.Finds subject ⟨pc, offset⟩ slots found := by
  refine of_step (.save hi) (fun n hn => ?_) (by simpa [note, hi] using h)
  cases hn <;> simp_all

theorem char {c : Char} (hi : p.code[pc]? = some (.char c))
    (hc : Text.charAt? subject offset = some c)
    (h : p.Finds subject ⟨pc + 1, offset + c.utf8Size⟩ slots found) :
    p.Finds subject ⟨pc, offset⟩ slots found := by
  refine of_step (.char hi hc) (fun n hn => ?_) (by simpa [note, hi] using h)
  cases hn <;> simp_all

theorem char_ne {c : Char} (hi : p.code[pc]? = some (.char c))
    (hc : Text.charAt? subject offset ≠ some c) : p.Finds subject ⟨pc, offset⟩ slots none := by
  rintro (_ | ⟨m, r⟩) hr
  · simp [accepts_nil, Final, hi] at hr
  · have hm := (accepts_cons.mp hr).1
    cases hm <;> simp_all

/-- The second target of a split counts only where the first one leads nowhere. -/
theorem split {t u : Nat} {other : Option Slots} (hi : p.code[pc]? = some (.split t u))
    (h : p.Finds subject ⟨t, offset⟩ slots found) (h' : p.Finds subject ⟨u, offset⟩ slots other) :
    p.Finds subject ⟨pc, offset⟩ slots (found.or other) := by
  have hnote : p.note ⟨pc, offset⟩ slots = slots := by simp [note, hi]
  cases found with
  | some found =>
    -- behind the second target there may be more runs, but none is preferred
    obtain ⟨r, hr, hslots, hbest⟩ := h
    refine ⟨_ :: r, accepts_cons.mpr ⟨.first hi, hr⟩, by rwa [slotsAfter, hnote], fun s hs => ?_⟩
    rcases hs.of_split hi with ⟨s, rfl, hfirst⟩ | ⟨s, rfl, -⟩
    · rcases hbest s hfirst with rfl | hrs
      · exact .inl rfl
      · exact .inr (.later _ hrs)
    · exact .inr (.here r s)
  | none =>
    cases other with
    | none =>
      intro r hr
      rcases hr.of_split hi with ⟨s, -, hfirst⟩ | ⟨s, -, hsecond⟩
      · exact h s hfirst
      · exact h' s hsecond
    | some other =>
      obtain ⟨r, hr, hslots, hbest⟩ := h'
      refine ⟨_ :: r, accepts_cons.mpr ⟨.second hi, hr⟩, by rwa [slotsAfter, hnote], fun s hs => ?_⟩
      rcases hs.of_split hi with ⟨s, rfl, hfirst⟩ | ⟨s, rfl, hsecond⟩
      · exact absurd hfirst (h s)
      · rcases hbest s hsecond with rfl | hrs
        · exact .inl rfl
        · exact .inr (.later _ hrs)

end Finds

/-! ## The machine -/

/-- The most preferred of all runs to a match makes no loops: with a loop, either leaving it out or
going through it twice would be better. -/
theorem Accepts.simple_of_best {r : Run} (hr : p.Accepts subject .start r)
    (hbest : ∀ s, p.Accepts subject .start s → s = r ∨ Preferred r s) : Simple r := by
  by_contra hloops
  obtain ⟨front, loop, back, rfl, hloop, hafter⟩ := Config.exists_loop hloops
  obtain ⟨hfront, hrest⟩ := accepts_append.mp hr
  obtain ⟨hround, hback⟩ := accepts_append.mp hrest
  rw [hafter] at hback
  -- the loop may be left out, or made twice
  have hwithout : p.Accepts subject .start (front ++ back) := accepts_append.mpr ⟨hfront, hback⟩
  have htwice : p.Accepts subject .start (front ++ (loop ++ (loop ++ back))) := by
    refine accepts_append.mpr ⟨hfront, accepts_append.mpr ⟨hround, ?_⟩⟩
    rwa [hafter]
  have hshort : Preferred (loop ++ back) back := by
    rcases hbest _ hwithout with heq | h
    · exact absurd (List.append_left_eq_self.mp (List.append_cancel_left heq).symm) hloop
    · exact (Preferred.append_left_iff front).mp h
  have hlong : Preferred (loop ++ back) (loop ++ (loop ++ back)) := by
    rcases hbest _ htwice with heq | h
    · have heq' := List.append_cancel_left (List.append_cancel_left heq)
      exact absurd (List.append_left_eq_self.mp heq') hloop
    · exact (Preferred.append_left_iff front).mp h
  -- so the loop is both better and worse than what follows it
  exact hshort.asymm ((Preferred.append_left_iff loop).mp hlong)

end Program

/-- What a search finds at the start of a program is what the machine finds. -/
theorem Machine.captures_of_finds {m : Machine} (hm : m.Fits) {subject : String}
    {found : Option Slots} (h : m.program.Finds subject .start m.program.blankSlots found) :
    (m.captures subject).1 = found.map (⟨subject, ·⟩) := by
  cases found with
  | none => exact (captures_eq_none_iff hm subject).mpr h
  | some found =>
    obtain ⟨r, hr, rfl, hbest⟩ := h
    exact captures_of_mostPreferred hm
      ⟨hr, hr.simple_of_best hbest, fun s hs _ => hbest s hs⟩

end RegexMachine
