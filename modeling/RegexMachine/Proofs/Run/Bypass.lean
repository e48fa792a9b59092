import RegexMachine.Proofs.Run.Captures
import Mathlib.Logic.Relation

/-!
# Jumps to a split

Where a program jumps to a split it may as well split at once. Runs of the two programs correspond
to each other, with the same choices and the same notes, and those of the second one lack the move
that jumps (`shorten`, `lengthen`). So one program reaches a match where the other one does.

But a run of the second program may come to both splits at one offset, and the run of the first one
that corresponds to it makes a loop. Which run is preferred to all others that are simple may
therefore depend on the form, and with it the slots:

* **slipping** — `Slides` says from where to where control may get without reading anything;
* **no return** — if from the preferred target of the split control slides to neither of the splits,
  both programs find the same (`Bypass.captures_eq`).
-/

namespace RegexMachine

/-- Of two configurations of a run, one comes first. -/
theorem Config.exists_between {c x y : Config} {r : Run} (hx : x ∈ c.along r) (hy : y ∈ c.along r)
    (hne : x ≠ y) :
    ∃ front between rest, r = front ++ (between ++ rest) ∧ between ≠ [] ∧
      ((c.after front = x ∧ x.after between = y) ∨ (c.after front = y ∧ y.after between = x)) := by
  obtain ⟨front, rest, rfl, rfl⟩ := exists_split_of_mem_along hx
  rw [along_append, List.mem_append] at hy
  rcases hy with hy | hy
  · obtain ⟨front, between, rfl, rfl⟩ := exists_split_of_mem_along hy
    refine ⟨front, between, rest, List.append_assoc _ _ _, ?_, .inr ⟨rfl, ?_⟩⟩
    · rintro rfl
      simp at hne
    · exact (after_append c front between).symm
  · obtain ⟨between, rest, rfl, rfl⟩ :=
      exists_split_of_mem_along (c := c.after front) (List.mem_cons_of_mem _ hy)
    refine ⟨front, between, rest, rfl, ?_, .inl ⟨rfl, rfl⟩⟩
    rintro rfl
    exact hne rfl

namespace Program

variable {p q : Program} {subject : String} {back fork t u : Nat} {c : Config} {r s : Run}

/-! ## Moves that depend on the instruction only -/

theorem Step.congr {m : Move} (hm : p.Step subject c m) (h : q.code[c.pc]? = p.code[c.pc]?) :
    q.Step subject c m := by
  cases hm with
  | char hi hc => exact .char (h.trans hi) hc
  | jump hi => exact .jump (h.trans hi)
  | first hi => exact .first (h.trans hi)
  | second hi => exact .second (h.trans hi)
  | save hi => exact .save (h.trans hi)
  | nop hi => exact .nop (h.trans hi)

theorem note_congr (h : q.code[c.pc]? = p.code[c.pc]?) (slots : Slots) :
    q.note c slots = p.note c slots := by
  rw [note, note, h]

theorem note_of_jump {pc target offset : Nat} (hi : p.code[pc]? = some (.jump target))
    (slots : Slots) : p.note ⟨pc, offset⟩ slots = slots := by
  simp [note, hi]

theorem note_of_split {pc offset : Nat} (hi : p.code[pc]? = some (.split t u)) (slots : Slots) :
    p.note ⟨pc, offset⟩ slots = slots := by
  simp [note, hi]

/-- What follows a split does not depend on where the split stands. -/
theorem Accepts.of_same_split {a b offset : Nat} (hr : p.Accepts subject ⟨a, offset⟩ r)
    (ha : p.code[a]? = some (.split t u)) (hb : p.code[b]? = some (.split t u)) :
    p.Accepts subject ⟨b, offset⟩ r := by
  rcases hr.of_split ha with ⟨s, rfl, hs⟩ | ⟨s, rfl, hs⟩
  · exact accepts_cons.mpr ⟨.first hb, hs⟩
  · exact accepts_cons.mpr ⟨.second hb, hs⟩

/-! ## Corresponding runs -/

/-- At `back`, where `p` jumps to the split at `fork`, the program `q` has the split itself.
Elsewhere they are the same. -/
structure Bypass (p q : Program) (back fork t u : Nat) : Prop where
  /-- `p` jumps to the split -/
  jump : p.code[back]? = some (.jump fork)
  /-- the split itself -/
  split : p.code[fork]? = some (.split t u)
  /-- `q` has a copy of it -/
  copy : q.code[back]? = some (.split t u)
  /-- the other instructions are the same -/
  elsewhere : ∀ pc, pc ≠ back → q.code[pc]? = p.code[pc]?
  /-- the groups are the same -/
  groups : q.groups = p.groups

/-- Two programs that differ in one instruction. -/
theorem Bypass.of_code {before after : List (Instruction Nat)}
    (hp : p.code.toList = before ++ .jump fork :: after)
    (hq : q.code.toList = before ++ .split t u :: after)
    (hfork : before[fork]? = some (.split t u)) (hgroups : q.groups = p.groups) :
    Bypass p q before.length fork t u where
  jump := by
    rw [← Array.getElem?_toList, hp, List.getElem?_append_right (Nat.le_refl _), Nat.sub_self]
    rfl
  split := by
    have hlt := (List.getElem?_eq_some_iff.mp hfork).1
    rw [← Array.getElem?_toList, hp, List.getElem?_append_left hlt, hfork]
  copy := by
    rw [← Array.getElem?_toList, hq, List.getElem?_append_right (Nat.le_refl _), Nat.sub_self]
    rfl
  elsewhere := by
    intro pc hpc
    rw [← Array.getElem?_toList, ← Array.getElem?_toList, hp, hq]
    rcases Nat.lt_or_gt_of_ne hpc with hlt | hgt
    · rw [List.getElem?_append_left hlt, List.getElem?_append_left hlt]
    · obtain ⟨k, rfl⟩ := Nat.exists_eq_add_of_lt hgt
      rw [List.getElem?_append_right (by omega), List.getElem?_append_right (by omega),
        Nat.add_assoc, Nat.add_sub_cancel_left, List.getElem?_cons_succ, List.getElem?_cons_succ]
  groups := hgroups

/-- The run without the moves that are made at `back`. -/
def shorten (back : Nat) : Config → Run → Run
  | _, [] => []
  | c, m :: r => if c.pc = back then shorten back m.goal r else m :: shorten back m.goal r

/-- The run with a jump to `fork` before every move that is made at `back`. -/
def lengthen (back fork : Nat) : Config → Run → Run
  | _, [] => []
  | c, m :: r =>
    if c.pc = back then ⟨none, ⟨fork, c.offset⟩⟩ :: m :: lengthen back fork m.goal r
    else m :: lengthen back fork m.goal r

theorem shorten_sublist (back : Nat) (c : Config) (r : Run) : (shorten back c r).Sublist r := by
  induction r generalizing c with
  | nil => exact List.Sublist.refl []
  | cons m r ih =>
    rw [shorten]
    split_ifs
    · exact (ih m.goal).cons m
    · exact (ih m.goal).cons_cons m

theorem shorten_lengthen (h : fork ≠ back) (c : Config) (s : Run) :
    shorten back c (lengthen back fork c s) = s := by
  induction s generalizing c with
  | nil => rfl
  | cons m s ih =>
    rw [lengthen]
    split_ifs with hc
    · rw [shorten, if_pos hc, shorten, if_neg h, ih]
    · rw [shorten, if_neg hc, ih]

namespace Bypass

variable (h : Bypass p q back fork t u)

include h

theorem ne : fork ≠ back := by
  rintro rfl
  have hsplit := h.split
  rw [h.jump] at hsplit
  cases hsplit

theorem split' : q.code[fork]? = some (.split t u) :=
  (h.elsewhere fork h.ne).trans h.split

theorem slots : q.slots = p.slots := congrArg slotsFor h.groups

theorem final_iff : q.Final c ↔ p.Final c := by
  by_cases hc : c.pc = back
  · simp [Final, hc, h.jump, h.copy]
  · rw [Final, Final, h.elsewhere c.pc hc]

theorem accepts_shorten (hr : p.Accepts subject c r) : q.Accepts subject c (shorten back c r) := by
  induction r generalizing c with
  | nil => exact accepts_nil.mpr (h.final_iff.mpr (accepts_nil.mp hr))
  | cons m r ih =>
    obtain ⟨hm, hrest⟩ := accepts_cons.mp hr
    rw [shorten]
    split_ifs with hc
    · -- the jump is left out
      obtain ⟨pc, offset⟩ := c
      obtain rfl : pc = back := hc
      have hjump := h.jump
      obtain rfl : m = ⟨none, ⟨fork, offset⟩⟩ := by cases hm <;> simp_all
      exact (ih hrest).of_same_split h.split' h.copy
    · exact accepts_cons.mpr ⟨hm.congr (h.elsewhere _ hc), ih hrest⟩

theorem accepts_lengthen (hs : q.Accepts subject c s) :
    p.Accepts subject c (lengthen back fork c s) := by
  induction s generalizing c with
  | nil => exact accepts_nil.mpr (h.final_iff.mp (accepts_nil.mp hs))
  | cons m s ih =>
    obtain ⟨hm, hrest⟩ := accepts_cons.mp hs
    rw [lengthen]
    split_ifs with hc
    · obtain ⟨pc, offset⟩ := c
      obtain rfl : pc = back := hc
      -- the split is made at its own place
      have hsplit : q.Step subject ⟨fork, offset⟩ m := by
        have hcopy := h.copy
        have hfork := h.split'
        cases hm with
        | first hi =>
          obtain ⟨rfl, rfl⟩ : t = _ ∧ u = _ := by simpa [hcopy] using hi
          exact .first hfork
        | second hi =>
          obtain ⟨rfl, rfl⟩ : t = _ ∧ u = _ := by simpa [hcopy] using hi
          exact .second hfork
        | char hi | jump hi | save hi | nop hi => simp [hcopy] at hi
      refine accepts_cons.mpr ⟨.jump h.jump, accepts_cons.mpr ⟨hsplit.congr ?_, ih hrest⟩⟩
      exact (h.elsewhere fork h.ne).symm
    · exact accepts_cons.mpr ⟨hm.congr (h.elsewhere _ hc).symm, ih hrest⟩

theorem slotsAfter_lengthen (c : Config) (slots : Slots) (s : Run) :
    p.slotsAfter c slots (lengthen back fork c s) = q.slotsAfter c slots s := by
  induction s generalizing c slots with
  | nil => rfl
  | cons m s ih =>
    rw [lengthen]
    split_ifs with hc
    · obtain ⟨pc, offset⟩ := c
      obtain rfl : pc = back := hc
      rw [slotsAfter, slotsAfter, slotsAfter, note_of_jump h.jump, note_of_split h.split,
        note_of_split h.copy, ih]
    · rw [slotsAfter, slotsAfter, note_congr (h.elsewhere _ hc), ih]

theorem slotsOf_lengthen (s : Run) :
    p.slotsOf (lengthen back fork .start s) = q.slotsOf s := by
  rw [slotsOf, slotsOf, blankSlots, blankSlots, h.slots]
  exact h.slotsAfter_lengthen _ _ s

/-- Leaving out jumps does not change which run is preferred: a jump leaves no choice. -/
theorem preferred_shorten {r r' : Run} (hpref : Preferred r r') (hr : p.Path subject c r) :
    Preferred (shorten back c r) (shorten back c r') := by
  induction hpref generalizing c with
  | here r r' =>
    have hc : c.pc ≠ back := by
      intro hc
      have hjump := h.jump
      rw [← hc] at hjump
      obtain ⟨hm, -⟩ := hr
      cases hm
      simp_all
    rw [shorten, if_neg hc, shorten, if_neg hc]
    exact .here _ _
  | later m hpref ih =>
    rw [shorten, shorten]
    split_ifs
    · exact ih hr.2
    · exact .later m (ih hr.2)

/-! ## Simple runs -/

omit h in
/-- A configuration of the longer run is one of the shorter run, or comes from a jump. -/
theorem mem_along_lengthen {x : Config} (hx : x ∈ c.along (lengthen back fork c s)) :
    x ∈ c.along s ∨ (x.pc = fork ∧ ⟨back, x.offset⟩ ∈ c.along s) := by
  induction s generalizing c with
  | nil => exact .inl hx
  | cons m s ih =>
    have hlater : x ∈ m.goal.along (lengthen back fork m.goal s) →
        x ∈ c.along (m :: s) ∨ (x.pc = fork ∧ ⟨back, x.offset⟩ ∈ c.along (m :: s)) := by
      intro hx
      exact (ih hx).imp (List.mem_cons_of_mem c) (And.imp_right (List.mem_cons_of_mem c))
    rw [lengthen] at hx
    split_ifs at hx with hc
    · rcases List.mem_cons.mp hx with rfl | hx
      · exact .inl List.mem_cons_self
      · rcases List.mem_cons.mp hx with rfl | hx
        · refine .inr ⟨rfl, ?_⟩
          rw [← hc]
          exact List.mem_cons_self
        · exact hlater hx
    · rcases List.mem_cons.mp hx with rfl | hx
      · exact .inl List.mem_cons_self
      · exact hlater hx

theorem nodup_lengthen (hs : (c.along s).Nodup)
    (hapart : ∀ offset, ⟨back, offset⟩ ∈ c.along s → ⟨fork, offset⟩ ∉ c.along s) :
    (c.along (lengthen back fork c s)).Nodup := by
  induction s generalizing c with
  | nil => exact hs
  | cons m s ih =>
    obtain ⟨hc, hs⟩ := List.nodup_cons.mp hs
    have hapart' : ∀ offset, ⟨back, offset⟩ ∈ m.goal.along s → ⟨fork, offset⟩ ∉ m.goal.along s :=
      fun offset hback hfork =>
        hapart offset (List.mem_cons_of_mem c hback) (List.mem_cons_of_mem c hfork)
    have hmore := ih hs hapart'
    rw [lengthen]
    split_ifs with hpc
    · obtain ⟨pc, offset⟩ := c
      obtain rfl : pc = back := hpc
      have hfork := hapart offset List.mem_cons_self
      refine List.nodup_cons.mpr ⟨fun hmem => ?_, List.nodup_cons.mpr ⟨fun hmem => ?_, hmore⟩⟩
      · rcases List.mem_cons.mp hmem with heq | hmem
        · exact h.ne (Config.mk.inj heq).1.symm
        · rcases mem_along_lengthen hmem with hmem | ⟨heq, -⟩
          · exact hc hmem
          · exact h.ne heq.symm
      · rcases mem_along_lengthen hmem with hmem | ⟨-, hmem⟩
        · exact hfork (List.mem_cons_of_mem _ hmem)
        · exact hc hmem
    · refine List.nodup_cons.mpr ⟨fun hmem => ?_, hmore⟩
      rcases mem_along_lengthen hmem with hmem | ⟨heq, hmem⟩
      · exact hc hmem
      · refine hapart c.offset (List.mem_cons_of_mem c hmem) ?_
        rw [← heq]
        exact List.mem_cons_self

/-- The best run of the program without the jump corresponds to that of the other one, if it does
not come to both splits at one offset. -/
theorem mostPreferred_lengthen (hs : q.MostPreferred subject s)
    (hapart : ∀ offset, ⟨back, offset⟩ ∈ Config.start.along s →
      ⟨fork, offset⟩ ∉ Config.start.along s) :
    p.MostPreferred subject (lengthen back fork .start s) := by
  have haccepts := h.accepts_lengthen hs.accepts
  refine ⟨haccepts, h.nodup_lengthen hs.simple hapart, fun r hr hsimple => ?_⟩
  rcases haccepts.path.comparable hr.path haccepts.final hr.final with heq | hpref | hpref
  · exact .inl heq.symm
  · exact .inr hpref
  · -- the run would be better than the best one without the jump, too
    have hbetter := h.preferred_shorten hpref hr.path
    rw [shorten_lengthen h.ne] at hbetter
    have hnodup : Simple (shorten back .start r) :=
      (((shorten_sublist back .start r).map Move.goal).cons_cons Config.start).nodup hsimple
    exact absurd hbetter (hs.not_preferred (h.accepts_shorten hr) hnodup)

/-- **Success**: one program finds something where the other one does. -/
theorem isSome_captures (subject : String) :
    ((Machine.ofProgram p).captures subject).1.isSome =
      ((Machine.ofProgram q).captures subject).1.isSome := by
  have hp := Machine.captures_eq_none_iff (Machine.fits_ofProgram p) subject
  have hq := Machine.captures_eq_none_iff (Machine.fits_ofProgram q) subject
  have hsame : ((Machine.ofProgram p).captures subject).1 = none ↔
      ((Machine.ofProgram q).captures subject).1 = none := by
    rw [hp, hq]
    constructor
    · intro hno s hs
      exact hno _ (h.accepts_lengthen hs)
    · intro hno r hr
      exact hno _ (h.accepts_shorten hr)
  rw [Bool.eq_iff_iff, Option.isSome_iff_ne_none, Option.isSome_iff_ne_none, not_iff_not]
  exact hsame

end Bypass

/-! ## Slipping -/

/-- From the instruction at one place control may go on at the other one without reading
anything. -/
inductive Slips (p : Program) : Nat → Nat → Prop where
  /-- to the target of a jump -/
  | jump {pc target : Nat} (hi : p.code[pc]? = some (.jump target)) : Slips p pc target
  /-- to the preferred target of a split -/
  | first {pc t u : Nat} (hi : p.code[pc]? = some (.split t u)) : Slips p pc t
  /-- to its other target -/
  | second {pc t u : Nat} (hi : p.code[pc]? = some (.split t u)) : Slips p pc u
  /-- behind a save -/
  | save {pc slot : Nat} (hi : p.code[pc]? = some (.save slot)) : Slips p pc (pc + 1)
  /-- behind an instruction that does nothing -/
  | nop {pc : Nat} (hi : p.code[pc]? = some .nop) : Slips p pc (pc + 1)

/-- Any number of slips. -/
abbrev Slides (p : Program) : Nat → Nat → Prop := Relation.ReflTransGen p.Slips

/-- A move that stays at its offset slips. -/
theorem Step.slips {m : Move} (hm : p.Step subject c m) (hoffset : m.goal.offset = c.offset) :
    p.Slips c.pc m.goal.pc := by
  cases hm with
  | @char _ _ d hi hc =>
    have hpos := d.utf8Size_pos
    simp only at hoffset
    omega
  | jump hi => exact .jump hi
  | first hi => exact .first hi
  | second hi => exact .second hi
  | save hi => exact .save hi
  | nop hi => exact .nop hi

/-- A run that ends at the offset at which it began slides. -/
theorem Path.slides (hr : p.Path subject c r) (hoffset : (c.after r).offset = c.offset) :
    p.Slides c.pc (c.after r).pc := by
  induction r generalizing c with
  | nil => exact .refl
  | cons m r ih =>
    obtain ⟨hm, hr⟩ := hr
    rw [Config.after_cons] at hoffset ⊢
    have hfirst := hm.offset_le
    have hmore := (hr.offset_le _ (Config.after_mem_along _ r)).1
    have hgoal : m.goal.offset = c.offset := by omega
    exact .head (hm.slips hgoal) (ih hr (hoffset.trans hgoal.symm))

/-- If the best run comes to two copies of a split at one offset, it takes the first target at the
one and slides from there to the other. Otherwise it could have left out what is in between. -/
theorem MostPreferred.slides {a b offset : Nat} {front between rest : Run}
    (hs : p.MostPreferred subject (front ++ (between ++ rest)))
    (ha : p.code[a]? = some (.split t u))
    (hb : p.code[b]? = some (.split t u)) (hfront : Config.start.after front = ⟨a, offset⟩)
    (hbetween : Config.after ⟨a, offset⟩ between = ⟨b, offset⟩) (hne : between ≠ []) :
    p.Slides t b := by
  obtain ⟨hpath, hrest⟩ := accepts_append.mp hs.accepts
  rw [hfront] at hrest
  obtain ⟨m, between, rfl⟩ := List.exists_cons_of_ne_nil hne
  obtain ⟨hm, hmore⟩ := accepts_cons.mp hrest
  rw [Config.after_cons] at hbetween
  obtain ⟨hmid, hend⟩ := accepts_append.mp hmore
  rw [hbetween] at hend
  rcases hrest.of_split ha with ⟨s, heq, -⟩ | ⟨s, heq, -⟩
  · obtain ⟨rfl, -⟩ := List.cons.inj heq
    have hslides := hmid.slides (by rw [hbetween])
    rwa [hbetween] at hslides
  · obtain ⟨rfl, -⟩ := List.cons.inj heq
    rcases hend.of_split hb with ⟨s, rfl, hs'⟩ | ⟨s, rfl, hs'⟩
    · -- the first target was there to take before
      have hshort : p.Accepts subject .start (front ++ ⟨some .first, ⟨t, offset⟩⟩ :: s) := by
        refine accepts_append.mpr ⟨hpath, ?_⟩
        rw [hfront]
        exact accepts_cons.mpr ⟨.first ha, hs'⟩
      have hsub : (front ++ ⟨some .first, ⟨t, offset⟩⟩ :: s).Sublist
          (front ++ (⟨some .second, ⟨u, offset⟩⟩ :: between ++ ⟨some .first, ⟨t, offset⟩⟩ :: s)) :=
        (List.sublist_append_right _ _).append_left front
      have hsimple : Simple (front ++ ⟨some .first, ⟨t, offset⟩⟩ :: s) :=
        ((hsub.map Move.goal).cons_cons Config.start).nodup hs.simple
      refine absurd ?_ (hs.not_preferred hshort hsimple)
      exact (Preferred.append_left_iff front).mpr (.here _ _)
    · -- the second target would be reached twice
      have hsimple := hs.simple
      rw [Simple, Config.along, List.nodup_cons, List.map_append, List.nodup_append'] at hsimple
      have hdup := hsimple.2.2.1
      rw [List.cons_append, List.map_cons, List.nodup_cons] at hdup
      refine absurd ?_ hdup.1
      simp

/-- **No return**: if control does not slide back to a split from its preferred target, both
programs find the same. -/
theorem Bypass.captures_eq (h : Bypass p q back fork t u) (hfork : ¬ q.Slides t fork)
    (hback : ¬ q.Slides t back) (subject : String) :
    ((Machine.ofProgram p).captures subject).1 = ((Machine.ofProgram q).captures subject).1 := by
  have hp := Machine.fits_ofProgram p
  have hq := Machine.fits_ofProgram q
  cases hcaptures : ((Machine.ofProgram q).captures subject).1 with
  | none =>
    have hsame := h.isSome_captures subject
    rw [hcaptures] at hsame
    exact Option.isNone_iff_eq_none.mp (by simpa using hsame)
  | some found =>
    obtain ⟨s, hs, rfl⟩ := (Machine.captures_eq_some_iff hq subject found).mp hcaptures
    rw [Machine.program_ofProgram] at hs ⊢
    have hapart : ∀ offset, ⟨back, offset⟩ ∈ Config.start.along s →
        ⟨fork, offset⟩ ∉ Config.start.along s := by
      intro offset hmem hmem'
      have hne : (⟨back, offset⟩ : Config) ≠ ⟨fork, offset⟩ := by
        intro heq
        exact h.ne (Config.mk.inj heq).1.symm
      obtain ⟨front, between, rest, rfl, hbetween, ⟨hfirst, hthen⟩ | ⟨hfirst, hthen⟩⟩ :=
        Config.exists_between hmem hmem' hne
      · exact hfork (hs.slides h.copy h.split' hfirst hthen hbetween)
      · exact hback (hs.slides h.split' h.copy hfirst hthen hbetween)
    have hbest := h.mostPreferred_lengthen hs hapart
    rw [Machine.captures_of_mostPreferred hp hbest, Machine.program_ofProgram, h.slotsOf_lengthen]

end Program

end RegexMachine
