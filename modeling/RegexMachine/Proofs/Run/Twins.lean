import RegexMachine.Proofs.Run.Captures

/-!
# Machines side by side

Two machines with different programs read one subject. The programs do the same at places that
correspond to each other, and a relation between thread lists says how far the machines agree:

* **alike** — at two places the instructions are the same, up to targets, and control goes on at
  places that correspond (`Program.Alike`);
* **matched** — the threads of two lists stand at such places with the same slots, and the lists
  have the same marks (`Matched`);
* **in step** — if following keeps a relation between the lists, both machines find the same, with
  the same number of threads at each offset (`InStep.captures`).
-/

namespace RegexMachine

/-- Two threads with the same slots, at places that correspond to each other. -/
structure Thread.Beside (Goes : Nat → Nat → Prop) (t t' : Thread) : Prop where
  /-- they have the same slots -/
  slots_eq : t'.slots = t.slots
  /-- their places correspond -/
  place : Goes t.pc t'.pc

namespace Program

variable {p q : Program} {Goes Same : Nat → Nat → Prop} {offset a b x y : Nat}

/-- The instructions at two places are the same, but that control goes on at corresponding
places. -/
inductive Alike (p q : Program) (Goes : Nat → Nat → Prop) (a b : Nat) : Prop where
  /-- both read the same character -/
  | char {c : Char} (ha : p.code[a]? = some (.char c)) (hb : q.code[b]? = some (.char c))
      (hnext : Goes (a + 1) (b + 1))
  /-- both accept -/
  | accept (ha : p.code[a]? = some .accept) (hb : q.code[b]? = some .accept)
  /-- both jump -/
  | jump {t u : Nat} (ha : p.code[a]? = some (.jump t)) (hb : q.code[b]? = some (.jump u))
      (htarget : Goes t u)
  /-- both split -/
  | split {t u t' u' : Nat} (ha : p.code[a]? = some (.split t t'))
      (hb : q.code[b]? = some (.split u u')) (hfirst : Goes t u) (hsecond : Goes t' u')
  /-- both note the offset in the same slot -/
  | save {slot : Nat} (ha : p.code[a]? = some (.save slot)) (hb : q.code[b]? = some (.save slot))
      (hnext : Goes (a + 1) (b + 1))
  /-- both do nothing -/
  | nop (ha : p.code[a]? = some .nop) (hb : q.code[b]? = some .nop) (hnext : Goes (a + 1) (b + 1))
  /-- there is no instruction at either place -/
  | outside (ha : p.code[a]? = none) (hb : q.code[b]? = none)

/-- Where instructions are alike, both threads have to wait, or both go on. -/
theorem Alike.expand (h : p.Alike q Goes a b) (offset : Nat) (s : Slots) :
    (p.expand offset ⟨a, s⟩ = none ∧ q.expand offset ⟨b, s⟩ = none) ∨
      ∃ onward onward', p.expand offset ⟨a, s⟩ = some onward ∧
        q.expand offset ⟨b, s⟩ = some onward' ∧
        List.Forall₂ (Thread.Beside Goes) onward onward' := by
  rw [Program.expand, Program.expand]
  cases h with
  | char ha hb | accept ha hb =>
    rw [ha, hb]
    exact .inl ⟨rfl, rfl⟩
  | jump ha hb htarget =>
    rw [ha, hb]
    exact .inr ⟨_, _, rfl, rfl, .cons ⟨rfl, htarget⟩ .nil⟩
  | split ha hb hfirst hsecond =>
    rw [ha, hb]
    exact .inr ⟨_, _, rfl, rfl, .cons ⟨rfl, hfirst⟩ (.cons ⟨rfl, hsecond⟩ .nil)⟩
  | save ha hb hnext | nop ha hb hnext =>
    rw [ha, hb]
    exact .inr ⟨_, _, rfl, rfl, .cons ⟨rfl, hnext⟩ .nil⟩
  | outside ha hb =>
    rw [ha, hb]
    exact .inr ⟨[], [], rfl, rfl, .nil⟩

theorem Alike.expand_eq_none {s : Slots} (h : p.Alike q Goes a b)
    (hp : p.expand offset ⟨a, s⟩ = none) : q.expand offset ⟨b, s⟩ = none := by
  rcases h.expand offset s with ⟨-, hq⟩ | ⟨_, _, hsome, -⟩
  · exact hq
  · rw [hp] at hsome
    cases hsome

theorem Alike.expand_eq_some {s : Slots} {onward : List Thread} (h : p.Alike q Goes a b)
    (hp : p.expand offset ⟨a, s⟩ = some onward) :
    ∃ onward', q.expand offset ⟨b, s⟩ = some onward' ∧
      List.Forall₂ (Thread.Beside Goes) onward onward' := by
  rcases h.expand offset s with ⟨hnone, -⟩ | ⟨_, onward', hsome, hq, honward⟩
  · rw [hp] at hnone
    cases hnone
  · obtain rfl := Option.some.inj (hp.symm.trans hsome)
    exact ⟨onward', hq, honward⟩

/-! ## Matching lists -/

/-- Two lists with the same threads and the same marks, as far as places correspond. -/
structure Matched (p q : Program) (Goes Same : Nat → Nat → Prop) (list list' : ThreadList) :
    Prop where
  /-- the threads wait for the same -/
  threads : List.Forall₂ (Thread.Beside (p.Alike q Goes)) list.threads.toList list'.threads.toList
  /-- the same places are marked -/
  marks : ∀ a b, Same a b → list'.isFresh b = list.isFresh a

namespace Matched

variable {list list' : ThreadList}

theorem mark (h : p.Matched q Goes Same list list')
    (hsame : ∀ c d, Same c d → (c = a ↔ d = b)) :
    p.Matched q Goes Same (list.mark a) (list'.mark b) where
  threads := h.threads
  marks c d hcd := by
    have hiff := hsame c d hcd
    rw [ThreadList.isFresh_mark, ThreadList.isFresh_mark, h.marks c d hcd]
    by_cases hc : c = a
    · rw [hc, hiff.mp hc, bne_self_eq_false, bne_self_eq_false]
    · rw [bne_iff_ne.mpr hc, bne_iff_ne.mpr fun hd => hc (hiff.mpr hd)]

/-- A mark at a place of the first program to which none corresponds. -/
theorem mark_left (h : p.Matched q Goes Same list list') (hsame : ∀ c d, Same c d → c ≠ a) :
    p.Matched q Goes Same (list.mark a) list' where
  threads := h.threads
  marks c d hcd := by
    rw [ThreadList.isFresh_mark, h.marks c d hcd]
    simp [hsame c d hcd]

/-- A mark at a place of the second program to which none corresponds. -/
theorem mark_right (h : p.Matched q Goes Same list list') (hsame : ∀ c d, Same c d → d ≠ b) :
    p.Matched q Goes Same list (list'.mark b) where
  threads := h.threads
  marks c d hcd := by
    rw [ThreadList.isFresh_mark, h.marks c d hcd]
    simp [hsame c d hcd]

theorem park {s : Slots} (h : p.Matched q Goes Same list list') (halike : p.Alike q Goes a b) :
    p.Matched q Goes Same (list.park ⟨a, s⟩) (list'.park ⟨b, s⟩) where
  threads := by
    simp only [ThreadList.park, Array.toList_push]
    exact List.rel_append h.threads (.cons ⟨rfl, halike⟩ .nil)
  marks := h.marks

/-- Lists match that have no threads yet and no marks. -/
theorem of_blank (hsize : q.size = p.size) (hinside : ∀ a b, Same a b → (b < p.size ↔ a < p.size))
    (h : list.Blank p.size) (h' : list'.Blank q.size) : p.Matched q Goes Same list list' where
  threads := by
    rw [h.threads_eq, h'.threads_eq]
    exact .nil
  marks a b hab := by
    have hout {l : ThreadList} {n pc : Nat} (hl : l.Blank n) (hpc : ¬ pc < n) :
        l.isFresh pc = false := by
      simp [ThreadList.isFresh, Array.getElem?_eq_none (hl.size_eq ▸ Nat.le_of_not_lt hpc)]
    rw [hsize] at h'
    by_cases ha : a < p.size
    · rw [h.fresh a ha, h'.fresh b ((hinside a b hab).mpr ha)]
    · rw [hout h ha, hout h' fun hb => ha ((hinside a b hab).mp hb)]

theorem size_eq (h : p.Matched q Goes Same list list') : list'.size = list.size := by
  have hlength := h.threads.length_eq
  rw [Array.length_toList, Array.length_toList] at hlength
  exact hlength.symm

end Matched

/-! ## Machines in step -/

/-- A relation between the lists of two machines that is kept when threads are followed. -/
structure InStep (p q : Program) (Goes Same : Nat → Nat → Prop)
    (R : ThreadList → ThreadList → Prop) : Prop where
  /-- there are the same slots -/
  slots_eq : q.slots = p.slots
  /-- the programs start at corresponding places -/
  start : Goes 0 0
  /-- the lists have the same threads -/
  matched : ∀ {list list'}, R list list' → p.Matched q Goes Same list list'
  /-- it holds of lists without threads and marks -/
  blank : ∀ {list list'}, list.Blank p.size → list'.Blank q.size → R list list'
  /-- following corresponding threads keeps it -/
  follow : ∀ {list list'} (offset : Nat) {a b : Nat} (s : Slots), R list list' → Goes a b →
    R (p.follow offset list [⟨a, s⟩]) (q.follow offset list' [⟨b, s⟩])

namespace InStep

variable {R : ThreadList → ThreadList → Prop} {m m' : Machine}

/-- **One offset**: both machines build lists in the relation, and have the same result so far. -/
theorem sweep (h : p.InStep q Goes Same R) (c : Option Char) (after : Nat) (found : Option Slots)
    {next next' : ThreadList} {ts ts' : List Thread} (hnext : R next next')
    (hts : List.Forall₂ (Thread.Beside (p.Alike q Goes)) ts ts') :
    R (p.sweep c after next found ts).1 (q.sweep c after next' found ts').1 ∧
      (q.sweep c after next' found ts').2 = (p.sweep c after next found ts).2 := by
  induction hts generalizing next next' with
  | nil => exact ⟨hnext, rfl⟩
  | @cons t t' ts ts' ht hts ih =>
    obtain ⟨hslots, halike⟩ := ht
    rw [Program.sweep, Program.sweep]
    cases halike with
    | char ha hb hgoes =>
      simp only [ha, hb, hslots]
      split_ifs
      · exact ih (h.follow after t.slots hnext hgoes)
      · exact ih hnext
    | accept ha hb =>
      simp only [ha, hb, hslots]
      exact ⟨hnext, trivial⟩
    | jump ha hb | split ha hb | save ha hb | nop ha hb | outside ha hb =>
      simp only [ha, hb]
      exact ih hnext

/-- Two machines in the middle of their runs. -/
structure Machines (p q : Program) (R : ThreadList → ThreadList → Prop) (m m' : Machine) :
    Prop where
  /-- the one machine runs `p` -/
  program : m.program = p
  /-- the other one runs `q` -/
  program' : m'.program = q
  /-- the lists of the one fit its program -/
  fits : m.Fits
  /-- those of the other one as well -/
  fits' : m'.Fits
  /-- the current lists are in step -/
  current : R m.current m'.current
  /-- the next list of the one is blank -/
  next : m.next.Blank p.size
  /-- that of the other one as well -/
  next' : m'.next.Blank q.size
  /-- so far both had the same number of threads -/
  peak_eq : m'.peak = m.peak

theorem step (h : p.InStep q Goes Same R) (hm : Machines p q R m m') (c : Option Char) (after : Nat)
    (found : Option Slots) :
    Machines p q R (m.step c after found).1 (m'.step c after found).1 ∧
      (m'.step c after found).2 = (m.step c after found).2 := by
  have hmatched := h.matched hm.current
  obtain ⟨hcurrent, hfound⟩ :=
    h.sweep c after found (h.blank hm.next hm.next') hmatched.threads
  simp only [Machine.step, hm.program, hm.program']
  refine ⟨⟨rfl, rfl, ?_, ?_, hcurrent, ?_, ?_, ?_⟩, hfound⟩
  · simpa [Machine.step, hm.program] using hm.fits.step c after found
  · simpa [Machine.step, hm.program'] using hm.fits'.step c after found
  · have hblank := m.current.blank_clear
    rwa [hm.fits.current, hm.program] at hblank
  · have hblank := m'.current.blank_clear
    rwa [hm.fits'.current, hm.program'] at hblank
  · simp only [hm.peak_eq, hmatched.size_eq]

theorem feed (h : p.InStep q Goes Same R) (hm : Machines p q R m m') (offset : Nat)
    (found : Option Slots) (cs : List Char) :
    (m'.feed offset found cs).2 = (m.feed offset found cs).2 ∧
      (m'.feed offset found cs).1.peak = (m.feed offset found cs).1.peak := by
  induction cs generalizing m m' offset found with
  | nil =>
    obtain ⟨hstep, hfound⟩ := h.step hm none offset found
    exact ⟨hfound, hstep.peak_eq⟩
  | cons c cs ih =>
    obtain ⟨hstep, hfound⟩ := h.step hm (some c) (offset + c.utf8Size) found
    rw [Machine.feed_cons, Machine.feed_cons, (h.matched hstep.current).size_eq, hfound]
    split_ifs
    · exact ⟨hfound, hstep.peak_eq⟩
    · exact ih hstep _ _

theorem machines_reset (h : p.InStep q Goes Same R) :
    Machines p q R (Machine.ofProgram p).reset (Machine.ofProgram q).reset where
  program := rfl
  program' := rfl
  fits := (Machine.fits_ofProgram p).reset
  fits' := (Machine.fits_ofProgram q).reset
  current := by
    have hblank : (Machine.ofProgram p).current.clear.Blank p.size :=
      (Machine.fits_ofProgram p).current ▸ ThreadList.blank_clear _
    have hblank' : (Machine.ofProgram q).current.clear.Blank q.size :=
      (Machine.fits_ofProgram q).current ▸ ThreadList.blank_clear _
    have hfollow := h.follow 0 p.blankSlots (h.blank hblank hblank') h.start
    rw [blankSlots] at hfollow
    simpa only [Machine.reset, Machine.program_ofProgram, h.slots_eq] using hfollow
  next := (Machine.fits_ofProgram p).next ▸ ThreadList.blank_clear _
  next' := (Machine.fits_ofProgram q).next ▸ ThreadList.blank_clear _
  peak_eq := rfl

/-- **In step**: both machines find the same, with the same number of threads. -/
theorem captures (h : p.InStep q Goes Same R) (subject : String) :
    ((Machine.ofProgram q).captures subject).1 = ((Machine.ofProgram p).captures subject).1 ∧
      ((Machine.ofProgram q).captures subject).2.peak =
        ((Machine.ofProgram p).captures subject).2.peak := by
  obtain ⟨hfound, hpeak⟩ := h.feed h.machines_reset 0 none subject.toList
  rw [Machine.captures_fst, Machine.captures_fst, hfound]
  exact ⟨rfl, hpeak⟩

end InStep

end Program

end RegexMachine
