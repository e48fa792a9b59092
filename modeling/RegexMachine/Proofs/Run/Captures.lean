import RegexMachine.Proofs.Run.Lockstep

/-!
# The machine finds the most preferred run

A machine starts with one thread, and reads its subject character by character. When it stops no
thread is left, so that what it found belongs to the most preferred run.

This holds of a machine that was used before as well: its lists are cleared, and they always have
marks for all instructions.
-/

namespace RegexMachine

/-! ## Blank lists -/

/-- A list without threads and marks, for a program of so many instructions. -/
structure ThreadList.Blank (list : ThreadList) (size : Nat) : Prop where
  /-- there is a mark for every instruction -/
  size_eq : list.visited.size = size
  /-- no instruction is marked -/
  fresh : ∀ pc < size, list.isFresh pc = true
  /-- there are no threads -/
  threads_eq : list.threads = #[]

theorem ThreadList.blank_clear (list : ThreadList) : list.clear.Blank list.visited.size where
  size_eq := by simp [clear]
  fresh pc hpc := by simp [isFresh, clear, hpc]
  threads_eq := rfl

/-- The lists of a machine have marks for all instructions of its program. -/
structure Machine.Fits (m : Machine) : Prop where
  /-- those of the current list -/
  current : m.current.visited.size = m.program.size
  /-- those of the next list -/
  next : m.next.visited.size = m.program.size

@[simp] theorem Machine.program_ofProgram (p : Program) : (ofProgram p).program = p := rfl

theorem Machine.fits_ofProgram (p : Program) : (Machine.ofProgram p).Fits where
  current := by simp [ofProgram, ThreadList.empty]
  next := by simp [ofProgram, ThreadList.empty]

theorem Machine.feed_cons (m : Machine) (offset : Nat) (found : Option Slots) (c : Char)
    (cs : List Char) :
    m.feed offset found (c :: cs) =
      if (m.step (some c) (offset + c.utf8Size) found).1.current.size = 0 then
        m.step (some c) (offset + c.utf8Size) found
      else
        (m.step (some c) (offset + c.utf8Size) found).1.feed (offset + c.utf8Size)
          (m.step (some c) (offset + c.utf8Size) found).2 cs := rfl

namespace Program

variable {p : Program} {subject : String} {offset after : Nat} {list : ThreadList}
  {parked : List Run} {found : Option Slots} {m : Machine}

theorem tracks_of_blank {later : List Run} (h : list.Blank p.size)
    (hlater : later.Pairwise Preferred) : p.Tracks subject offset list [] [] later where
  size_eq := h.size_eq
  threads_eq := by simp [h.threads_eq]
  rests := by simp
  approaches := by simp
  sorted := by simpa using hlater
  marks pc hpc hmark := by simp [h.fresh pc hpc] at hmark

/-- The first thread, on the stack of a blank list. -/
theorem tracks_seed (subject : String) (h : list.Blank p.size) :
    p.Tracks subject 0 list [] [[]] [] where
  size_eq := h.size_eq
  threads_eq := by simp [h.threads_eq]
  rests := by simp
  approaches r hr := by
    obtain rfl := List.mem_singleton.mp hr
    exact ⟨trivial, rfl, fun _ => List.nodup_singleton _,
      fun x hx _ => .inl (List.mem_singleton.mp hx)⟩
  sorted := by simp
  marks pc hpc hmark := by simp [h.fresh pc hpc] at hmark

theorem Tracks.machine_step {c : Option Char} (after : Nat) (hm : m.program = p)
    (hcurrent : p.Tracks subject offset m.current parked [] []) (hnext : m.next.Blank p.size)
    (hc : Text.charAt? subject offset = c) (hafter : ∀ d, c = some d → after = offset + d.utf8Size)
    (htells : p.Tells subject found parked) :
    (m.step c after found).1.next.Blank p.size ∧
    ∃ parked', p.Tracks subject after (m.step c after found).1.current parked' [] [] ∧
      p.Tells subject (m.step c after found).2 parked' := by
  refine ⟨hcurrent.size_eq ▸ m.current.blank_clear, ?_⟩
  have hsorted : parked.Pairwise Preferred := by simpa using hcurrent.sorted
  simp only [Machine.step, hm, hcurrent.threads_eq]
  exact (tracks_of_blank hnext hsorted).sweep hc hafter hcurrent.rests htells

/-- **The whole subject**: in the end no run goes on. -/
theorem Tracks.feed (front back : List Char) (hm : m.program = p)
    (hcurrent : p.Tracks subject offset m.current parked [] []) (hnext : m.next.Blank p.size)
    (hsubject : subject.toList = front ++ back) (hoffset : Text.byteSize front = offset)
    (htells : p.Tells subject found parked) :
    p.Tells subject (m.feed offset found back).2 [] := by
  have hc : Text.charAt? subject offset = back.head? := hoffset ▸ Text.charAt?_of_toList hsubject
  induction back generalizing m front offset found parked with
  | nil =>
    obtain ⟨-, parked', htracks, htells'⟩ :=
      hcurrent.machine_step offset hm hnext hc (by simp) htells
    rw [Machine.feed]
    -- the next list is still blank
    have hempty : (m.step none offset found).1.current.size = 0 := by
      simp [Machine.step, sweep_none, ThreadList.size, hnext.threads_eq]
    rwa [htracks.parked_eq_nil hempty] at htells'
  | cons d back ih =>
    obtain ⟨hnext', parked', htracks, htells'⟩ :=
      hcurrent.machine_step (offset + d.utf8Size) hm hnext hc (by simp) htells
    rw [Machine.feed_cons]
    split_ifs with hempty
    · -- all threads are gone
      rwa [htracks.parked_eq_nil hempty] at htells'
    · have hsubject' : subject.toList = (front ++ [d]) ++ back := by simpa using hsubject
      have hoffset' : Text.byteSize (front ++ [d]) = offset + d.utf8Size := by simp [hoffset]
      exact ih (front ++ [d]) (by exact hm) htracks hnext' hsubject' hoffset' htells'
        (hoffset' ▸ Text.charAt?_of_toList hsubject')

end Program

namespace Machine

variable {m : Machine} {subject : String}

theorem captures_fst (m : Machine) (subject : String) :
    (m.captures subject).1 = (m.reset.feed 0 none subject.toList).2.map (⟨subject, ·⟩) := rfl

theorem tells_feed (h : m.Fits) :
    m.program.Tells subject (m.reset.feed 0 none subject.toList).2 [] := by
  have hcurrent : m.current.clear.Blank m.program.size := h.current ▸ m.current.blank_clear
  have hnext : m.next.clear.Blank m.program.size := h.next ▸ m.next.blank_clear
  obtain ⟨parked, htracks, hkeep⟩ := (Program.tracks_seed subject hcurrent).follow
  have htells : m.program.Tells subject none parked := by
    refine ⟨by simp, fun best hbest => ?_⟩
    simpa using hkeep best none hbest (.inl ⟨[], by simp, List.nil_prefix⟩)
  exact htracks.feed (m := m.reset) [] subject.toList rfl hnext rfl rfl htells

/-- The result of the machine is that of the most preferred run. -/
theorem captures_of_mostPreferred (h : m.Fits) {best : Run}
    (hbest : m.program.MostPreferred subject best) :
    (m.captures subject).1 = some ⟨subject, m.program.slotsOf best⟩ := by
  rcases (tells_feed h).keeps best hbest with ⟨r, hr, -⟩ | ⟨hslots, -⟩
  · exact absurd hr List.not_mem_nil
  · rw [captures_fst, hslots]
    rfl

/-- The machine finds nothing where no run reaches a match. -/
theorem captures_eq_none_iff (h : m.Fits) (subject : String) :
    (m.captures subject).1 = none ↔ ∀ r, ¬ m.program.Accepts subject .start r := by
  constructor
  · intro hnone r hr
    obtain ⟨best, hbest⟩ := hr.exists_mostPreferred
    rw [captures_of_mostPreferred h hbest] at hnone
    cases hnone
  · intro hno
    by_contra hsome
    rw [captures_fst, Option.map_eq_none_iff, ← ne_eq, ← Option.isSome_iff_ne_none] at hsome
    obtain ⟨r, hr⟩ := (tells_feed h).sound hsome
    exact hno r hr

/-- What the machine finds is what the most preferred run noted. -/
theorem captures_eq_some_iff (h : m.Fits) (subject : String) (c : Captures) :
    (m.captures subject).1 = some c ↔
      ∃ r, m.program.MostPreferred subject r ∧ c = ⟨subject, m.program.slotsOf r⟩ := by
  constructor
  · intro hsome
    by_contra hno
    have hnone : (m.captures subject).1 = none := by
      refine (captures_eq_none_iff h subject).mpr fun r hr => ?_
      obtain ⟨best, hbest⟩ := hr.exists_mostPreferred
      rw [captures_of_mostPreferred h hbest] at hsome
      exact hno ⟨best, hbest, (Option.some.inj hsome).symm⟩
    rw [hnone] at hsome
    cases hsome
  · rintro ⟨r, hr, rfl⟩
    exact captures_of_mostPreferred h hr

end Machine

/-! ## Used machines -/

@[simp] theorem ThreadList.size_visited_mark (list : ThreadList) (pc : Nat) :
    (list.mark pc).visited.size = list.visited.size := by
  simp [mark]

@[simp] theorem ThreadList.size_visited_clear (list : ThreadList) :
    list.clear.visited.size = list.visited.size := by
  simp [clear]

theorem Program.size_visited_follow (p : Program) (offset : Nat) (list : ThreadList)
    (stack : List Thread) : (p.follow offset list stack).visited.size = list.visited.size := by
  induction list, stack using Program.follow.induct p offset with
  | case1 list => rw [follow]
  | case2 list t stack hfresh hexpand ih =>
    rw [follow, dif_pos hfresh, hexpand]
    simpa [ThreadList.park] using ih
  | case3 list t stack hfresh onward hexpand ih =>
    rw [follow, dif_pos hfresh, hexpand]
    simpa using ih
  | case4 list t stack hlate ih => rwa [follow, dif_neg hlate]

theorem Program.size_visited_sweep (p : Program) (c : Option Char) (after : Nat) (list : ThreadList)
    (found : Option Slots) (threads : List Thread) :
    (p.sweep c after list found threads).1.visited.size = list.visited.size := by
  induction threads generalizing list with
  | nil => rfl
  | cons t threads ih =>
    rw [sweep]
    split
    · rfl
    · split
      · rw [ih, size_visited_follow]
      · exact ih list
    · exact ih list

namespace Machine

variable {m : Machine}

theorem Fits.step (h : m.Fits) (c : Option Char) (after : Nat) (found : Option Slots) :
    (m.step c after found).1.Fits where
  current := (m.program.size_visited_sweep ..).trans h.next
  next := m.current.size_visited_clear.trans h.current

theorem Fits.feed (h : m.Fits) (offset : Nat) (found : Option Slots) (cs : List Char) :
    (m.feed offset found cs).1.Fits := by
  induction cs generalizing m offset found with
  | nil => exact h.step none offset found
  | cons c cs ih =>
    rw [feed_cons]
    split_ifs
    · exact h.step (some c) _ found
    · exact ih (h.step (some c) _ found) _ _

theorem Fits.reset (h : m.Fits) : m.reset.Fits where
  current := by
    simpa [Machine.reset, Program.size_visited_follow] using h.current
  next := m.next.size_visited_clear.trans h.next

theorem Fits.captures (h : m.Fits) (subject : String) : (m.captures subject).2.Fits :=
  h.reset.feed 0 none subject.toList

theorem program_feed (m : Machine) (offset : Nat) (found : Option Slots) (cs : List Char) :
    (m.feed offset found cs).1.program = m.program := by
  induction cs generalizing m offset found with
  | nil => rfl
  | cons c cs ih =>
    rw [feed_cons]
    split_ifs
    · rfl
    · exact ih _ _ _

/-- A machine for a program that has already been run on some subjects. -/
def used (p : Program) (earlier : List String) : Machine :=
  earlier.foldl (fun m subject => (m.captures subject).2) (ofProgram p)

theorem used_spec (p : Program) (earlier : List String) :
    (used p earlier).Fits ∧ (used p earlier).program = p := by
  rw [used]
  induction earlier using List.reverseRecOn with
  | nil => exact ⟨fits_ofProgram p, rfl⟩
  | append_singleton earlier subject ih =>
    rw [List.foldl_append]
    exact ⟨ih.1.captures subject, (program_feed ..).trans ih.2⟩

end Machine

/-- **The most preferred run**: whatever a machine was used for before, it finds nothing exactly if
no run of its program reaches a match, and otherwise the slots that the most preferred simple run to
a match leaves behind. -/
theorem captures_used_iff_mostPreferred (p : Program) (earlier : List String) (subject : String) :
    (((Machine.used p earlier).captures subject).1 = none ↔ ∀ r, ¬ p.Accepts subject .start r) ∧
    ∀ c, ((Machine.used p earlier).captures subject).1 = some c ↔
      ∃ r, p.MostPreferred subject r ∧ c = ⟨subject, p.slotsOf r⟩ := by
  obtain ⟨hfits, hprogram⟩ := Machine.used_spec p earlier
  have hnone := Machine.captures_eq_none_iff hfits subject
  have hsome := Machine.captures_eq_some_iff hfits subject
  rw [hprogram] at hnone
  simp only [hprogram] at hsome
  exact ⟨hnone, hsome⟩

end RegexMachine
