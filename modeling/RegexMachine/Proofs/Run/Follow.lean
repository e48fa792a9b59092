import RegexMachine.Proofs.Run.Preferred

/-!
# Threads as runs

A thread of the machine is what a run leaves behind: a place in the program, and slots. Here the
threads of a list are read as runs, and `Tracks` says what then holds while `Program.follow` builds
the list:

* **order** — a thread is preferred to those behind it, and to those that are still on the stack;
* **marks** — for every marked instruction there is a simple run to it that the threads to come are
  not preferred to.

By the marks, the most preferred run is never dropped: `Keeps` is preserved by `follow`.
-/

namespace RegexMachine

theorem Simple.after_ne {r s : Run} {m : Move} (h : Simple (r ++ m :: s)) :
    Config.start.after (r ++ m :: s) ≠ Config.start.after r := by
  rw [Simple, Config.along_append, List.nodup_append'] at h
  intro heq
  refine h.2.2 (Config.after_mem_along _ r) ?_
  rw [← heq, Config.after_append]
  exact Config.after_mem_map_goal _ m s

theorem Simple.snoc {r : Run} {m : Move} (h : Simple r) (hm : m.goal ∉ Config.start.along r) :
    Simple (r ++ [m]) := by
  rw [Simple, Config.along_append, List.nodup_append']
  exact ⟨h, List.nodup_singleton _, by simpa using hm⟩

namespace Program

variable {p : Program} {subject : String}

/-- The slots of a thread that did nothing yet. -/
def blankSlots (p : Program) : Slots := Array.replicate p.slots none

/-- The slots at the end of a run of the whole program. -/
def slotsOf (p : Program) (r : Run) : Slots := p.slotsAfter .start p.blankSlots r

/-- The thread that a run leaves behind. -/
def threadOf (p : Program) (r : Run) : Thread := ⟨(Config.start.after r).pc, p.slotsOf r⟩

@[simp] theorem threadOf_pc (r : Run) : (p.threadOf r).pc = (Config.start.after r).pc := rfl

@[simp] theorem threadOf_slots (r : Run) : (p.threadOf r).slots = p.slotsOf r := rfl

theorem slotsOf_snoc (r : Run) (m : Move) :
    p.slotsOf (r ++ [m]) = p.note (Config.start.after r) (p.slotsOf r) := by
  simp [slotsOf, slotsAfter]

theorem threadOf_snoc (r : Run) (m : Move) :
    p.threadOf (r ++ [m]) = ⟨m.goal.pc, p.note (Config.start.after r) (p.slotsOf r)⟩ := by
  simp [threadOf, slotsOf_snoc]

/-! ## Moves that read nothing -/

/-- A thread at the instruction waits for the next character, or accepts. -/
def Waits (p : Program) (pc : Nat) : Prop :=
  (∃ c, p.code[pc]? = some (.char c)) ∨ p.code[pc]? = some .accept

/-- The moves that read nothing, the preferred one first. -/
def silentMoves (p : Program) (c : Config) : List Move :=
  match p.code[c.pc]? with
  | some (.jump target) => [⟨none, ⟨target, c.offset⟩⟩]
  | some (.split t u) => [⟨some .first, ⟨t, c.offset⟩⟩, ⟨some .second, ⟨u, c.offset⟩⟩]
  | some (.save _) | some .nop => [⟨none, ⟨c.pc + 1, c.offset⟩⟩]
  | _ => []

theorem step_of_mem_silentMoves (subject : String) {c : Config} {m : Move}
    (hm : m ∈ p.silentMoves c) :
    p.Step subject c m ∧ m.goal.offset = c.offset := by
  obtain ⟨pc, offset⟩ := c
  rw [silentMoves] at hm
  split at hm <;> rename_i hi
  · obtain rfl := List.mem_singleton.mp hm
    exact ⟨.jump hi, rfl⟩
  · rcases List.mem_cons.mp hm with rfl | hm
    · exact ⟨.first hi, rfl⟩
    · obtain rfl := List.mem_singleton.mp hm
      exact ⟨.second hi, rfl⟩
  · obtain rfl := List.mem_singleton.mp hm
    exact ⟨.save hi, rfl⟩
  · obtain rfl := List.mem_singleton.mp hm
    exact ⟨.nop hi, rfl⟩
  · exact absurd hm List.not_mem_nil

theorem Step.mem_silentMoves {c : Config} {m : Move} (hm : p.Step subject c m)
    (hc : ¬ p.Waits c.pc) : m ∈ p.silentMoves c := by
  cases hm with
  | char hi => exact absurd (.inl ⟨_, hi⟩) hc
  | jump hi | first hi | second hi | save hi | nop hi => simp [silentMoves, hi]

theorem silentMoves_pairwise (c : Config) (r : Run) :
    ((p.silentMoves c).map fun m => r ++ [m]).Pairwise Preferred := by
  rw [silentMoves]
  split <;> simp [Preferred.append_left_iff, Preferred.here]

/-- Expanding a thread makes all silent moves of its run, unless it waits. -/
theorem expand_threadOf_of_waits {offset : Nat} {r : Run}
    (hr : p.Waits (Config.start.after r).pc) : p.expand offset (p.threadOf r) = none := by
  rcases hr with ⟨c, hi⟩ | hi <;> simp [expand, hi]

theorem expand_threadOf {offset : Nat} {r : Run} (hoffset : (Config.start.after r).offset = offset)
    (hr : ¬ p.Waits (Config.start.after r).pc) :
    p.expand offset (p.threadOf r) =
      some ((p.silentMoves (Config.start.after r)).map fun m => p.threadOf (r ++ [m])) := by
  subst hoffset
  simp only [threadOf_snoc, expand, silentMoves, threadOf_pc, threadOf_slots, note]
  split <;> rename_i hi
  · exact absurd (.inl ⟨_, hi⟩) hr
  · exact absurd (.inr hi) hr
  all_goals simp [hi]

/-! ## The invariant -/

/-- The thread of `r` comes to its place before that of `s` does: the run is preferred, or it is the
beginning of `s`. -/
def Before (r s : Run) : Prop := Preferred r s ∨ (r <+: s ∧ r ≠ s)

theorem Before.of_isPrefix {r s s' : Run} (h : Before r s) (hs : s <+: s') : Before r s' := by
  rcases h with h | ⟨hpre, hne⟩
  · exact .inl (h.of_isPrefix hs)
  · refine .inr ⟨hpre.trans hs, ?_⟩
    rintro rfl
    exact hne (hpre.eq_of_length_le hs.length_le)

/-- In an ordered list of runs, one may be replaced by continuations. -/
theorem pairwise_replace {before after onward : List Run} {r : Run}
    (h : (before ++ r :: after).Pairwise Preferred) (honward : onward.Pairwise Preferred)
    (hext : ∀ s ∈ onward, r <+: s) : (before ++ (onward ++ after)).Pairwise Preferred := by
  obtain ⟨hbefore, hrest, hcross⟩ := List.pairwise_append.mp h
  rw [List.pairwise_cons] at hrest
  rw [List.pairwise_append, List.pairwise_append]
  refine ⟨hbefore, ⟨honward, hrest.2, fun v hv s hs => ?_⟩, fun s hs v hv => ?_⟩
  · obtain ⟨t, rfl⟩ := hext v hv
    simpa using (hrest.1 s hs).append t []
  · rcases List.mem_append.mp hv with hv | hv
    · exact (hcross s hs r List.mem_cons_self).of_isPrefix (hext v hv)
    · exact hcross s hs v (List.mem_cons_of_mem _ hv)

/-- A run whose thread rests on a list at byte `offset`. -/
structure Rests (p : Program) (subject : String) (offset : Nat) (r : Run) : Prop where
  /-- the run is one of the program -/
  path : p.Path subject .start r
  /-- it makes no loop -/
  simple : Simple r
  /-- it came to this offset -/
  offset_eq : (Config.start.after r).offset = offset
  /-- it waits there, to read or to accept -/
  waits : p.Waits (Config.start.after r).pc

/-- A run whose thread is still to be followed. Only its end may be fresh, so if it is, the run came
to it for the first time. -/
structure Approaches (p : Program) (subject : String) (offset : Nat) (list : ThreadList) (r : Run) :
    Prop where
  /-- the run is one of the program -/
  path : p.Path subject .start r
  /-- it came to this offset -/
  offset_eq : (Config.start.after r).offset = offset
  /-- it made no loop if its end is fresh -/
  simple : list.isFresh (Config.start.after r).pc = true → Simple r
  /-- what it came through at this offset is marked, apart from its end -/
  behind : ∀ x ∈ Config.start.along r, x.offset = offset →
    x = Config.start.after r ∨ list.isFresh x.pc = false

/-- The list holds the threads of the runs `parked`. Those of the runs `stack` are to be followed
next, and the runs `later` are to be dealt with when that is done. -/
structure Tracks (p : Program) (subject : String) (offset : Nat) (list : ThreadList)
    (parked stack later : List Run) : Prop where
  /-- there is a mark for every instruction -/
  size_eq : list.visited.size = p.size
  /-- the threads are those of the runs -/
  threads_eq : list.threads.toList = parked.map p.threadOf
  /-- they rest where they are -/
  rests : ∀ r ∈ parked, p.Rests subject offset r
  /-- those on the stack are on their way -/
  approaches : ∀ r ∈ stack, p.Approaches subject offset list r
  /-- all of them stand in the order of preference -/
  sorted : (parked ++ (stack ++ later)).Pairwise Preferred
  /-- a mark is due to a run that is preferred to those on the stack and later -/
  marks : ∀ pc < p.size, list.isFresh pc = false →
    ∃ r, p.Path subject .start r ∧ Simple r ∧ Config.start.after r = ⟨pc, offset⟩ ∧
      ∀ s ∈ stack ++ later, Before r s

/-- The best run goes on from one of `runs`; or its slots were found, and only better runs go on. -/
def Keeps (p : Program) (best : Run) (found : Option Slots) (runs : List Run) : Prop :=
  (∃ r ∈ runs, r <+: best) ∨
    (found = some (p.slotsOf best) ∧ ∀ r ∈ runs, Preferred r best)

/-- A run may be replaced by continuations, if the best run goes on from one of them. -/
theorem Keeps.replace {best r : Run} {found : Option Slots} {before after : List Run}
    (onward : List Run) (h : p.Keeps best found (before ++ r :: after))
    (hext : ∀ s ∈ onward, r <+: s) (hbest : r <+: best → ∃ s ∈ onward, s <+: best) :
    p.Keeps best found (before ++ (onward ++ after)) := by
  rcases h with ⟨s, hs, hsbest⟩ | ⟨hfound, hall⟩
  · refine .inl ?_
    rcases List.mem_append.mp hs with hs | hs
    · exact ⟨s, List.mem_append_left _ hs, hsbest⟩
    · rcases List.mem_cons.mp hs with rfl | hs
      · obtain ⟨t, ht, htbest⟩ := hbest hsbest
        exact ⟨t, List.mem_append_right _ (List.mem_append_left _ ht), htbest⟩
      · exact ⟨s, List.mem_append_right _ (List.mem_append_right _ hs), hsbest⟩
  · refine .inr ⟨hfound, fun s hs => ?_⟩
    rcases List.mem_append.mp hs with hs | hs
    · exact hall s (List.mem_append_left _ hs)
    · rcases List.mem_append.mp hs with hs | hs
      · obtain ⟨t, rfl⟩ := hext s hs
        simpa using (hall r (by simp)).append t []
      · exact hall s (List.mem_append_right _ (List.mem_cons_of_mem _ hs))

end Program

namespace ThreadList

@[simp] theorem isFresh_mark (list : ThreadList) (pc q : Nat) :
    (list.mark pc).isFresh q = (list.isFresh q && q != pc) := by
  by_cases h : q = pc
  · subst h
    simp [isFresh, mark, Array.getElem?_setIfInBounds]
  · simp [isFresh, mark, Array.getElem?_setIfInBounds_ne (Ne.symm h), h]

end ThreadList

namespace Program

variable {p : Program} {subject : String} {offset : Nat} {list : ThreadList}
  {parked stack later : List Run}

theorem Approaches.mark {r : Run} (h : p.Approaches subject offset list r) (pc : Nat) :
    p.Approaches subject offset (list.mark pc) r where
  path := h.path
  offset_eq := h.offset_eq
  simple hfresh := h.simple (by simp_all)
  behind x hx hoffset := (h.behind x hx hoffset).imp_right (by simp_all)

theorem Approaches.park {r : Run} (h : p.Approaches subject offset list r) (t : Thread) :
    p.Approaches subject offset (list.park t) r :=
  ⟨h.path, h.offset_eq, h.simple, h.behind⟩

/-- A thread that makes a silent move from a fresh instruction. -/
theorem Approaches.push {r : Run} {m : Move} (h : p.Approaches subject offset list r)
    (hfresh : list.isFresh (Config.start.after r).pc = true)
    (hm : m ∈ p.silentMoves (Config.start.after r)) :
    p.Approaches subject offset (list.mark (Config.start.after r).pc) (r ++ [m]) := by
  obtain ⟨hstep, hoffset⟩ := step_of_mem_silentMoves subject hm
  have hbehind : ∀ x ∈ Config.start.along r, x.offset = offset →
      (list.mark (Config.start.after r).pc).isFresh x.pc = false := by
    intro x hx hxo
    rcases h.behind x hx hxo with rfl | hx <;> simp_all
  refine ⟨path_append.mpr ⟨h.path, hstep, trivial⟩, ?_, fun hgoal => ?_, fun x hx hxo => ?_⟩
  · simpa using hoffset.trans h.offset_eq
  · refine (h.simple hfresh).snoc fun hmem => ?_
    have := hbehind m.goal hmem (hoffset.trans h.offset_eq)
    simp_all
  · rw [Config.along_append, List.mem_append] at hx
    rcases hx with hx | hx
    · exact .inr (hbehind x hx hxo)
    · obtain rfl := List.mem_singleton.mp hx
      exact .inl (by simp)

/-- A run that starts like one to a match has not left the program. -/
theorem Accepts.lt_size_of_isPrefix {r best : Run} (hbest : p.Accepts subject .start best)
    (hr : r <+: best) : (Config.start.after r).pc < p.size := by
  obtain ⟨s, rfl⟩ := hr
  cases s with
  | nil =>
    have hfinal := hbest.final
    rw [List.append_nil] at hfinal
    exact lt_size_of_getElem? hfinal
  | cons m s => exact (path_append.mp hbest.path).2.1.lt_size

/-- **Late threads**: a thread that comes to a marked instruction is not the best one. -/
theorem Tracks.not_isPrefix {r best : Run}
    (h : p.Tracks subject offset list parked (r :: stack) later)
    (hlate : list.isFresh (Config.start.after r).pc = false)
    (hbest : p.MostPreferred subject best) : ¬ r <+: best := by
  intro hr
  obtain ⟨v, hv, hvsimple, hgoal, hbefore⟩ := h.marks _ (hbest.accepts.lt_size_of_isPrefix hr) hlate
  have happ := h.approaches r List.mem_cons_self
  have hsame : Config.start.after v = Config.start.after r := by
    rw [hgoal, ← happ.offset_eq]
  rcases hbefore r (by simp) with hvr | ⟨⟨t, rfl⟩, hne⟩
  · -- the run that marked the instruction would be a detour
    refine hbest.not_mem_along hv hvsimple (hvr.of_isPrefix hr) ?_
    obtain ⟨t, rfl⟩ := hr
    rw [hsame, Config.along_append]
    exact List.mem_append_left _ (Config.after_mem_along _ r)
  · -- the run would come to its end twice
    obtain ⟨u, rfl⟩ := hr
    cases t with
    | nil => exact hne (List.append_nil v).symm
    | cons m t => exact (Simple.of_append hbest.simple).after_ne hsame.symm

/-- Threads on the stack, and those that come later, may be dropped. -/
theorem Tracks.mono {stack' later' : List Run} (h : p.Tracks subject offset list parked stack later)
    (hstack : stack'.Sublist stack) (hlater : later'.Sublist later) :
    p.Tracks subject offset list parked stack' later' where
  size_eq := h.size_eq
  threads_eq := h.threads_eq
  rests := h.rests
  approaches s hs := h.approaches s (hstack.subset hs)
  sorted := h.sorted.sublist ((hstack.append hlater).append_left _)
  marks pc hpc hmark := by
    obtain ⟨v, hv, hvsimple, hgoal, hbefore⟩ := h.marks pc hpc hmark
    exact ⟨v, hv, hvsimple, hgoal, fun s hs => hbefore s ((hstack.append hlater).subset hs)⟩

/-- Marks stay true when the top of the stack is replaced by continuations of it. -/
theorem Tracks.marks_mark {r : Run} (onward : List Run)
    (h : p.Tracks subject offset list parked (r :: stack) later)
    (hfresh : list.isFresh (Config.start.after r).pc = true)
    (honward : ∀ s ∈ onward, r <+: s ∧ r ≠ s) {pc : Nat} (hpc : pc < p.size)
    (hmark : (list.mark (Config.start.after r).pc).isFresh pc = false) :
    ∃ v, p.Path subject .start v ∧ Simple v ∧ Config.start.after v = ⟨pc, offset⟩ ∧
      ∀ s ∈ (onward ++ stack) ++ later, Before v s := by
  have happ := h.approaches r List.mem_cons_self
  by_cases hq : pc = (Config.start.after r).pc
  · -- the mark is that of the run on top
    refine ⟨r, happ.path, happ.simple hfresh, ?_, fun s hs => ?_⟩
    · rw [hq, ← happ.offset_eq]
    · rw [List.append_assoc, List.mem_append] at hs
      rcases hs with hs | hs
      · exact .inr (honward s hs)
      · have hsorted := (List.pairwise_append.mp h.sorted).2.1
        exact .inl ((List.pairwise_cons.mp hsorted).1 s hs)
  · -- the mark was there before
    obtain ⟨v, hv, hvsimple, hgoal, hbefore⟩ := h.marks pc hpc (by simpa [hq] using hmark)
    refine ⟨v, hv, hvsimple, hgoal, fun s hs => ?_⟩
    rw [List.append_assoc, List.mem_append] at hs
    rcases hs with hs | hs
    · exact (hbefore r (by simp)).of_isPrefix (honward s hs).1
    · exact hbefore s (List.mem_cons_of_mem _ hs)

theorem Tracks.park {r : Run} (h : p.Tracks subject offset list parked (r :: stack) later)
    (hfresh : list.isFresh (Config.start.after r).pc = true)
    (hwaits : p.Waits (Config.start.after r).pc) :
    p.Tracks subject offset ((list.mark (Config.start.after r).pc).park (p.threadOf r))
      (parked ++ [r]) stack later where
  size_eq := by simpa [ThreadList.park, ThreadList.mark] using h.size_eq
  threads_eq := by simpa [ThreadList.park, ThreadList.mark] using h.threads_eq
  rests s hs := by
    rcases List.mem_append.mp hs with hs | hs
    · exact h.rests s hs
    · obtain rfl := List.mem_singleton.mp hs
      have happ := h.approaches s List.mem_cons_self
      exact ⟨happ.path, happ.simple hfresh, happ.offset_eq, hwaits⟩
  approaches s hs := ((h.approaches s (List.mem_cons_of_mem _ hs)).mark _).park _
  sorted := by simpa using h.sorted
  marks pc hpc hmark := h.marks_mark [] hfresh (by simp) hpc hmark

theorem Tracks.expand {r : Run} (h : p.Tracks subject offset list parked (r :: stack) later)
    (hfresh : list.isFresh (Config.start.after r).pc = true) :
    p.Tracks subject offset (list.mark (Config.start.after r).pc) parked
      ((p.silentMoves (Config.start.after r)).map (fun m => r ++ [m]) ++ stack) later where
  size_eq := by simpa [ThreadList.mark] using h.size_eq
  threads_eq := h.threads_eq
  rests := h.rests
  approaches s hs := by
    rcases List.mem_append.mp hs with hs | hs
    · obtain ⟨m, hm, rfl⟩ := List.mem_map.mp hs
      exact (h.approaches r List.mem_cons_self).push hfresh hm
    · exact (h.approaches s (List.mem_cons_of_mem _ hs)).mark _
  sorted := by
    rw [List.append_assoc]
    refine pairwise_replace h.sorted (silentMoves_pairwise _ r) fun v hv => ?_
    obtain ⟨m, -, rfl⟩ := List.mem_map.mp hv
    exact List.prefix_append r [m]
  marks pc hpc hmark := by
    refine h.marks_mark _ hfresh (fun s hs => ?_) hpc hmark
    obtain ⟨m, -, rfl⟩ := List.mem_map.mp hs
    exact ⟨List.prefix_append _ _, by simp⟩

/-- A run to a match goes on where it does not accept. -/
theorem Accepts.exists_move {r best : Run} (hbest : p.Accepts subject .start best) (hr : r <+: best)
    (hfinal : ¬ p.Final (Config.start.after r)) :
    ∃ m, p.Step subject (Config.start.after r) m ∧ r ++ [m] <+: best := by
  obtain ⟨s, rfl⟩ := hr
  cases s with
  | nil => exact absurd (by simpa using hbest.final) hfinal
  | cons m s => exact ⟨m, (path_append.mp hbest.path).2.1, s, by simp⟩

/-- **Following**: the threads of a stack are followed to where they wait, in their order, and the
best run is not lost. -/
theorem Tracks.follow (h : p.Tracks subject offset list parked stack later) :
    ∃ parked',
      p.Tracks subject offset (p.follow offset list (stack.map p.threadOf)) parked' [] later ∧
      ∀ best found, p.MostPreferred subject best →
        p.Keeps best found (parked ++ (stack ++ later)) →
        p.Keeps best found (parked' ++ later) := by
  generalize hthreads : stack.map p.threadOf = threads
  induction list, threads using Program.follow.induct p offset generalizing parked stack with
  | case1 list =>
    obtain rfl := List.map_eq_nil_iff.mp hthreads
    rw [Program.follow]
    exact ⟨parked, h, fun _ _ _ hkeeps => hkeeps⟩
  | case2 list t threads hfresh hexpand ih =>
    obtain ⟨r, stack, rfl, rfl, rfl⟩ := List.map_eq_cons_iff.mp hthreads
    have hwaits : p.Waits (Config.start.after r).pc := by
      by_contra hwaits
      rw [expand_threadOf (h.approaches r List.mem_cons_self).offset_eq hwaits] at hexpand
      cases hexpand
    -- the thread waits at a fresh instruction and is parked
    rw [Program.follow, dif_pos hfresh, hexpand]
    obtain ⟨parked', htracks, hkeep⟩ := ih (h.park hfresh hwaits) rfl
    refine ⟨parked', htracks, fun best found hbest hkeeps => hkeep best found hbest ?_⟩
    simpa using hkeeps
  | case3 list t threads hfresh onward hexpand ih =>
    obtain ⟨r, stack, rfl, rfl, rfl⟩ := List.map_eq_cons_iff.mp hthreads
    have hwaits : ¬ p.Waits (Config.start.after r).pc := by
      intro hwaits
      rw [expand_threadOf_of_waits hwaits] at hexpand
      cases hexpand
    -- the thread goes on, in one direction or two
    rw [Program.follow, dif_pos hfresh, hexpand]
    rw [expand_threadOf (h.approaches r List.mem_cons_self).offset_eq hwaits] at hexpand
    obtain rfl := Option.some.inj hexpand
    obtain ⟨parked', htracks, hkeep⟩ := ih (h.expand hfresh) (by simp)
    refine ⟨parked', htracks, fun best found hbest hkeeps => hkeep best found hbest ?_⟩
    rw [List.append_assoc]
    refine hkeeps.replace _ (fun s hs => ?_) fun hr => ?_
    · obtain ⟨m, -, rfl⟩ := List.mem_map.mp hs
      exact List.prefix_append r [m]
    · obtain ⟨m, hstep, hgoes⟩ := hbest.accepts.exists_move hr fun hfinal => hwaits (.inr hfinal)
      exact ⟨r ++ [m], List.mem_map_of_mem (hstep.mem_silentMoves hwaits), hgoes⟩
  | case4 list t threads hlate ih =>
    obtain ⟨r, stack, rfl, rfl, rfl⟩ := List.map_eq_cons_iff.mp hthreads
    -- the thread comes late and is dropped
    rw [Program.follow, dif_neg hlate]
    have hlate' : list.isFresh (Config.start.after r).pc = false := by simpa using hlate
    have hdrop := h.mono (List.sublist_cons_self r stack) (List.Sublist.refl later)
    obtain ⟨parked', htracks, hkeep⟩ := ih hdrop rfl
    refine ⟨parked', htracks, fun best found hbest hkeeps => hkeep best found hbest ?_⟩
    exact hkeeps.replace [] (by simp)
      fun hr => absurd hr (h.not_isPrefix hlate' hbest)

end Program

end RegexMachine
