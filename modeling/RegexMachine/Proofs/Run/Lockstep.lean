import RegexMachine.Proofs.Run.Follow

/-!
# Runs in lock step

All threads at one offset read the next character together. `Tells` is what the runs that are left
and the result so far tell about the most preferred run, and `Tracks.sweep` says that it stays true:

* **read** — a thread that reads the next character comes to a later offset, so its run stays
  simple;
* **accept** — a thread that accepts drops those behind it, which are not the best one, and those
  before it are preferred to it.
-/

namespace RegexMachine

namespace Program

variable {p : Program} {subject : String}

/-- What a result so far, and the runs that still go on, tell about the program and the subject. -/
structure Tells (p : Program) (subject : String) (found : Option Slots) (runs : List Run) :
    Prop where
  /-- if something was found, there is a run to a match -/
  sound : found.isSome → ∃ r, p.Accepts subject .start r
  /-- the best run is not lost -/
  keeps : ∀ best, p.MostPreferred subject best → p.Keeps best found runs

theorem Rests.accepts {offset : Nat} {r : Run} (h : p.Rests subject offset r)
    (hi : p.code[(Config.start.after r).pc]? = some .accept) : p.Accepts subject .start r :=
  ⟨h.path, hi⟩

/-- The move that reads the character `d`. -/
def readMove (c : Config) (d : Char) : Move := ⟨none, ⟨c.pc + 1, c.offset + d.utf8Size⟩⟩

theorem Step.eq_readMove {c : Config} {m : Move} {d : Char} (hm : p.Step subject c m)
    (hi : p.code[c.pc]? = some (.char d)) :
    m = readMove c d ∧ Text.charAt? subject c.offset = some d := by
  cases hm <;> simp_all [readMove]

theorem threadOf_readMove {r : Run} {d : Char}
    (hi : p.code[(Config.start.after r).pc]? = some (.char d)) :
    p.threadOf (r ++ [readMove (Config.start.after r) d]) =
      ⟨(Config.start.after r).pc + 1, p.slotsOf r⟩ := by
  simp [threadOf_snoc, readMove, note, hi]

/-! ## One offset -/

variable {offset after : Nat} {list : ThreadList} {parked waiting : List Run} {found : Option Slots}

/-- A waiting thread reads a character and is put on the stack of the next list. -/
theorem Tracks.read {r : Run} {d : Char} (h : p.Tracks subject after list parked [] (r :: waiting))
    (hr : p.Rests subject offset r) (hi : p.code[(Config.start.after r).pc]? = some (.char d))
    (hd : Text.charAt? subject offset = some d) (hafter : after = offset + d.utf8Size) :
    p.Tracks subject after list parked [r ++ [readMove (Config.start.after r) d]] waiting where
  size_eq := h.size_eq
  threads_eq := h.threads_eq
  rests := h.rests
  approaches s hs := by
    obtain rfl := List.mem_singleton.mp hs
    have hstep : p.Step subject (Config.start.after r) (readMove (Config.start.after r) d) :=
      .char hi (hr.offset_eq.symm ▸ hd)
    -- all that lies behind has a smaller offset
    have hbehind : ∀ x ∈ Config.start.along r, x.offset < after := by
      intro x hx
      have := (hr.path.offset_le x hx).2
      have := d.utf8Size_pos
      have := hr.offset_eq
      omega
    refine ⟨path_append.mpr ⟨hr.path, hstep, trivial⟩, ?_, fun _ => hr.simple.snoc fun hmem => ?_,
      fun x hx hxo => ?_⟩
    · simp [readMove, hr.offset_eq, hafter]
    · have := hbehind _ hmem
      have := hr.offset_eq
      simp only [readMove] at *
      omega
    · rw [Config.along_append, List.mem_append] at hx
      rcases hx with hx | hx
      · have := hbehind x hx
        omega
      · obtain rfl := List.mem_singleton.mp hx
        exact .inl (by simp)
  sorted := pairwise_replace h.sorted (List.pairwise_singleton _ _) fun s hs => by
    obtain rfl := List.mem_singleton.mp hs
    exact List.prefix_append r _
  marks pc hpc hmark := by
    obtain ⟨v, hv, hvsimple, hgoal, hbefore⟩ := h.marks pc hpc hmark
    refine ⟨v, hv, hvsimple, hgoal, fun s hs => ?_⟩
    rcases List.mem_cons.mp hs with rfl | hs
    · exact (hbefore r List.mem_cons_self).of_isPrefix (List.prefix_append r _)
    · exact hbefore s (List.mem_cons_of_mem _ hs)

theorem Tells.replace {r : Run} {before after : List Run} (onward : List Run)
    (h : p.Tells subject found (before ++ r :: after)) (hext : ∀ s ∈ onward, r <+: s)
    (hbest : ∀ best, p.MostPreferred subject best → r <+: best → ∃ s ∈ onward, s <+: best) :
    p.Tells subject found (before ++ (onward ++ after)) where
  sound := h.sound
  keeps best hmost := (h.keeps best hmost).replace onward hext (hbest best hmost)

/-- **Accepting**: the result is that of the best run, or the best run is preferred to it. -/
theorem Tells.accept {r : Run} (h : p.Tells subject found (parked ++ r :: waiting))
    (hsorted : (parked ++ r :: waiting).Pairwise Preferred) (hr : p.Rests subject offset r)
    (hi : p.code[(Config.start.after r).pc]? = some .accept) :
    p.Tells subject (some (p.slotsOf r)) parked where
  sound _ := ⟨r, hr.accepts hi⟩
  keeps best hbest := by
    obtain ⟨-, hwaiting, hparked⟩ := List.pairwise_append.mp hsorted
    have hnot := hbest.not_preferred (hr.accepts hi) hr.simple
    rcases h.keeps best hbest with ⟨s, hs, hsbest⟩ | ⟨-, hall⟩
    · rcases List.mem_append.mp hs with hs | hs
      · exact .inl ⟨s, hs, hsbest⟩
      · rcases List.mem_cons.mp hs with rfl | hs
        · -- nothing follows an accepting instruction
          obtain ⟨t, rfl⟩ := hsbest
          cases t with
          | nil =>
            rw [List.append_nil]
            exact .inr ⟨rfl, fun v hv => hparked v hv s List.mem_cons_self⟩
          | cons m t =>
            have hstep := (path_append.mp hbest.accepts.path).2.1
            exact absurd hstep (Final.not_step hi)
        · have hrs := (List.pairwise_cons.mp hwaiting).1 s hs
          exact absurd (hrs.of_isPrefix hsbest) hnot
    · exact absurd (hall r (by simp)) hnot

/-- **One offset**: all waiting threads read the next character, or are dropped, or accept. -/
theorem Tracks.sweep {c : Option Char} (hc : Text.charAt? subject offset = c)
    (hafter : ∀ d, c = some d → after = offset + d.utf8Size)
    (h : p.Tracks subject after list parked [] waiting)
    (hwaiting : ∀ r ∈ waiting, p.Rests subject offset r)
    (htells : p.Tells subject found (parked ++ waiting)) :
    ∃ parked', p.Tracks subject after (p.sweep c after list found (waiting.map p.threadOf)).1
        parked' [] [] ∧
      p.Tells subject (p.sweep c after list found (waiting.map p.threadOf)).2 parked' := by
  induction waiting generalizing list parked with
  | nil => exact ⟨parked, h, by simpa [Program.sweep] using htells⟩
  | cons r waiting ih =>
    have hr := hwaiting r List.mem_cons_self
    have hrest : ∀ s ∈ waiting, p.Rests subject offset s :=
      fun s hs => hwaiting s (List.mem_cons_of_mem _ hs)
    have hdrop := h.mono (List.Sublist.refl _) (List.sublist_cons_self r waiting)
    rw [List.map_cons, Program.sweep, threadOf_pc]
    rcases hr.waits with ⟨d, hi⟩ | hi
    · rw [hi]
      have hreads : ∀ best, p.MostPreferred subject best → r <+: best →
          c = some d ∧ r ++ [readMove (Config.start.after r) d] <+: best := by
        intro best hbest hrbest
        obtain ⟨m, hstep, hgoes⟩ :=
          hbest.accepts.exists_move hrbest fun hfinal => by simp [Final, hi] at hfinal
        obtain ⟨rfl, hd⟩ := hstep.eq_readMove hi
        exact ⟨by rw [← hc, ← hr.offset_eq, hd], hgoes⟩
      by_cases hd : c = some d
      · -- the thread reads the character
        obtain ⟨parked', htracks, hkeep⟩ := (h.read hr hi (hc.trans hd) (hafter d hd)).follow
        have htells' : p.Tells subject found
            (parked ++ ([r ++ [readMove (Config.start.after r) d]] ++ waiting)) :=
          htells.replace _ (by simp) fun best hbest hrbest =>
            ⟨_, List.mem_singleton.mpr rfl, (hreads best hbest hrbest).2⟩
        simp only [List.map_cons, List.map_nil, threadOf_readMove hi] at htracks
        simp only [hd, if_true] at ih ⊢
        exact ih htracks hrest
          ⟨htells.sound, fun best hbest => hkeep best found hbest (htells'.keeps best hbest)⟩
      · -- the thread is dropped
        simp only [hd, if_false]
        exact ih hdrop hrest (htells.replace [] (by simp)
          fun best hbest hrbest => absurd (hreads best hbest hrbest).1 hd)
    · rw [hi]
      exact ⟨parked, h.mono (List.Sublist.refl _) (List.nil_sublist _),
        htells.accept (by simpa using h.sorted) hr hi⟩

/-- Without a character to read no thread goes on. -/
theorem sweep_none (after : Nat) (list : ThreadList) (found : Option Slots)
    (threads : List Thread) :
    (p.sweep none after list found threads).1 = list := by
  induction threads with
  | nil => rfl
  | cons t threads ih =>
    rw [Program.sweep]
    split
    · rfl
    · simpa using ih
    · exact ih

theorem Tracks.parked_eq_nil {stack later : List Run}
    (h : p.Tracks subject offset list parked stack later) (hsize : list.size = 0) :
    parked = [] := by
  have hlength := congrArg List.length h.threads_eq
  rw [Array.length_toList, List.length_map] at hlength
  exact List.eq_nil_of_length_eq_zero (hlength ▸ hsize)

end Program

end RegexMachine
