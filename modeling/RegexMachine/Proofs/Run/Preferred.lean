import RegexMachine.Proofs.Run.Path
import Mathlib.Data.Set.Finite.List
import Mathlib.Order.WellFoundedSet

/-!
# The most preferred run

Among the simple runs that end in a match one is preferred to all others:

* **existence** — a run that reaches a match also does so without its loops, there are only finitely
  many simple runs, and two of them that reach a match are comparable;
* **no detours** — a simple run that is preferred to the most preferred one shares no configuration
  with it behind the place where they part (`MostPreferred.not_mem_along`). Otherwise it could
  change over to it there, and reach the match in a better way.

The machine may drop a thread at an instruction where another one was before because of the second
fact.
-/

namespace RegexMachine

/-- A run that comes to no configuration twice. -/
def Simple (r : Run) : Prop := (Config.start.along r).Nodup

theorem Simple.of_append {r s : Run} (h : Simple (r ++ s)) : Simple r := by
  rw [Simple, Config.along, List.map_append, ← List.cons_append] at h
  exact h.of_append_left

/-- Of two simple runs that part behind `common`, one may change over to the rest of the other if it
has not been there before. -/
theorem Simple.change_over {common d d' r r' : Run} (hd : Simple (common ++ (d ++ d')))
    (hr : Simple (common ++ (r ++ r'))) (hapart : ∀ k ∈ r', k.goal ∉ d.map Move.goal) :
    Simple (common ++ (d ++ r')) := by
  rw [Simple, Config.along_append, List.map_append, List.nodup_append', List.nodup_append'] at *
  obtain ⟨hcommon, ⟨hdn, -, -⟩, hcommond⟩ := hd
  obtain ⟨-, ⟨-, hrn, -⟩, hcommonr⟩ := hr
  refine ⟨hcommon, ⟨hdn, hrn, fun x hx hx' => ?_⟩, fun x hx hx' => ?_⟩
  · obtain ⟨k, hk, rfl⟩ := List.mem_map.mp hx'
    exact hapart k hk hx
  · rcases List.mem_append.mp hx' with hx' | hx'
    · exact hcommond hx (List.mem_append_left _ hx')
    · exact hcommonr hx (List.mem_append_right _ hx')

namespace Program

variable {p : Program} {subject : String}

/-- Of all simple runs that reach a match, the one that is preferred to the others. -/
structure MostPreferred (p : Program) (subject : String) (r : Run) : Prop where
  /-- it reaches a match -/
  accepts : p.Accepts subject .start r
  /-- it makes no loop -/
  simple : Simple r
  /-- it is preferred to every other such run -/
  least : ∀ s, p.Accepts subject .start s → Simple s → s = r ∨ Preferred r s

theorem MostPreferred.not_preferred {r s : Run} (hr : p.MostPreferred subject r)
    (hs : p.Accepts subject .start s) (hsimple : Simple s) : ¬ Preferred s r := by
  intro h
  rcases hr.least s hs hsimple with rfl | h'
  · exact h.irrefl
  · exact h.asymm h'

theorem MostPreferred.unique {r s : Run} (hr : p.MostPreferred subject r)
    (hs : p.MostPreferred subject s) : r = s :=
  (hs.least r hr.accepts hr.simple).resolve_right (hr.not_preferred hs.accepts hs.simple)

/-- Runs that end in a match part at a split or not at all. -/
theorem Path.comparable {c : Config} {r s : Run} (hr : p.Path subject c r)
    (hs : p.Path subject c s) (hrf : p.Final (c.after r)) (hsf : p.Final (c.after s)) :
    r = s ∨ Preferred r s ∨ Preferred s r := by
  induction r generalizing c s with
  | nil =>
    cases s with
    | nil => exact .inl rfl
    | cons n s => exact absurd hs.1 hrf.not_step
  | cons m r ih =>
    cases s with
    | nil => exact absurd hr.1 hsf.not_step
    | cons n s =>
      obtain ⟨hm, hr⟩ := hr
      obtain ⟨hn, hs⟩ := hs
      rcases hm.eq_or_choices hn with rfl | ⟨hcm, hcn⟩ | ⟨hcm, hcn⟩
      · rcases ih hr hs hrf hsf with rfl | h | h
        · exact .inl rfl
        · exact .inr (.inl (.later m h))
        · exact .inr (.inr (.later m h))
      · obtain ⟨_, goal⟩ := m
        obtain ⟨_, goal'⟩ := n
        subst hcm hcn
        exact .inr (.inl (.here r s))
      · obtain ⟨_, goal⟩ := m
        obtain ⟨_, goal'⟩ := n
        subst hcm hcn
        exact .inr (.inr (.here s r))

/-! ## Existence -/

/-- What a run reaches it also reaches without loops. -/
theorem Path.exists_nodup {c : Config} {r : Run} (hr : p.Path subject c r) :
    ∃ s, p.Path subject c s ∧ c.after s = c.after r ∧ (c.along s).Nodup := by
  induction r generalizing c with
  | nil => exact ⟨[], hr, rfl, List.nodup_singleton c⟩
  | cons m r ih =>
    obtain ⟨s, hs, hgoal, hnodup⟩ := ih hr.2
    by_cases hc : c ∈ m.goal.along s
    · -- the loop from `c` back to `c` is left out
      obtain ⟨front, back, rfl, rfl⟩ := Config.exists_split_of_mem_along hc
      refine ⟨back, (path_append.mp hs).2, by simpa using hgoal, ?_⟩
      exact (Config.along_after_isSuffix _ _ _).sublist.nodup hnodup
    · exact ⟨m :: s, ⟨hr.1, hs⟩, hgoal, List.nodup_cons.mpr ⟨hc, hnodup⟩⟩

theorem Accepts.exists_simple {r : Run} (hr : p.Accepts subject .start r) :
    ∃ s, p.Accepts subject .start s ∧ Simple s := by
  obtain ⟨s, hs, hafter, hnodup⟩ := hr.path.exists_nodup
  exact ⟨s, ⟨hs, hafter ▸ hr.final⟩, hnodup⟩

/-- A configuration within program and subject. -/
def Inside (p : Program) (subject : String) (c : Config) : Prop :=
  c.pc ≤ p.size ∧ c.offset ≤ Text.byteSize subject.toList

theorem finite_inside (p : Program) (subject : String) : {c | p.Inside subject c}.Finite := by
  have hpairs := (Set.finite_Iic p.size).prod (Set.finite_Iic (Text.byteSize subject.toList))
  refine (hpairs.image fun x => (⟨x.1, x.2⟩ : Config)).subset ?_
  rintro ⟨pc, offset⟩ ⟨hpc, hoffset⟩
  exact ⟨(pc, offset), ⟨hpc, hoffset⟩, rfl⟩

theorem Step.inside {c : Config} {m : Move} (hm : p.Step subject c m)
    (hc : c.offset ≤ Text.byteSize subject.toList) : p.Inside subject m.goal := by
  cases hm with
  | char hi hread =>
    refine ⟨lt_size_of_getElem? hi, ?_⟩
    obtain ⟨front, back, hsubject, rfl⟩ := Text.charAt?_eq_some_iff.mp hread
    simp [hsubject]
  | jump hi => exact ⟨Nat.le_of_lt (p.valid.fits _ _ hi), hc⟩
  | first hi => exact ⟨Nat.le_of_lt (p.valid.fits _ _ hi).1, hc⟩
  | second hi => exact ⟨Nat.le_of_lt (p.valid.fits _ _ hi).2, hc⟩
  | save hi => exact ⟨lt_size_of_getElem? hi, hc⟩
  | nop hi => exact ⟨lt_size_of_getElem? hi, hc⟩

theorem Path.inside {c : Config} {r : Run} (hr : p.Path subject c r) (hc : p.Inside subject c) :
    ∀ x ∈ c.along r, p.Inside subject x := by
  induction r generalizing c with
  | nil =>
    intro x hx
    obtain rfl := List.mem_singleton.mp hx
    exact hc
  | cons m r ih =>
    intro x hx
    rcases List.mem_cons.mp hx with rfl | hx
    · exact hc
    · exact ih hr.2 (hr.1.inside hc.2) x hx

/-- Lists of bounded length over a finite set. -/
theorem finite_lists {α : Type} {s : Set α} (hs : s.Finite) (n : Nat) :
    {l : List α | l.length ≤ n ∧ ∀ x ∈ l, x ∈ s}.Finite := by
  have : Finite s := hs
  refine ((List.finite_length_le s n).image (List.map Subtype.val)).subset ?_
  rintro l ⟨hn, hl⟩
  exact ⟨l.attachWith (· ∈ s) hl, by simpa using hn, by simp⟩

theorem inside_start : p.Inside subject .start := ⟨Nat.zero_le _, Nat.zero_le _⟩

theorem finite_simple : {r | p.Path subject .start r ∧ Simple r}.Finite := by
  -- a simple run is no longer than there are configurations
  let places := (finite_inside p subject).toFinset
  have hmoves : {m : Move | p.Inside subject m.goal}.Finite := by
    have hpairs := (Set.toFinite {none, some Choice.first, some Choice.second}).prod
      (finite_inside p subject)
    refine (hpairs.image fun x => (⟨x.1, x.2⟩ : Move)).subset ?_
    rintro ⟨choice, goal⟩ hgoal
    refine ⟨(choice, goal), ⟨?_, hgoal⟩, rfl⟩
    rcases choice with _ | _ | _ <;> simp
  refine (finite_lists hmoves places.card).subset ?_
  rintro r ⟨hr, hsimple⟩
  have hinside := hr.inside inside_start
  refine ⟨?_, fun m hm => hinside _ (List.mem_cons_of_mem _ (List.mem_map_of_mem hm))⟩
  have hsub : (Config.start.along r).toFinset ⊆ places := by
    intro x hx
    exact (Set.Finite.mem_toFinset _).mpr (hinside x (List.mem_toFinset.mp hx))
  have hcard := Finset.card_le_card hsub
  rw [List.toFinset_card_of_nodup hsimple] at hcard
  simp [Config.along] at hcard
  omega

instance : IsStrictOrder Run Preferred where
  irrefl _ := Preferred.irrefl
  trans _ _ _ := Preferred.trans

theorem Accepts.exists_mostPreferred {r : Run} (hr : p.Accepts subject .start r) :
    ∃ s, p.MostPreferred subject s := by
  obtain ⟨r', hr', hsimple'⟩ := hr.exists_simple
  let successes := {s | p.Accepts subject .start s ∧ Simple s}
  have hwf : successes.WellFoundedOn Preferred :=
    (finite_simple.subset fun s hs => ⟨hs.1.path, hs.2⟩).wellFoundedOn
  obtain ⟨⟨s, hs, hsimple⟩, -, hmin⟩ :=
    hwf.has_min Set.univ ⟨⟨r', hr', hsimple'⟩, trivial⟩
  refine ⟨s, hs, hsimple, fun t ht htsimple => ?_⟩
  rcases ht.path.comparable hs.path ht.final hs.final with rfl | h | h
  · exact .inl rfl
  · exact absurd h (hmin ⟨t, ht, htsimple⟩ trivial)
  · exact .inr h

/-! ## No detours -/

/-- The last place where `r` comes to a configuration that `d` comes to as well. -/
theorem exists_last_meeting {d r : Run} (h : ∃ m ∈ r, m.goal ∈ d.map Move.goal) :
    ∃ u n v front m back, d = u ++ n :: v ∧ r = front ++ m :: back ∧ n.goal = m.goal ∧
      ∀ k ∈ back, k.goal ∉ d.map Move.goal := by
  induction r with
  | nil => simp at h
  | cons m r ih =>
    by_cases hr : ∃ k ∈ r, k.goal ∈ d.map Move.goal
    · obtain ⟨u, n, v, front, k, back, hd, rfl, hgoal, hback⟩ := ih hr
      exact ⟨u, n, v, m :: front, k, back, hd, rfl, hgoal, hback⟩
    · obtain ⟨k, hk, hkd⟩ := h
      rcases List.mem_cons.mp hk with rfl | hk
      · obtain ⟨n, hn, hgoal⟩ := List.mem_map.mp hkd
        obtain ⟨u, v, rfl⟩ := List.append_of_mem hn
        exact ⟨u, n, v, [], k, r, rfl, rfl, hgoal, fun j hj hjd => hr ⟨j, hj, hjd⟩⟩
      · exact absurd ⟨k, hk, hkd⟩ hr

/-- A run may change over to another one where they meet, and ends as that one does. -/
theorem Accepts.change_over {c : Config} {d d' r r' : Run} (hr : p.Accepts subject c (r ++ r'))
    (hd : p.Path subject c (d ++ d')) (hmeet : c.after d = c.after r) :
    p.Accepts subject c (d ++ r') := by
  have hend := (accepts_append.mp hr).2
  rw [← hmeet] at hend
  exact accepts_append.mpr ⟨(path_append.mp hd).1, hend⟩

/-- **No detours**: a simple run that is preferred to the most preferred one does not end on it. -/
theorem MostPreferred.not_mem_along {r d : Run} (hr : p.MostPreferred subject r)
    (hd : p.Path subject .start d) (hsimple : Simple d) (h : Preferred d r) :
    Config.start.after d ∉ Config.start.along r := by
  obtain ⟨common, a, b, d', r', rfl, rfl⟩ := h.exists_parting
  have hend : Config.start.after (common ++ ⟨some .first, a⟩ :: d') ∈
      (⟨some .first, a⟩ :: d').map Move.goal := by
    rw [Config.after_append]
    exact Config.after_mem_map_goal _ _ _
  rw [Config.along_append, List.mem_append]
  rintro (hx | hx)
  · -- the run `d` would come twice to its end
    rw [Simple, Config.along_append, List.nodup_append'] at hsimple
    exact hsimple.2.2 hx hend
  · -- change over to `r` where it meets `d` for the last time
    obtain ⟨m, hm, hgoal⟩ := List.mem_map.mp hx
    obtain ⟨u, n, v, front, m, back, hdsplit, hrsplit, hgoal, hlast⟩ :=
      exists_last_meeting ⟨m, hm, hgoal ▸ hend⟩
    rw [hdsplit, List.append_cons u] at hd hsimple hlast
    have haccepts := hr.accepts
    have hrsimple := hr.simple
    rw [hrsplit, List.append_cons front] at haccepts hrsimple
    have hmeet : (Config.start.after common).after (u ++ [n]) =
        (Config.start.after common).after (front ++ [m]) := by
      simpa using hgoal
    have hnew : p.Accepts subject .start (common ++ ((u ++ [n]) ++ back)) := by
      obtain ⟨hcommon, haccepts⟩ := accepts_append.mp haccepts
      exact accepts_append.mpr ⟨hcommon, haccepts.change_over (path_append.mp hd).2 hmeet⟩
    have hnewsimple : Simple (common ++ ((u ++ [n]) ++ back)) := by
      refine hsimple.change_over hrsimple fun k hk hkd => hlast k hk ?_
      rw [List.map_append]
      exact List.mem_append_left _ hkd
    refine hr.not_preferred hnew hnewsimple ((Preferred.append_left_iff common).mpr ?_)
    -- the new run still takes the first target
    cases u with
    | nil =>
      obtain ⟨rfl, -⟩ := List.cons.inj hdsplit
      exact .here _ _
    | cons k u =>
      obtain ⟨rfl, -⟩ := List.cons.inj hdsplit
      exact .here _ _

end Program

end RegexMachine
