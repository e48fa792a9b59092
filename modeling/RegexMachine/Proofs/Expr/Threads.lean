import RegexMachine.Proofs.Expr.Recognition
import RegexMachine.Proofs.Run.Stages

/-!
# How many threads a run has

At one offset there is at most one thread for each instruction that reads or accepts, whatever the
program. A program that was built from an expression has at least one thread at the start: every
expression stands for some text, and without a thread nothing would be found in it.
-/

namespace RegexMachine

namespace Expr

theorem exists_mem_languages {parts : List Expr} (ih : ∀ e ∈ parts, ∃ w, w ∈ e.language) :
    ∃ w, w ∈ languages parts := by
  induction parts with
  | nil => exact ⟨[], rfl⟩
  | cons e es ihes =>
    obtain ⟨u, hu⟩ := ih e List.mem_cons_self
    obtain ⟨v, hv⟩ := ihes fun e he => ih e (List.mem_cons_of_mem _ he)
    rw [languages]
    exact ⟨u ++ v, Language.mem_mul.mpr ⟨u, hu, v, hv, rfl⟩⟩

/-- No expression is without words. -/
theorem exists_mem_language (e : Expr) : ∃ w, w ∈ e.language := by
  induction e with
  | literal c => exact ⟨[c], rfl⟩
  | concat parts ih => exact exists_mem_languages ih
  | alternation first second ih₁ ih₂ =>
    obtain ⟨w, hw⟩ := ih₁
    exact ⟨w, .inl hw⟩
  | repetition q greedy body ih =>
    obtain ⟨w, hw⟩ := ih
    cases q with
    | star => exact ⟨[], Language.nil_mem_kstar _⟩
    | plus =>
      refine ⟨w ++ [], Language.mem_mul.mpr ⟨w, hw, [], Language.nil_mem_kstar _, rfl⟩⟩
    | question => exact ⟨w, .inl hw⟩
  | group capture body ih => exact ih

variable {e : Expr} {m : Machine}

/-- A machine for an expression has a thread at the start of every subject. -/
theorem size_reset_ne_zero (h : e.program = .ok m.program) (hfits : m.Fits) :
    m.reset.current.size ≠ 0 := by
  intro hsize
  obtain ⟨w, hw⟩ := e.exists_mem_language
  have hsubject : (String.ofList w).toList = w ++ [] := by simp
  obtain ⟨r, hr⟩ := exists_accepts_of_word (placedIn h) hsubject hw
  have hnone := Machine.captures_eq_none_of_size_eq_zero hsize (String.ofList w)
  exact (Machine.captures_eq_none_iff hfits _).mp hnone r hr

end Expr

/-- **Threads**: on every list of a run, the threads stand at different instructions, each of which
reads or accepts and is marked, and no instruction was expanded twice. The peak is the largest size
of a list, so it is at most the number of instructions that read or accept, and for the program of
an expression it is not zero. -/
theorem Machine.threads_of_stages (p : Program) (earlier : List String) (subject : String) :
    (∀ s ∈ (used p earlier).stagesOf subject,
      (s.list.threads.toList.map Thread.pc).Nodup ∧
      (∀ t ∈ s.list.threads, p.Waits t.pc ∧ s.list.visited[t.pc]? = some true) ∧
      s.expanded.Nodup ∧ ∀ pc, s.list.visited[pc]? = some true ↔ pc ∈ s.expanded) ∧
    (∀ n, ((used p earlier).captures subject).2.peak ≤ n ↔
      ∀ s ∈ (used p earlier).stagesOf subject, s.list.size ≤ n) ∧
    ((used p earlier).captures subject).2.peak ≤ p.waiting ∧ p.waiting ≤ p.size ∧
    ∀ e : Expr, e.program = .ok p → 1 ≤ ((used p earlier).captures subject).2.peak := by
  obtain ⟨hfits, hprogram⟩ := used_spec p earlier
  have hbuilt := hfits.built_stages subject
  have hpeak := hfits.peak_le_waiting subject
  rw [hprogram] at hbuilt hpeak
  refine ⟨fun s hs => ?_, peak_captures_le_iff _ subject, hpeak, p.waiting_le_size, fun e he => ?_⟩
  · obtain ⟨⟨-, hnodup, hmarked⟩, hparked⟩ := hbuilt s hs
    refine ⟨?_, fun t ht => ?_, hnodup, hmarked⟩
    · rw [hparked]
      exact hnodup.filter _
    · have hmem : t.pc ∈ s.expanded.filter p.waits := by
        rw [← hparked]
        exact List.mem_map_of_mem (Array.mem_toList_iff.mpr ht)
      obtain ⟨hexpanded, hwaits⟩ := List.mem_filter.mp hmem
      exact ⟨Program.waits_iff.mp hwaits, (hmarked t.pc).mpr hexpanded⟩
  · rw [← hprogram] at he
    have hfirst := Expr.size_reset_ne_zero he hfits
    have hle := size_reset_le_peak (used p earlier) subject
    omega

/-- Both alternatives come to the same places behind them. -/
theorem Machine.threads_of_converging : ∃ p,
    (Expr.repetition .star true (.alternation (.literal 'a') (.literal 'a'))).program = .ok p ∧
    1 ≤ ((used p ["b"]).captures "aa").2.peak ∧
    ((used p ["b"]).captures "aa").2.peak ≤ p.waiting := by
  obtain ⟨p, hp⟩ := Expr.exists_program
    (e := .repetition .star true (.alternation (.literal 'a') (.literal 'a'))) (by decide)
  obtain ⟨-, -, hle, -, hpos⟩ := threads_of_stages p ["b"] "aa"
  exact ⟨p, hp, hpos _ hp, hle⟩

end RegexMachine
