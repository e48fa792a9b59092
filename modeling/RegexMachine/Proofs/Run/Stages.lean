import RegexMachine.Proofs.Run.Captures
import Mathlib.Data.List.Nodup

/-!
# The thread lists of a run

In a run the machine builds one thread list for each offset that it comes to. The **stages** of the
run are these lists, each together with the instructions that were expanded while it was built, in
order and as often as it happened.

* **building** — a list is `Built` from its expansions: no instruction is expanded twice, the marked
  instructions are those that were expanded, and the threads stand at those among them that read or
  accept, in the same order. `Program.follow` and `Program.sweep` preserve it;
* **offsets** — there is one stage for each character that the run reads and one at the start
  (`offset_stagesOf`);
* **peak** — the number that the machine reports is the largest size of a stage
  (`peak_captures_le_iff`), so it is at most the number of instructions that read or accept.
-/

namespace RegexMachine

/-- A thread waits at an instruction that reads or accepts. -/
def Instruction.waits {L : Type} : Instruction L → Bool
  | char _ | accept => true
  | jump _ | split _ _ | save _ | nop => false

namespace Program

/-- A thread waits at `pc`. -/
def waits (p : Program) (pc : Nat) : Bool := p.code[pc]?.any Instruction.waits

/-- Number of instructions that read or accept. -/
def waiting (p : Program) : Nat := p.code.countP Instruction.waits

/-- The instructions that `Program.follow` expands, in order. -/
def expansions (p : Program) (offset : Nat) (list : ThreadList) : List Thread → List Nat
  | [] => []
  | t :: stack =>
    if _ : list.isFresh t.pc = true then
      t.pc :: match p.expand offset t with
        | none => p.expansions offset ((list.mark t.pc).park t) stack
        | some onward => p.expansions offset (list.mark t.pc) (onward ++ stack)
    else p.expansions offset list stack
termination_by stack => (list.freshCount, stack.length)
decreasing_by
  · exact Prod.Lex.left _ _ (ThreadList.freshCount_mark_lt ‹_›)
  · exact Prod.Lex.left _ _ (ThreadList.freshCount_mark_lt ‹_›)
  · exact Prod.Lex.right _ (by simp)

/-- The instructions that `Program.sweep` expands for the next list, in order. -/
def sweepExpansions (p : Program) (c : Option Char) (after : Nat) (next : ThreadList) :
    List Thread → List Nat
  | [] => []
  | t :: ts =>
    match p.code[t.pc]? with
    | some .accept => []
    | some (.char expected) =>
      if c = some expected then
        p.expansions after next [⟨t.pc + 1, t.slots⟩] ++
          p.sweepExpansions c after (p.follow after next [⟨t.pc + 1, t.slots⟩]) ts
      else p.sweepExpansions c after next ts
    | _ => p.sweepExpansions c after next ts

end Program

/-- A thread list that a machine has built at one offset. -/
structure Stage where
  /-- the offset in the subject, in bytes -/
  offset : Nat
  /-- the threads there, and the marks -/
  list : ThreadList
  /-- the instructions that were expanded for it -/
  expanded : List Nat

namespace Machine

/-- The stages of `Machine.feed`, where `expanded` belongs to the current list. A list without
threads is the last one. -/
def stages (m : Machine) (offset : Nat) (expanded : List Nat) (found : Option Slots) :
    List Char → List Stage
  | [] => [⟨offset, m.current, expanded⟩]
  | c :: cs =>
    let after := offset + c.utf8Size
    let later := m.program.sweepExpansions (some c) after m.next m.current.threads.toList
    let (m', found) := m.step (some c) after found
    ⟨offset, m.current, expanded⟩ ::
      if m'.current.size = 0 then [⟨after, m'.current, later⟩]
      else m'.stages after later found cs

/-- The stages of `Machine.captures`. -/
def stagesOf (m : Machine) (subject : String) : List Stage :=
  let seed : Thread := ⟨0, Array.replicate m.program.slots none⟩
  m.reset.stages 0 (m.program.expansions 0 m.current.clear [seed]) none subject.toList

end Machine

/-! ## Building a list -/

namespace ThreadList

variable {p : Program} {list : ThreadList} {expanded : List Nat} {stack : List Thread} {t : Thread}
  {pc : Nat}

/-- The marks of a list for which these instructions were expanded. -/
structure Marked (p : Program) (list : ThreadList) (expanded : List Nat) : Prop where
  /-- there is a mark for every instruction -/
  size_eq : list.visited.size = p.size
  /-- nothing was expanded twice -/
  nodup : expanded.Nodup
  /-- what was expanded is marked, and nothing else -/
  marked : ∀ pc, list.visited[pc]? = some true ↔ pc ∈ expanded

/-- How a list comes from the instructions that were expanded for it. -/
structure Built (p : Program) (list : ThreadList) (expanded : List Nat) : Prop
    extends list.Marked p expanded where
  /-- threads were parked where they have to wait -/
  parked : list.threads.toList.map Thread.pc = expanded.filter p.waits

theorem built_clear (h : list.visited.size = p.size) : list.clear.Built p [] where
  size_eq := list.size_visited_clear.trans h
  nodup := List.nodup_nil
  marked pc := by simp [clear]
  parked := by simp [clear]

theorem Marked.not_mem_of_isFresh (h : list.Marked p expanded) (hfresh : list.isFresh pc = true) :
    pc ∉ expanded := by
  intro hmem
  have hmark := (h.marked pc).mpr hmem
  rw [isFresh, hmark] at hfresh
  cases hfresh

theorem Marked.mark (h : list.Marked p expanded) (hfresh : list.isFresh pc = true) :
    (list.mark pc).Marked p (expanded ++ [pc]) where
  size_eq := (list.size_visited_mark pc).trans h.size_eq
  nodup := by
    rw [List.nodup_append']
    exact ⟨h.nodup, List.nodup_singleton pc,
      List.disjoint_singleton.mpr (h.not_mem_of_isFresh hfresh)⟩
  marked other := by
    have hlt : pc < list.visited.size :=
      (Array.getElem?_eq_some_iff.mp (beq_iff_eq.mp hfresh)).1
    rw [ThreadList.mark, Array.getElem?_setIfInBounds, List.mem_append, List.mem_singleton]
    split_ifs with heq
    · simp [heq]
    · rw [h.marked other]
      simp [Ne.symm heq]

/-- At a fresh instruction a thread goes on. -/
theorem Built.mark (h : list.Built p expanded) (hfresh : list.isFresh pc = true)
    (hgoes : p.waits pc = false) : (list.mark pc).Built p (expanded ++ [pc]) where
  toMarked := h.toMarked.mark hfresh
  parked := by
    rw [List.filter_append, List.filter_singleton, hgoes]
    simpa [ThreadList.mark] using h.parked

/-- At a fresh instruction a thread has to wait. -/
theorem Built.park (h : list.Built p expanded) (hfresh : list.isFresh t.pc = true)
    (hwaits : p.waits t.pc = true) : ((list.mark t.pc).park t).Built p (expanded ++ [t.pc]) where
  toMarked := by
    -- the marks are those of the list without the thread
    obtain ⟨hsize, hnodup, hmarked⟩ := h.toMarked.mark hfresh
    exact ⟨hsize, hnodup, hmarked⟩
  parked := by
    rw [List.filter_append, List.filter_singleton, hwaits]
    simpa [ThreadList.mark, ThreadList.park] using h.parked

end ThreadList

namespace Program

variable {p : Program} {list next : ThreadList} {expanded : List Nat} {offset after : Nat}

theorem waits_iff {pc : Nat} : p.waits pc = true ↔ p.Waits pc := by
  rw [waits, Waits]
  cases p.code[pc]? with
  | none => simp
  | some i => cases i <;> simp [Instruction.waits]

theorem waits_of_expand_eq_none {t : Thread} (h : p.expand offset t = none) :
    p.waits t.pc = true := by
  rw [expand] at h
  rw [waits]
  split at h <;> simp_all [Instruction.waits]

theorem not_waits_of_expand_eq_some {t : Thread} {onward : List Thread}
    (h : p.expand offset t = some onward) : p.waits t.pc = false := by
  rw [expand] at h
  rw [waits]
  split at h <;> simp_all [Instruction.waits]

/-- **Following** builds on. -/
theorem built_follow (h : list.Built p expanded) (offset : Nat) (stack : List Thread) :
    (p.follow offset list stack).Built p (expanded ++ p.expansions offset list stack) := by
  induction list, stack using follow.induct p offset generalizing expanded with
  | case1 list =>
    rw [follow, expansions, List.append_nil]
    exact h
  | case2 list t stack hfresh hexpand ih =>
    have hmore := ih (h.park hfresh (waits_of_expand_eq_none hexpand))
    rw [follow, dif_pos hfresh, expansions, dif_pos hfresh, hexpand]
    rwa [List.append_assoc] at hmore
  | case3 list t stack hfresh onward hexpand ih =>
    have hmore := ih (h.mark hfresh (not_waits_of_expand_eq_some hexpand))
    rw [follow, dif_pos hfresh, expansions, dif_pos hfresh, hexpand]
    rwa [List.append_assoc] at hmore
  | case4 list t stack hlate ih =>
    rw [follow, dif_neg hlate, expansions, dif_neg hlate]
    exact ih h

/-- **Sweeping** builds the next list on. -/
theorem built_sweep (h : next.Built p expanded) (c : Option Char) (after : Nat)
    (found : Option Slots) (threads : List Thread) :
    (p.sweep c after next found threads).1.Built p
      (expanded ++ p.sweepExpansions c after next threads) := by
  induction threads generalizing next expanded with
  | nil =>
    rw [sweep, sweepExpansions, List.append_nil]
    exact h
  | cons t threads ih =>
    rw [sweep, sweepExpansions]
    cases p.code[t.pc]? with
    | none => exact ih h
    | some i =>
      cases i with
      | accept =>
        rw [List.append_nil]
        exact h
      | char expected =>
        simp only
        split_ifs
        · have hmore := ih (built_follow h after [⟨t.pc + 1, t.slots⟩])
          rwa [List.append_assoc] at hmore
        · exact ih h
      | jump | split | save | nop => exact ih h

/-- Different instructions at which threads wait are among those that read or accept. -/
theorem length_le_waiting {l : List Nat} (hnodup : l.Nodup) (hwaits : ∀ pc ∈ l, p.waits pc = true) :
    l.length ≤ p.waiting := by
  have hcount : ∀ code : List (Instruction Nat),
      (List.range code.length).countP (fun pc => code[pc]?.any Instruction.waits) =
        code.countP Instruction.waits := by
    intro code
    induction code with
    | nil => rfl
    | cons i code ih =>
      rw [List.length_cons, List.range_succ_eq_map, List.countP_cons, List.countP_map,
        List.countP_cons, ← ih]
      rfl
  have hsub : l ⊆ (List.range p.size).filter p.waits := by
    intro pc hpc
    have hpcwaits := hwaits pc hpc
    rw [List.mem_filter, List.mem_range]
    refine ⟨?_, hpcwaits⟩
    rw [waits, Option.any_eq_true] at hpcwaits
    obtain ⟨i, hi, -⟩ := hpcwaits
    exact lt_size_of_getElem? hi
  have hle := (hnodup.subperm hsub).length_le
  rw [← List.countP_eq_length_filter] at hle
  rw [waiting, ← Array.countP_toList, ← hcount, Array.length_toList]
  simp only [Array.getElem?_toList]
  exact hle

theorem waiting_le_size (p : Program) : p.waiting ≤ p.size := Array.countP_le_size

end Program

/-! ## The whole run -/

namespace Machine

variable {m : Machine} {expanded : List Nat}

/-- The current list is built, and the next one is still blank. -/
structure Building (m : Machine) (expanded : List Nat) : Prop where
  /-- the current list was built from what was expanded -/
  current : m.current.Built m.program expanded
  /-- the next list is blank -/
  next : m.next.Built m.program []

/-- One character: the machine builds the next list and clears the other one. -/
theorem Building.step (h : m.Building expanded) (c : Option Char) (after : Nat)
    (found : Option Slots) :
    (m.step c after found).1.Building
      (m.program.sweepExpansions c after m.next m.current.threads.toList) where
  current := Program.built_sweep h.next c after found _
  next := ThreadList.built_clear h.current.size_eq

/-- **All stages** are built from their expansions. -/
theorem Building.stages (h : m.Building expanded) (offset : Nat) (found : Option Slots)
    (cs : List Char) :
    ∀ s ∈ m.stages offset expanded found cs, s.list.Built m.program s.expanded := by
  induction cs generalizing m offset expanded found with
  | nil =>
    intro s hs
    obtain rfl := List.mem_singleton.mp hs
    exact h.current
  | cons c cs ih =>
    have hstep := h.step (some c) (offset + c.utf8Size) found
    intro s hs
    rw [Machine.stages] at hs
    rcases List.mem_cons.mp hs with rfl | hs
    · exact h.current
    · simp only at hs
      split_ifs at hs
      · obtain rfl := List.mem_singleton.mp hs
        exact hstep.current
      · exact ih hstep _ _ s hs

theorem offset_stages {offset : Nat} {found : Option Slots} {cs : List Char} {k : Nat} {s : Stage}
    (hs : (m.stages offset expanded found cs)[k]? = some s) :
    s.offset = offset + Text.byteSize (cs.take k) := by
  induction cs generalizing m offset expanded found k with
  | nil =>
    obtain rfl := List.mem_singleton.mp (List.mem_of_getElem? hs)
    simp
  | cons c cs ih =>
    rw [stages] at hs
    cases k with
    | zero =>
      obtain rfl := Option.some.inj hs
      simp
    | succ k =>
      rw [List.getElem?_cons_succ] at hs
      rw [List.take_succ_cons, Text.byteSize_cons, ← Nat.add_assoc]
      split_ifs at hs
      · obtain ⟨hk, rfl⟩ := List.getElem?_eq_some_iff.mp hs
        obtain rfl : k = 0 := Nat.lt_one_iff.mp hk
        simp
      · exact ih hs

/-- **Offsets**: a run has one stage for each character that it reads and one at the start, each at
the byte where it has come to. -/
theorem offset_stagesOf {subject : String} {k : Nat} {s : Stage}
    (hs : (m.stagesOf subject)[k]? = some s) :
    s.offset = Text.byteSize (subject.toList.take k) := by
  rw [offset_stages hs, Nat.zero_add]

/-- The peak is the largest number of threads of a stage. -/
theorem peak_feed_le_iff (m : Machine) (offset : Nat) (expanded : List Nat) (found : Option Slots)
    (cs : List Char) (n : Nat) :
    (m.feed offset found cs).1.peak ≤ n ↔
      m.peak ≤ n ∧ ∀ s ∈ m.stages offset expanded found cs, s.list.size ≤ n := by
  induction cs generalizing m offset expanded found with
  | nil =>
    rw [feed, stages, List.forall_mem_singleton]
    exact Nat.max_le
  | cons c cs ih =>
    have hpeak : (m.step (some c) (offset + c.utf8Size) found).1.peak ≤ n ↔
        m.peak ≤ n ∧ m.current.size ≤ n := Nat.max_le
    rw [feed_cons, stages, List.forall_mem_cons, ← and_assoc, ← hpeak]
    split_ifs with hempty
    · rw [List.forall_mem_singleton, hempty]
      exact (and_iff_left (Nat.zero_le n)).symm
    · exact ih _ _ _ _

theorem peak_captures_le_iff (m : Machine) (subject : String) (n : Nat) :
    (m.captures subject).2.peak ≤ n ↔ ∀ s ∈ m.stagesOf subject, s.list.size ≤ n := by
  have hiff := peak_feed_le_iff m.reset 0
    (m.program.expansions 0 m.current.clear [⟨0, Array.replicate m.program.slots none⟩]) none
    subject.toList n
  have hreset : m.reset.peak ≤ n := Nat.zero_le n
  exact hiff.trans (and_iff_right hreset)

theorem Fits.building (h : m.Fits) :
    m.reset.Building
      (m.program.expansions 0 m.current.clear [⟨0, Array.replicate m.program.slots none⟩]) where
  current := by
    have hbuilt := Program.built_follow (ThreadList.built_clear h.current) 0
      [⟨0, Array.replicate m.program.slots none⟩]
    rwa [List.nil_append] at hbuilt
  next := ThreadList.built_clear h.next

/-- What is true of every stage of a run. -/
theorem Fits.built_stages (h : m.Fits) (subject : String) :
    ∀ s ∈ m.stagesOf subject, s.list.Built m.program s.expanded :=
  h.building.stages 0 none subject.toList

theorem Fits.peak_le_waiting (h : m.Fits) (subject : String) :
    (m.captures subject).2.peak ≤ m.program.waiting := by
  rw [peak_captures_le_iff]
  intro s hs
  have hbuilt := h.built_stages subject s hs
  have hsize : s.list.size = (s.expanded.filter m.program.waits).length := by
    rw [← hbuilt.parked, List.length_map, Array.length_toList, ThreadList.size]
  rw [hsize]
  exact Program.length_le_waiting (hbuilt.nodup.filter _) fun pc hpc => (List.mem_filter.mp hpc).2

/-- The first stage is the start of the subject. -/
theorem size_reset_le_peak (m : Machine) (subject : String) :
    m.reset.current.size ≤ (m.captures subject).2.peak := by
  have hstages := (peak_captures_le_iff m subject _).mp (Nat.le_refl _)
  have hfirst : ⟨0, m.reset.current,
      m.program.expansions 0 m.current.clear [⟨0, Array.replicate m.program.slots none⟩]⟩ ∈
        m.stagesOf subject := by
    rw [stagesOf]
    cases subject.toList with
    | nil => exact List.mem_cons_self
    | cons c cs => exact List.mem_cons_self
  exact hstages _ hfirst

/-- Without a first thread there is nothing to find. -/
theorem captures_eq_none_of_size_eq_zero (hsize : m.reset.current.size = 0)
    (subject : String) : (m.captures subject).1 = none := by
  have hthreads : m.reset.current.threads.toList = [] := by
    rw [ThreadList.size, Array.size_eq_zero_iff] at hsize
    rw [hsize]
  have hstep (c : Option Char) (after : Nat) :
      (m.reset.step c after none).2 = none ∧ (m.reset.step c after none).1.current.size = 0 := by
    rw [step, hthreads]
    exact ⟨rfl, rfl⟩
  rw [captures_fst]
  cases subject.toList with
  | nil => rw [feed, (hstep none 0).1, Option.map_none]
  | cons c cs => rw [feed_cons, if_pos (hstep _ _).2, (hstep _ _).1, Option.map_none]

end Machine

end RegexMachine
