import RegexMachine.Proofs.Run.Captures

/-!
# A used machine is as good as a new one

A machine is run on many subjects, and its lists stay where a run stopped: behind a thread that
accepted there may be others, and marks are set wherever threads came. `Machine.reset` forgets all
of it (`reset_eq`), since clearing a list leaves nothing but its size. So in a **session**, one
machine and many subjects, every answer is that of a new machine (`session_eq_map`).

The machine follows threads with a stack of its own each time. **Buffers** are the machine with one
stack for all of its runs, whose threads stay there unless someone takes them off, and with lists
that change places while their marks are still set. The stack is empty whenever a thread is put on
it, so buffers do the same work as the machine (`Buffers.captures_buffers`).
-/

namespace RegexMachine

/-! ## Sessions -/

/-- Clearing leaves nothing but the size. -/
theorem ThreadList.clear_eq_empty (list : ThreadList) : list.clear = empty list.visited.size := by
  have hmarks : list.visited.map (fun _ => false) = Array.replicate list.visited.size false := by
    ext pc hpc hpc'
    · simp
    · simp
  rw [clear, empty, hmarks]

namespace Machine

variable {m : Machine}

/-- What is left of earlier runs makes no difference to the start of a run. -/
theorem reset_eq (h : m.Fits) : m.reset = (ofProgram m.program).reset := by
  have hnew := fits_ofProgram m.program
  simp only [reset, ThreadList.clear_eq_empty, h.current, h.next, hnew.current, hnew.next]
  rfl

/-- So it makes none to the whole run, nor to what is left of that. -/
theorem captures_eq_new (h : m.Fits) (subject : String) :
    m.captures subject = (ofProgram m.program).captures subject := by
  rw [captures, captures, reset_eq h]

/-- Runs a machine on one subject after the other. Answers what it found and how many threads there
were at most. -/
def session (m : Machine) : List String → List (Option Captures × Nat)
  | [] => []
  | subject :: later =>
    let (found, m) := m.captures subject
    (found, m.peak) :: m.session later

/-- What a new machine answers to one subject. -/
def answer (p : Program) (subject : String) : Option Captures × Nat :=
  let (found, m) := (ofProgram p).captures subject
  (found, m.peak)

theorem session_of_fits (h : m.Fits) (subjects : List String) :
    m.session subjects = subjects.map (answer m.program) := by
  induction subjects generalizing m with
  | nil => rfl
  | cons subject later ih =>
    have hprogram : (m.captures subject).2.program = m.program := program_feed ..
    have hlater := ih (h.captures subject)
    rw [hprogram] at hlater
    have hfirst : ((m.captures subject).1, (m.captures subject).2.peak) =
        answer m.program subject := by
      rw [captures_eq_new h]
      rfl
    rw [session, List.map_cons, ← hlater, ← hfirst]

end Machine

/-! ## One stack for all runs -/

/-- Takes threads off a stack and follows them until none is left, and gives the stack back. -/
def Program.unwind (p : Program) (offset : Nat) (list : ThreadList) :
    List Thread → ThreadList × List Thread
  | [] => (list, [])
  | t :: stack =>
    if _ : list.isFresh t.pc = true then
      match p.expand offset t with
      | none => p.unwind offset ((list.mark t.pc).park t) stack
      | some onward => p.unwind offset (list.mark t.pc) (onward ++ stack)
    else p.unwind offset list stack
termination_by stack => (list.freshCount, stack.length)
decreasing_by
  · exact Prod.Lex.left _ _ (ThreadList.freshCount_mark_lt ‹_›)
  · exact Prod.Lex.left _ _ (ThreadList.freshCount_mark_lt ‹_›)
  · exact Prod.Lex.right _ (by simp)

/-- `Program.sweep` with a stack that is there already. -/
def Program.drain (p : Program) (c : Option Char) (after : Nat) (next : ThreadList)
    (stack : List Thread) (found : Option Slots) :
    List Thread → ThreadList × List Thread × Option Slots
  | [] => (next, stack, found)
  | t :: ts =>
    match p.code[t.pc]? with
    | some .accept => (next, stack, some t.slots)
    | some (.char expected) =>
      if c = some expected then
        let (next, stack) := p.unwind after next (⟨t.pc + 1, t.slots⟩ :: stack)
        p.drain c after next stack found ts
      else p.drain c after next stack found ts
    | _ => p.drain c after next stack found ts

/-- What a machine keeps from run to run. -/
structure Buffers where
  /-- the program -/
  program : Program
  /-- the threads at the current offset -/
  current : ThreadList
  /-- the threads at the next offset, as far as they are known -/
  next : ThreadList
  /-- the threads that are still to be followed -/
  stack : List Thread
  /-- the largest number of threads at one offset of the last run -/
  peak : Nat

/-- What a machine keeps, if no thread is left to be followed. -/
def Machine.buffers (m : Machine) : Buffers := ⟨m.program, m.current, m.next, [], m.peak⟩

namespace Buffers

/-- The buffers of a machine that did not run yet. -/
def ofProgram (p : Program) : Buffers := (Machine.ofProgram p).buffers

/-- `Machine.reset` with the stack as it is. -/
def reset (b : Buffers) : Buffers :=
  let seed : Thread := ⟨0, Array.replicate b.program.slots none⟩
  let (current, stack) := b.program.unwind 0 b.current.clear (seed :: b.stack)
  { b with current, next := b.next.clear, stack, peak := 0 }

/-- `Machine.step` with the stack as it is. All threads leave the current list, those behind a
thread that accepted as well, and then the lists change places. -/
def step (b : Buffers) (c : Option Char) (after : Nat) (found : Option Slots) :
    Buffers × Option Slots :=
  let peak := max b.peak b.current.size
  let (next, stack, found) := b.program.drain c after b.next b.stack found b.current.threads.toList
  let drained : ThreadList := { b.current with threads := #[] }
  (⟨b.program, next, drained.clear, stack, peak⟩, found)

/-- `Machine.feed` with the stack as it is. -/
def feed (b : Buffers) (offset : Nat) (found : Option Slots) : List Char → Buffers × Option Slots
  | [] => b.step none offset found
  | c :: cs =>
    let after := offset + c.utf8Size
    let (b, found) := b.step (some c) after found
    if b.current.size = 0 then (b, found) else b.feed after found cs

/-- `Machine.captures` with the stack as it is. -/
def captures (b : Buffers) (subject : String) : Option Captures × Buffers :=
  let (b, found) := b.reset.feed 0 none subject.toList
  (found.map (⟨subject, ·⟩), b)

/-- `Machine.session` with the stack as it is. -/
def session (b : Buffers) : List String → List (Option Captures × Nat)
  | [] => []
  | subject :: later =>
    let (found, b) := b.captures subject
    (found, b.peak) :: b.session later

end Buffers

variable {p : Program}

/-- Nothing stays on the stack. -/
theorem Program.unwind_eq (offset : Nat) (list : ThreadList) (stack : List Thread) :
    p.unwind offset list stack = (p.follow offset list stack, []) := by
  induction list, stack using Program.follow.induct p offset with
  | case1 list => rw [unwind, follow]
  | case2 list t stack hfresh hexpand ih =>
    rw [unwind, follow, dif_pos hfresh, dif_pos hfresh, hexpand]
    exact ih
  | case3 list t stack hfresh onward hexpand ih =>
    rw [unwind, follow, dif_pos hfresh, dif_pos hfresh, hexpand]
    exact ih
  | case4 list t stack hlate ih =>
    rw [unwind, follow, dif_neg hlate, dif_neg hlate]
    exact ih

theorem Program.drain_eq (c : Option Char) (after : Nat) (next : ThreadList) (found : Option Slots)
    (threads : List Thread) :
    p.drain c after next [] found threads =
      ((p.sweep c after next found threads).1, [], (p.sweep c after next found threads).2) := by
  induction threads generalizing next with
  | nil => rfl
  | cons t threads ih =>
    rw [drain, sweep]
    cases p.code[t.pc]? with
    | none => exact ih next
    | some i =>
      cases i with
      | accept => rfl
      | char expected =>
        simp only
        split_ifs
        · rw [unwind_eq]
          exact ih _
        · exact ih next
      | jump | split | save | nop => exact ih next

namespace Buffers

variable (m : Machine)

theorem reset_buffers : m.buffers.reset = m.reset.buffers := by
  rw [reset, Machine.buffers, Program.unwind_eq]
  rfl

theorem step_buffers (c : Option Char) (after : Nat) (found : Option Slots) :
    m.buffers.step c after found =
      ((m.step c after found).1.buffers, (m.step c after found).2) := by
  rw [step, Machine.buffers, Program.drain_eq]
  rfl

theorem feed_buffers (offset : Nat) (found : Option Slots) (cs : List Char) :
    m.buffers.feed offset found cs =
      ((m.feed offset found cs).1.buffers, (m.feed offset found cs).2) := by
  induction cs generalizing m offset found with
  | nil => exact step_buffers m none offset found
  | cons c cs ih =>
    rw [feed, step_buffers, Machine.feed_cons]
    split_ifs with hempty
    · exact if_pos hempty
    · exact (if_neg hempty).trans (ih _ _ _)

/-- **One stack**: a run leaves the stack empty and does what the run of the machine does. -/
theorem captures_buffers (subject : String) :
    m.buffers.captures subject = ((m.captures subject).1, (m.captures subject).2.buffers) := by
  rw [captures, reset_buffers, feed_buffers]
  rfl

theorem session_buffers (subjects : List String) :
    m.buffers.session subjects = m.session subjects := by
  induction subjects generalizing m with
  | nil => rfl
  | cons subject later ih =>
    rw [session, captures_buffers, Machine.session]
    exact congrArg _ (ih _)

end Buffers

/-- **No memory**: in a session the answers are those of a new machine for each subject, also if all
runs share one stack. -/
theorem Machine.session_eq_map (p : Program) (subjects : List String) :
    (ofProgram p).session subjects = subjects.map (answer p) ∧
      (Buffers.ofProgram p).session subjects = subjects.map (answer p) := by
  have hsession := session_of_fits (fits_ofProgram p) subjects
  refine ⟨hsession, ?_⟩
  rw [Buffers.ofProgram, Buffers.session_buffers]
  exact hsession

end RegexMachine
