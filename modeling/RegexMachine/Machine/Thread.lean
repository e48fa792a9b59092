import RegexMachine.Program.Basic

/-!
# Threads of the matching machine

A thread is a place in the program with its own slots. All threads of a machine stand at the same
byte offset of the subject, in order of preference, in a `ThreadList`.

A thread list is built by **following** threads (`Program.follow`) through the instructions that
read nothing, up to those that wait for a character or accept:

* **fresh** — a thread that comes to an instruction as the first one marks it and goes on;
* **late** — a thread that comes to a marked instruction is dropped: what it could still do is done
  by a thread that is preferred to it.

So no instruction is on the list twice, and following ends although programs may run in circles.

A list has one mark for every instruction of the program, no more and no fewer: a machine makes its
lists that way, and nothing changes the number of marks. A place behind the last mark counts as
late. Nothing depends on this, since the threads of a program whose targets were checked stay at its
instructions.
-/

namespace RegexMachine

/-- The slots of a thread: byte offsets, where one was noted. -/
abbrev Slots : Type := Array (Option Nat)

/-- A place in a program, and the offsets noted on the way to it. -/
structure Thread where
  /-- the instruction at which the thread stands -/
  pc : Nat
  /-- the offsets noted so far -/
  slots : Slots
  deriving DecidableEq, Repr

/-- The threads at one offset, in order of preference. -/
structure ThreadList where
  /-- for every instruction of the program, and for no other place, whether a thread came to it at
  this offset -/
  visited : Array Bool
  /-- the threads that wait for a character or accept -/
  threads : Array Thread

namespace ThreadList

/-- No threads, for a program of so many instructions. -/
def empty (size : Nat) : ThreadList := ⟨Array.replicate size false, #[]⟩

/-- The list without its threads and marks. -/
def clear (list : ThreadList) : ThreadList := ⟨list.visited.map fun _ => false, #[]⟩

/-- Number of threads. -/
def size (list : ThreadList) : Nat := list.threads.size

/-- Whether no thread came to `pc` yet. This is asked of instructions of the program only, and each
of them has a mark; a place without a mark is not fresh. -/
def isFresh (list : ThreadList) (pc : Nat) : Bool := list.visited[pc]? == some false

/-- Marks `pc`, an instruction of the program. A place without a mark does not get one. -/
def mark (list : ThreadList) (pc : Nat) : ThreadList :=
  { list with visited := list.visited.setIfInBounds pc true }

/-- Adds a thread behind the others. -/
def park (list : ThreadList) (t : Thread) : ThreadList :=
  { list with threads := list.threads.push t }

/-- Number of instructions to which no thread came yet. -/
def freshCount (list : ThreadList) : Nat := list.visited.count false

@[simp] theorem freshCount_park (list : ThreadList) (t : Thread) :
    (list.park t).freshCount = list.freshCount := rfl

/-- Marking a fresh instruction uses it up. -/
theorem freshCount_mark_lt {list : ThreadList} {pc : Nat} (fresh : list.isFresh pc = true) :
    (list.mark pc).freshCount < list.freshCount := by
  obtain ⟨inside, unmarked⟩ := Array.getElem?_eq_some_iff.1 (beq_iff_eq.1 fresh)
  have present : false ∈ list.visited := unmarked ▸ Array.getElem_mem inside
  have positive : 0 < list.visited.count false := Array.count_pos_iff.2 present
  have marked : (list.mark pc).freshCount = list.visited.count false - 1 := by
    simp [freshCount, mark, Array.setIfInBounds, inside, Array.count_set inside, unmarked]
  rw [marked, freshCount]
  omega

end ThreadList

/-- What a thread at byte `offset` turns into by the instruction at which it stands: nothing if it
has to wait there, else the threads that go on, the preferred one first. -/
def Program.expand (p : Program) (offset : Nat) (t : Thread) : Option (List Thread) :=
  match p.code[t.pc]? with
  | some (.char _) | some .accept => none
  | some (.jump target) => some [⟨target, t.slots⟩]
  | some (.split first second) => some [⟨first, t.slots⟩, ⟨second, t.slots⟩]
  | some (.save slot) => some [⟨t.pc + 1, t.slots.setIfInBounds slot (some offset)⟩]
  | some .nop => some [⟨t.pc + 1, t.slots⟩]
  | none => some []

/-- Follows the threads of a stack at byte `offset`, the top one first, to where they have to wait.
Each one is followed to its end before the next one starts. -/
def Program.follow (p : Program) (offset : Nat) (list : ThreadList) : List Thread → ThreadList
  | [] => list
  | t :: stack =>
    if _ : list.isFresh t.pc = true then
      match p.expand offset t with
      | none => p.follow offset ((list.mark t.pc).park t) stack
      | some onward => p.follow offset (list.mark t.pc) (onward ++ stack)
    else p.follow offset list stack
termination_by stack => (list.freshCount, stack.length)
decreasing_by
  · exact Prod.Lex.left _ _ (ThreadList.freshCount_mark_lt ‹_›)
  · exact Prod.Lex.left _ _ (ThreadList.freshCount_mark_lt ‹_›)
  · exact Prod.Lex.right _ (by simp)

end RegexMachine
