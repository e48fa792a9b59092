import RegexMachine.Machine.Captures

/-!
# The matching machine

The machine runs a program on a subject, all threads in lock step: it holds the threads at the
current offset, lets each of them read the next character, and so collects the threads at the next
offset. A match begins at the start of the subject and may end anywhere.

* **accept** — a thread that accepts is the result so far, and the threads behind it are dropped:
  from here on only threads that are preferred to it can replace the result.
* **end** — the run is over when no thread is left or the subject is used up.

The machine keeps its two thread lists from run to run and clears them before each.
-/

namespace RegexMachine

/-- Lets threads at one offset read the next character `c`, if there is one, and follows those that
did so, at the offset `after` it. `found` is the result so far. -/
def Program.sweep (p : Program) (c : Option Char) (after : Nat) (next : ThreadList)
    (found : Option Slots) : List Thread → ThreadList × Option Slots
  | [] => (next, found)
  | t :: ts =>
    match p.code[t.pc]? with
    | some .accept => (next, some t.slots)
    | some (.char expected) =>
      if c = some expected then
        p.sweep c after (p.follow after next [⟨t.pc + 1, t.slots⟩]) found ts
      else p.sweep c after next found ts
    | _ => p.sweep c after next found ts

/-- A machine for one program. -/
structure Machine where
  /-- the program -/
  program : Program
  /-- the threads at the current offset -/
  current : ThreadList
  /-- the threads at the next offset, as far as they are known -/
  next : ThreadList
  /-- the largest number of threads at one offset of the last run -/
  peak : Nat

namespace Machine

/-- A machine that did not run yet. -/
def ofProgram (p : Program) : Machine :=
  ⟨p, .empty p.size, .empty p.size, 0⟩

/-- The machine with its first thread at the start of a subject. -/
def reset (m : Machine) : Machine :=
  let seed : Thread := ⟨0, Array.replicate m.program.slots none⟩
  { m with
    current := m.program.follow 0 m.current.clear [seed], next := m.next.clear, peak := 0 }

/-- Reads the next character `c`, if there is one, and goes on to the offset `after` it. -/
def step (m : Machine) (c : Option Char) (after : Nat) (found : Option Slots) :
    Machine × Option Slots :=
  let peak := max m.peak m.current.size
  let (next, found) := m.program.sweep c after m.next found m.current.threads.toList
  (⟨m.program, next, m.current.clear, peak⟩, found)

/-- Reads the rest of a subject, which begins at byte `offset`. -/
def feed (m : Machine) (offset : Nat) (found : Option Slots) : List Char → Machine × Option Slots
  | [] => m.step none offset found
  | c :: cs =>
    let after := offset + c.utf8Size
    let (m, found) := m.step (some c) after found
    if m.current.size = 0 then (m, found) else m.feed after found cs

/-- Matches the program against a subject. -/
def captures (m : Machine) (subject : String) : Option Captures × Machine :=
  let (m, found) := m.reset.feed 0 none subject.toList
  (found.map (⟨subject, ·⟩), m)

end Machine

/-- Whether a program matches a subject, and if it does, the texts of its capturing groups. -/
def Program.run (p : Program) (subject : String) : Bool × List (Option String) :=
  match ((Machine.ofProgram p).captures subject).1 with
  | some c => (true, c.groups)
  | none => (false, [])

end RegexMachine
