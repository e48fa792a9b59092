import RegexMachine.Proofs.Run.Captures

/-!
# The machine stays in bounds

The machine takes it for granted that there is an instruction wherever a thread stands, a slot for
every offset to note, and a character boundary wherever it goes on in the subject. A **guarded**
machine does the same work and looks first, and it also counts the rounds of its loops: instead of
going wrong, or on forever, it stops with a `Trap`.

`captures_guarded`: it never does. With a fixed number of rounds the guarded machine comes to the
same result as the machine. What carries the proof is `InBounds` for all threads, on the lists and
on the stack, and that a round of following uses up a fresh instruction or takes a thread off the
stack.
-/

namespace RegexMachine

/-- Why a guarded machine stops. -/
inductive Trap where
  /-- a thread stands at an instruction that the program does not have -/
  | noInstruction (pc : Nat)
  /-- an offset is to be noted in a slot that is not there -/
  | noSlot (slot : Nat)
  /-- the subject cannot be cut at this offset -/
  | noBoundary (offset : Nat)
  /-- all rounds of a loop are used up -/
  | noRounds
  deriving DecidableEq, Repr

/-! ## The guarded machine -/

/-- What is left of a subject from a byte offset on. -/
def Text.guardedRest (subject : String) (offset : Nat) : Except Trap (List Char) :=
  match cut? subject.toList offset with
  | some (_, back) => .ok back
  | none => .error (.noBoundary offset)

theorem Text.guardedRest_eq {subject : String} {front back : List Char} {offset : Nat}
    (hsubject : subject.toList = front ++ back) (hoffset : byteSize front = offset) :
    guardedRest subject offset = .ok back := by
  rw [guardedRest, cut?_eq_some_iff.mpr ⟨hsubject, hoffset⟩]

namespace Program

/-- The instruction at `pc`. -/
def fetch (p : Program) (pc : Nat) : Except Trap (Instruction Nat) :=
  match p.code[pc]? with
  | some i => .ok i
  | none => .error (.noInstruction pc)

/-- Notes a byte offset of the subject in a slot. -/
def guardedNote (p : Program) (subject : String) (offset slot : Nat) (slots : Slots) :
    Except Trap Slots :=
  if slot < p.slots ∧ slot < slots.size then do
    let _ ← Text.guardedRest subject offset
    .ok (slots.setIfInBounds slot (some offset))
  else .error (.noSlot slot)

/-- The guarded form of `Program.expand`. -/
def guardedExpand (p : Program) (subject : String) (offset : Nat) (t : Thread) :
    Except Trap (Option (List Thread)) := do
  match ← p.fetch t.pc with
  | .char _ | .accept => .ok none
  | .jump target => .ok (some [⟨target, t.slots⟩])
  | .split first second => .ok (some [⟨first, t.slots⟩, ⟨second, t.slots⟩])
  | .save slot =>
    let slots ← p.guardedNote subject offset slot t.slots
    .ok (some [⟨t.pc + 1, slots⟩])
  | .nop => .ok (some [⟨t.pc + 1, t.slots⟩])

/-- The guarded form of `Program.follow`. A thread that stands outside the program is not late: no
mark was set there. -/
def guardedFollow (p : Program) (subject : String) (offset : Nat) :
    (rounds : Nat) → ThreadList → List Thread → Except Trap ThreadList
  | _, list, [] => .ok list
  | 0, _, _ :: _ => .error .noRounds
  | rounds + 1, list, t :: stack =>
    if list.visited[t.pc]? = some true then p.guardedFollow subject offset rounds list stack
    else do
      match ← p.guardedExpand subject offset t with
      | none => p.guardedFollow subject offset rounds ((list.mark t.pc).park t) stack
      | some onward => p.guardedFollow subject offset rounds (list.mark t.pc) (onward ++ stack)

/-- The guarded form of `Program.sweep`. -/
def guardedSweep (p : Program) (subject : String) (rounds : Nat) (c : Option Char) (after : Nat)
    (next : ThreadList) (found : Option Slots) :
    List Thread → Except Trap (ThreadList × Option Slots)
  | [] => .ok (next, found)
  | t :: ts => do
    match ← p.fetch t.pc with
    | .accept => .ok (next, some t.slots)
    | .char expected =>
      if c = some expected then
        let next ← p.guardedFollow subject after rounds next [⟨t.pc + 1, t.slots⟩]
        p.guardedSweep subject rounds c after next found ts
      else p.guardedSweep subject rounds c after next found ts
    | _ => p.guardedSweep subject rounds c after next found ts

end Program

namespace Machine

/-- The guarded form of `Machine.reset`. -/
def guardedReset (m : Machine) (subject : String) (rounds : Nat) : Except Trap Machine := do
  let seed : Thread := ⟨0, Array.replicate m.program.slots none⟩
  let current ← m.program.guardedFollow subject 0 rounds m.current.clear [seed]
  .ok { m with current, next := m.next.clear, peak := 0 }

/-- The guarded form of `Machine.step`. -/
def guardedStep (m : Machine) (subject : String) (rounds : Nat) (c : Option Char) (after : Nat)
    (found : Option Slots) : Except Trap (Machine × Option Slots) := do
  let peak := max m.peak m.current.size
  let (next, found) ←
    m.program.guardedSweep subject rounds c after m.next found m.current.threads.toList
  .ok (⟨m.program, next, m.current.clear, peak⟩, found)

/-- The guarded form of `Machine.feed`, which cuts the subject anew at every offset. -/
def guardedFeed (subject : String) (rounds : Nat) :
    (left : Nat) → Machine → (offset : Nat) → Option Slots → Except Trap (Machine × Option Slots)
  | 0, _, _, _ => .error .noRounds
  | left + 1, m, offset, found => do
    match (← Text.guardedRest subject offset).head? with
    | none => m.guardedStep subject rounds none offset found
    | some c =>
      let after := offset + c.utf8Size
      let (m, found) ← m.guardedStep subject rounds (some c) after found
      if m.current.size = 0 then .ok (m, found) else guardedFeed subject rounds left m after found

/-- The guarded form of `Machine.captures`, with so many rounds for each of its loops. -/
def guardedCaptures (m : Machine) (rounds : Nat) (subject : String) :
    Except Trap (Option Captures × Machine) := do
  let m ← m.guardedReset subject rounds
  let (m, found) ← guardedFeed subject rounds rounds m 0 none
  .ok (found.map (⟨subject, ·⟩), m)

end Machine

/-- The guarded form of `Program.run`. -/
def Program.guardedRun (p : Program) (rounds : Nat) (subject : String) :
    Except Trap (Bool × List (Option String)) := do
  match (← (Machine.ofProgram p).guardedCaptures rounds subject).1 with
  | some c => .ok (true, c.groups)
  | none => .ok (false, [])

/-! ## Bounds -/

namespace Program

variable {p : Program} {subject : String} {offset : Nat} {slots : Slots} {t : Thread}
  {list : ThreadList} {stack : List Thread} {rounds : Nat}

/-- All slots of the program are there, and what is noted in one of them is a boundary of the
subject. -/
structure SlotsInBounds (p : Program) (subject : String) (slots : Slots) : Prop where
  /-- there are as many as the program has -/
  size_eq : slots.size = p.slots
  /-- every offset is a boundary -/
  boundary : ∀ slot offset : Nat, slots[slot]? = some (some offset) → Text.IsBoundary subject offset

theorem slotsInBounds_blank (p : Program) (subject : String) :
    p.SlotsInBounds subject (Array.replicate p.slots none) where
  size_eq := Array.size_replicate
  boundary slot offset hslot := by
    rw [Array.getElem?_replicate] at hslot
    split at hslot <;> cases hslot

theorem SlotsInBounds.set (h : p.SlotsInBounds subject slots)
    (hoffset : Text.IsBoundary subject offset)
    (slot : Nat) : p.SlotsInBounds subject (slots.setIfInBounds slot (some offset)) where
  size_eq := by rw [Array.size_setIfInBounds, h.size_eq]
  boundary other noted hother := by
    rw [Array.getElem?_setIfInBounds] at hother
    split_ifs at hother
    · obtain rfl : offset = noted := by simpa using hother
      exact hoffset
    · exact h.boundary other noted hother

/-- The thread stands at an instruction, and its slots are in bounds. -/
structure InBounds (p : Program) (subject : String) (t : Thread) : Prop where
  /-- it stands at an instruction -/
  pc_lt : t.pc < p.size
  /-- its slots are in bounds -/
  slots : p.SlotsInBounds subject t.slots

theorem InBounds.exists_instruction (h : p.InBounds subject t) : ∃ i, p.code[t.pc]? = some i :=
  ⟨_, Array.getElem?_eq_getElem h.pc_lt⟩

/-- The list has a mark for every instruction, and its threads are in bounds. -/
structure ListInBounds (p : Program) (subject : String) (list : ThreadList) : Prop where
  /-- there is a mark for every instruction -/
  size_eq : list.visited.size = p.size
  /-- all threads are in bounds -/
  threads : ∀ t ∈ list.threads.toList, p.InBounds subject t

theorem ListInBounds.mark (h : p.ListInBounds subject list) (pc : Nat) :
    p.ListInBounds subject (list.mark pc) where
  size_eq := (list.size_visited_mark pc).trans h.size_eq
  threads := h.threads

theorem ListInBounds.park (h : p.ListInBounds subject list) (ht : p.InBounds subject t) :
    p.ListInBounds subject (list.park t) where
  size_eq := h.size_eq
  threads u hu := by
    rw [ThreadList.park, Array.toList_push, List.mem_append, List.mem_singleton] at hu
    rcases hu with hu | rfl
    · exact h.threads u hu
    · exact ht

theorem listInBounds_clear (subject : String) (hsize : list.visited.size = p.size) :
    p.ListInBounds subject list.clear where
  size_eq := list.size_visited_clear.trans hsize
  threads t ht := by simp [ThreadList.clear] at ht

/-! ## No instruction leads out of bounds -/

/-- Control does not run past the last instruction. -/
theorem succ_lt_size {pc : Nat} {i : Instruction Nat} (hi : p.code[pc]? = some i)
    (hfalls : i.fallsThrough = true) : pc + 1 < p.size := by
  have hlt := lt_size_of_getElem? hi
  refine Nat.lt_of_le_of_ne hlt fun hlast => ?_
  rw [p.valid.stops pc i hi hlast] at hfalls
  cases hfalls

theorem fetch_eq {pc : Nat} {i : Instruction Nat} (hi : p.code[pc]? = some i) :
    p.fetch pc = .ok i := by
  rw [fetch, hi]

theorem guardedNote_eq {slot : Nat} (hslots : slots.size = p.slots) (hslot : slot < p.slots)
    (hoffset : Text.IsBoundary subject offset) :
    p.guardedNote subject offset slot slots = .ok (slots.setIfInBounds slot (some offset)) := by
  obtain ⟨front, back, hsubject, hsize⟩ := hoffset
  rw [guardedNote, if_pos ⟨hslot, hslots ▸ hslot⟩, Text.guardedRest_eq hsubject hsize]
  rfl

/-- One instruction: a guarded thread finds everything in place, and what it turns into is in bounds
again. -/
theorem InBounds.guardedExpand (ht : p.InBounds subject t)
    (hoffset : Text.IsBoundary subject offset) :
    p.guardedExpand subject offset t = .ok (p.expand offset t) ∧
      ∀ onward, p.expand offset t = some onward →
        onward.length ≤ 2 ∧ ∀ u ∈ onward, p.InBounds subject u := by
  obtain ⟨i, hi⟩ := ht.exists_instruction
  have hfits := p.valid.fits t.pc i hi
  have hgoes : ∀ target < p.size, p.InBounds subject ⟨target, t.slots⟩ := fun _ h => ⟨h, ht.slots⟩
  rw [Program.guardedExpand, fetch_eq hi, expand, hi]
  cases i with
  | char c | accept => simp [bind, Except.bind]
  | jump target => simpa [bind, Except.bind] using hgoes target hfits
  | split first second =>
    simpa [bind, Except.bind] using ⟨hgoes first hfits.1, hgoes second hfits.2⟩
  | save slot =>
    have hnote := guardedNote_eq ht.slots.size_eq hfits hoffset
    have hsave : p.InBounds subject ⟨t.pc + 1, t.slots.setIfInBounds slot (some offset)⟩ :=
      ⟨succ_lt_size hi rfl, ht.slots.set hoffset slot⟩
    simpa [bind, Except.bind, hnote] using hsave
  | nop => simpa [bind, Except.bind] using hgoes (t.pc + 1) (succ_lt_size hi rfl)

/-! ## The loops -/

/-- At an instruction of the program a thread is either fresh or late. -/
theorem ListInBounds.late_iff (h : p.ListInBounds subject list) {pc : Nat} (hpc : pc < p.size) :
    list.visited[pc]? = some true ↔ ¬ list.isFresh pc = true := by
  obtain ⟨mark, hmark⟩ : ∃ mark, list.visited[pc]? = some mark :=
    ⟨_, Array.getElem?_eq_getElem (h.size_eq ▸ hpc)⟩
  simp [ThreadList.isFresh, hmark]

/-- **Following** takes at most two rounds for every fresh instruction, and one for every thread on
the stack. -/
theorem ListInBounds.guardedFollow (h : p.ListInBounds subject list)
    (hoffset : Text.IsBoundary subject offset) (hstack : ∀ t ∈ stack, p.InBounds subject t)
    (hrounds : 2 * list.freshCount + stack.length ≤ rounds) :
    p.guardedFollow subject offset rounds list stack = .ok (p.follow offset list stack) ∧
      p.ListInBounds subject (p.follow offset list stack) := by
  induction list, stack using Program.follow.induct p offset generalizing rounds with
  | case1 list =>
    rw [Program.guardedFollow, follow]
    exact ⟨rfl, h⟩
  | case2 list t stack hfresh hexpand ih =>
    obtain ⟨ht, hrest⟩ := List.forall_mem_cons.mp hstack
    rw [List.length_cons] at hrounds
    obtain ⟨rounds, rfl⟩ : ∃ n, rounds = n + 1 := Nat.exists_eq_add_one.mpr (by omega)
    have hless := ThreadList.freshCount_mark_lt hfresh
    -- the thread is parked, which uses up a fresh instruction
    have hleft : 2 * ((list.mark t.pc).park t).freshCount + stack.length ≤ rounds := by
      rw [ThreadList.freshCount_park]
      omega
    rw [Program.guardedFollow, if_neg (fun hlate => (h.late_iff ht.pc_lt).mp hlate hfresh),
      (ht.guardedExpand hoffset).1, follow, dif_pos hfresh, hexpand]
    exact ih ((h.mark t.pc).park ht) hrest hleft
  | case3 list t stack hfresh onward hexpand ih =>
    obtain ⟨ht, hrest⟩ := List.forall_mem_cons.mp hstack
    rw [List.length_cons] at hrounds
    obtain ⟨rounds, rfl⟩ : ∃ n, rounds = n + 1 := Nat.exists_eq_add_one.mpr (by omega)
    have hless := ThreadList.freshCount_mark_lt hfresh
    obtain ⟨hguarded, honward⟩ := ht.guardedExpand hoffset
    obtain ⟨hlength, hin⟩ := honward onward hexpand
    -- the thread goes on in at most two directions, which uses up a fresh instruction
    have hleft : 2 * (list.mark t.pc).freshCount + (onward ++ stack).length ≤ rounds := by
      rw [List.length_append]
      omega
    rw [Program.guardedFollow, if_neg (fun hlate => (h.late_iff ht.pc_lt).mp hlate hfresh),
      hguarded, follow, dif_pos hfresh, hexpand]
    exact ih (h.mark t.pc) (List.forall_mem_append.mpr ⟨hin, hrest⟩) hleft
  | case4 list t stack hlate ih =>
    obtain ⟨ht, hrest⟩ := List.forall_mem_cons.mp hstack
    rw [List.length_cons] at hrounds
    obtain ⟨rounds, rfl⟩ : ∃ n, rounds = n + 1 := Nat.exists_eq_add_one.mpr (by omega)
    -- the thread is dropped from the stack
    have hleft : 2 * list.freshCount + stack.length ≤ rounds := by omega
    rw [Program.guardedFollow, if_pos ((h.late_iff ht.pc_lt).mpr hlate), follow, dif_neg hlate]
    exact ih h hrest hleft

theorem ListInBounds.freshCount_le (h : p.ListInBounds subject list) : list.freshCount ≤ p.size :=
  h.size_eq ▸ Array.count_le_size

theorem ListInBounds.guardedFollow_singleton (h : p.ListInBounds subject list)
    (hoffset : Text.IsBoundary subject offset) (ht : p.InBounds subject t)
    (hrounds : 2 * p.size + 1 ≤ rounds) :
    p.guardedFollow subject offset rounds list [t] = .ok (p.follow offset list [t]) ∧
      p.ListInBounds subject (p.follow offset list [t]) := by
  have hfresh := h.freshCount_le
  refine h.guardedFollow hoffset (List.forall_mem_singleton.mpr ht) ?_
  rw [List.length_singleton]
  omega

/-- **One offset**: every thread finds its instruction, and goes on in bounds. -/
theorem ListInBounds.guardedSweep {after : Nat} {c : Option Char} {threads : List Thread}
    {found : Option Slots} (h : p.ListInBounds subject list)
    (hafter : c.isSome → Text.IsBoundary subject after)
    (hthreads : ∀ t ∈ threads, p.InBounds subject t)
    (hfound : ∀ slots ∈ found, p.SlotsInBounds subject slots) (hrounds : 2 * p.size + 1 ≤ rounds) :
    p.guardedSweep subject rounds c after list found threads =
        .ok (p.sweep c after list found threads) ∧
      p.ListInBounds subject (p.sweep c after list found threads).1 ∧
      ∀ slots ∈ (p.sweep c after list found threads).2, p.SlotsInBounds subject slots := by
  induction threads generalizing list with
  | nil => exact ⟨rfl, h, hfound⟩
  | cons t threads ih =>
    obtain ⟨ht, hrest⟩ := List.forall_mem_cons.mp hthreads
    obtain ⟨i, hi⟩ := ht.exists_instruction
    rw [Program.guardedSweep, fetch_eq hi, sweep, hi]
    cases i with
    | accept =>
      refine ⟨rfl, h, fun slots hslots => ?_⟩
      obtain rfl : t.slots = slots := by simpa using hslots
      exact ht.slots
    | char d =>
      by_cases hd : c = some d
      · have hnext : p.InBounds subject ⟨t.pc + 1, t.slots⟩ := ⟨succ_lt_size hi rfl, ht.slots⟩
        obtain ⟨hfollow, hlist⟩ :=
          h.guardedFollow_singleton (hafter (by simp [hd])) hnext hrounds
        simpa [bind, Except.bind, hd, hfollow] using ih hlist hrest
      · simpa [bind, Except.bind, hd] using ih h hrest
    | jump | split | save | nop => exact ih h hrest

end Program

namespace Machine

variable {m : Machine} {subject : String} {rounds : Nat}

/-- Both lists of the machine are in bounds. -/
structure InBounds (m : Machine) (subject : String) : Prop where
  /-- the list of the current offset -/
  current : m.program.ListInBounds subject m.current
  /-- the list of the next offset -/
  next : m.program.ListInBounds subject m.next

theorem Fits.guardedReset (h : m.Fits) (subject : String)
    (hrounds : 2 * m.program.size + 1 ≤ rounds) :
    m.guardedReset subject rounds = .ok m.reset ∧ m.reset.InBounds subject := by
  have hclear := Program.listInBounds_clear subject h.current
  have hseed : m.program.InBounds subject ⟨0, Array.replicate m.program.slots none⟩ :=
    ⟨m.program.valid.nonempty, m.program.slotsInBounds_blank subject⟩
  have hstart : Text.IsBoundary subject 0 := ⟨[], subject.toList, rfl, rfl⟩
  obtain ⟨hfollow, hlist⟩ := hclear.guardedFollow_singleton hstart hseed hrounds
  refine ⟨?_, hlist, Program.listInBounds_clear subject h.next⟩
  rw [Machine.guardedReset, hfollow]
  rfl

theorem InBounds.guardedStep {found : Option Slots} (h : m.InBounds subject) (c : Option Char)
    (after : Nat) (hafter : c.isSome → Text.IsBoundary subject after)
    (hfound : ∀ slots ∈ found, m.program.SlotsInBounds subject slots)
    (hrounds : 2 * m.program.size + 1 ≤ rounds) :
    m.guardedStep subject rounds c after found = .ok (m.step c after found) ∧
      (m.step c after found).1.InBounds subject ∧
      ∀ slots ∈ (m.step c after found).2, m.program.SlotsInBounds subject slots := by
  obtain ⟨hsweep, hlist, hslots⟩ := h.next.guardedSweep hafter h.current.threads hfound hrounds
  refine ⟨?_, ⟨hlist, Program.listInBounds_clear subject h.current.size_eq⟩, hslots⟩
  rw [Machine.guardedStep, hsweep]
  rfl

/-- **The whole subject**: every offset to which the machine comes is a boundary. -/
theorem InBounds.guardedFeed {front back : List Char} {offset left : Nat} {found : Option Slots}
    (h : m.InBounds subject) (hsubject : subject.toList = front ++ back)
    (hoffset : Text.byteSize front = offset)
    (hfound : ∀ slots ∈ found, m.program.SlotsInBounds subject slots)
    (hrounds : 2 * m.program.size + 1 ≤ rounds) (hleft : back.length < left) :
    Machine.guardedFeed subject rounds left m offset found = .ok (m.feed offset found back) ∧
      ∀ slots ∈ (m.feed offset found back).2, m.program.SlotsInBounds subject slots := by
  induction back generalizing m front offset found left with
  | nil =>
    obtain ⟨left, rfl⟩ : ∃ n, left = n + 1 := Nat.exists_eq_add_one.mpr (by omega)
    obtain ⟨hstep, -, hslots⟩ := h.guardedStep none offset (by simp) hfound hrounds
    rw [Machine.guardedFeed, Text.guardedRest_eq hsubject hoffset]
    exact ⟨hstep, hslots⟩
  | cons c back ih =>
    obtain ⟨left, rfl⟩ : ∃ n, left = n + 1 := Nat.exists_eq_add_one.mpr (by omega)
    have hsubject' : subject.toList = (front ++ [c]) ++ back := by simpa using hsubject
    have hoffset' : Text.byteSize (front ++ [c]) = offset + c.utf8Size := by simp [hoffset]
    obtain ⟨hstep, hin, hslots⟩ := h.guardedStep (some c) (offset + c.utf8Size)
      (fun _ => ⟨front ++ [c], back, hsubject', hoffset'⟩) hfound hrounds
    rw [Machine.guardedFeed, Text.guardedRest_eq hsubject hoffset, feed_cons]
    simp only [bind, Except.bind, List.head?_cons, hstep]
    split_ifs
    · exact ⟨rfl, hslots⟩
    · exact ih hin hsubject' hoffset' hslots hrounds (by simpa using hleft)

/-- A machine that fits its program stays in bounds. -/
theorem Fits.guardedCaptures (h : m.Fits) (subject : String)
    (hrounds : 2 * m.program.size + subject.length + 1 ≤ rounds) :
    m.guardedCaptures rounds subject = .ok (m.captures subject) ∧
      ∀ c, (m.captures subject).1 = some c → m.program.SlotsInBounds subject c.slots := by
  have hfollow : 2 * m.program.size + 1 ≤ rounds := by omega
  have hlength : subject.toList.length < rounds := by
    rw [String.length_toList]
    omega
  obtain ⟨hreset, hin⟩ := h.guardedReset subject hfollow
  have hnone : ∀ slots ∈ (none : Option Slots), m.program.SlotsInBounds subject slots := by simp
  have hstart : Text.byteSize [] = 0 := rfl
  obtain ⟨hfeed, hslots⟩ :=
    hin.guardedFeed (List.nil_append _).symm hstart hnone hfollow hlength
  constructor
  · rw [Machine.guardedCaptures, hreset]
    simp only [bind, Except.bind, hfeed]
    rfl
  · intro c hc
    rw [captures_fst, Option.map_eq_some_iff] at hc
    obtain ⟨slots, hfound, rfl⟩ := hc
    exact hslots slots hfound

end Machine

/-- **The machine stays in bounds**: whatever a machine was used for before, and whatever its
program looks like, guarding its run against instructions, slots and boundaries that are not there,
and against endless loops, makes no difference. What it notes is a boundary of the subject. -/
theorem captures_guarded (p : Program) (earlier : List String) (subject : String) :
    (Machine.used p earlier).guardedCaptures (2 * p.size + subject.length + 1) subject =
        .ok ((Machine.used p earlier).captures subject) ∧
      p.guardedRun (2 * p.size + subject.length + 1) subject = .ok (p.run subject) ∧
      ∀ c, ((Machine.used p earlier).captures subject).1 = some c →
        c.slots.size = p.slots ∧
        ∀ slot offset : Nat,
          c.slots[slot]? = some (some offset) → Text.IsBoundary subject offset := by
  obtain ⟨hfits, hprogram⟩ := Machine.used_spec p earlier
  obtain ⟨hused, hslots⟩ := hfits.guardedCaptures subject (Nat.le_refl _)
  rw [hprogram] at hused hslots
  refine ⟨hused, ?_, fun c hc => ⟨(hslots c hc).size_eq, (hslots c hc).boundary⟩⟩
  obtain ⟨hfresh, -⟩ := (Machine.fits_ofProgram p).guardedCaptures subject (Nat.le_refl _)
  rw [Machine.program_ofProgram] at hfresh
  simp only [Program.guardedRun, hfresh, Program.run, bind, Except.bind]
  cases ((Machine.ofProgram p).captures subject).1 <;> rfl

end RegexMachine
