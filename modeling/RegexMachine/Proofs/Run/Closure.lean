import RegexMachine.Proofs.Run.Guarded

/-!
# Following is a recursion

What following a thread should do is a recursion over the program (`Program.close`): a thread that
splits is followed to the end in the first direction, then in the second one with the slots that it
had when it split. The machine does not recurse. It **chases** one thread as long as that comes to
fresh instructions, and leaves the second directions on a stack; then it chases the threads of the
stack, some of which are late by then.

* **the stack** — chasing a thread does to the list what closing it does, once the threads that it
  left on the stack are closed as well (`Program.exists_chase`);
* **the end** — a chase uses up a fresh instruction or leaves list and stack as they are, so the
  stack is empty after finitely many of them (`Program.chaseAll_eq`).
-/

namespace RegexMachine

namespace Program

/-! ## The recursion -/

/-- Closes a list under what comes of a thread. There are no more fresh instructions than before. -/
def close (p : Program) (offset : Nat) (list : ThreadList) (t : Thread) :
    { after : ThreadList // after.freshCount ≤ list.freshCount } :=
  if fresh : list.isFresh t.pc = true then
    have used := ThreadList.freshCount_mark_lt fresh
    match p.code[t.pc]? with
    | some (.char _) | some .accept => ⟨(list.mark t.pc).park t, Nat.le_of_lt used⟩
    | some (.jump target) =>
      let ⟨after, fewer⟩ := p.close offset (list.mark t.pc) ⟨target, t.slots⟩
      ⟨after, by omega⟩
    | some .nop =>
      let ⟨after, fewer⟩ := p.close offset (list.mark t.pc) ⟨t.pc + 1, t.slots⟩
      ⟨after, by omega⟩
    | some (.save slot) =>
      let ⟨after, fewer⟩ := p.close offset (list.mark t.pc)
        ⟨t.pc + 1, t.slots.setIfInBounds slot (some offset)⟩
      ⟨after, by omega⟩
    | some (.split first second) =>
      let ⟨between, fewer⟩ := p.close offset (list.mark t.pc) ⟨first, t.slots⟩
      let ⟨after, least⟩ := p.close offset between ⟨second, t.slots⟩
      ⟨after, by omega⟩
    | none => ⟨list.mark t.pc, Nat.le_of_lt used⟩
  else ⟨list, Nat.le_refl _⟩
termination_by list.freshCount

/-- The closure of a list under what comes of a thread. -/
def closure (p : Program) (offset : Nat) (list : ThreadList) (t : Thread) : ThreadList :=
  (p.close offset list t).1

/-! ## The loops -/

/-- Chases a thread as long as it comes to fresh instructions. Of two directions the second one goes
on the stack. Every access is checked. -/
def chase (p : Program) (offset : Nat) (list : ThreadList) (stack : List Thread) (t : Thread) :
    Except Trap (ThreadList × List Thread) :=
  match p.code[t.pc]? with
  | none => .error (.noInstruction t.pc)
  | some i =>
    if _ : list.isFresh t.pc = true then
      match i with
      | .char _ | .accept => .ok ((list.mark t.pc).park t, stack)
      | .jump target => p.chase offset (list.mark t.pc) stack ⟨target, t.slots⟩
      | .split first second =>
        p.chase offset (list.mark t.pc) (⟨second, t.slots⟩ :: stack) ⟨first, t.slots⟩
      | .save slot =>
        if slot < t.slots.size then
          p.chase offset (list.mark t.pc) stack ⟨t.pc + 1, t.slots.setIfInBounds slot (some offset)⟩
        else .error (.noSlot slot)
      | .nop => p.chase offset (list.mark t.pc) stack ⟨t.pc + 1, t.slots⟩
    else .ok (list, stack)
termination_by list.freshCount
decreasing_by all_goals exact ThreadList.freshCount_mark_lt ‹_›

variable {p : Program} {offset : Nat} {list : ThreadList} {stack : List Thread} {t : Thread}

theorem freshCount_lt_of_mark {after : ThreadList} {left : List Thread} {pc : Nat}
    (hfresh : list.isFresh pc = true)
    (h : after.freshCount < (list.mark pc).freshCount ∨ after = list.mark pc ∧ left = stack) :
    after.freshCount < list.freshCount := by
  have hless := ThreadList.freshCount_mark_lt hfresh
  rcases h with h | ⟨rfl, -⟩
  · exact h.trans hless
  · exact hless

/-- A chase uses up a fresh instruction, or the thread is late and nothing happens. -/
theorem chase_progress {after : ThreadList} {left : List Thread}
    (h : p.chase offset list stack t = .ok (after, left)) :
    after.freshCount < list.freshCount ∨ after = list ∧ left = stack := by
  induction list, stack, t using chase.induct p offset with
  | case1 list stack t hi =>
    rw [chase, hi] at h
    cases h
  | case2 list stack t hfresh c hi | case3 list stack t hfresh hi =>
    rw [chase, hi] at h
    simp only [dif_pos hfresh] at h
    cases h
    exact .inl (ThreadList.freshCount_mark_lt hfresh)
  | case4 list stack t hfresh target hi ih | case5 list stack t hfresh first second hi ih
  | case8 list stack t hfresh hi ih =>
    rw [chase, hi] at h
    simp only [dif_pos hfresh] at h
    exact .inl (freshCount_lt_of_mark hfresh (ih h))
  | case6 list stack t hfresh slot hslot hi ih =>
    rw [chase, hi] at h
    simp only [dif_pos hfresh, if_pos hslot] at h
    exact .inl (freshCount_lt_of_mark hfresh (ih h))
  | case7 list stack t hfresh slot hslot hi =>
    rw [chase, hi] at h
    simp only [dif_pos hfresh, if_neg hslot] at h
    cases h
  | case9 list stack t i hi hlate =>
    rw [chase, hi] at h
    simp only [dif_neg hlate] at h
    cases h
    exact .inr ⟨rfl, rfl⟩

/-- Chases the threads of a stack until none is left. -/
def chaseAll (p : Program) (offset : Nat) (list : ThreadList) :
    List Thread → Except Trap (ThreadList × List Thread)
  | [] => .ok (list, [])
  | t :: stack =>
    match h : p.chase offset list stack t with
    | .ok (after, left) =>
      have _ := chase_progress h
      p.chaseAll offset after left
    | .error trap => .error trap
termination_by stack => (list.freshCount, stack.length)
decreasing_by
  rcases ‹_ ∨ _› with hless | ⟨rfl, rfl⟩
  · exact Prod.Lex.left _ _ hless
  · exact Prod.Lex.right _ (Nat.lt_succ_self _)

theorem chaseAll_cons (p : Program) (offset : Nat) (list : ThreadList) (t : Thread)
    (stack : List Thread) : p.chaseAll offset list (t :: stack) =
      p.chase offset list stack t >>= fun (after, left) => p.chaseAll offset after left := by
  rw [chaseAll]
  split
  · rename_i after left hchase
    dsimp only
    rw [hchase]
    rfl
  · rename_i trap hchase
    rw [hchase]
    rfl

/-! ## Closing step by step -/

theorem closure_of_late (hlate : ¬ list.isFresh t.pc = true) : p.closure offset list t = list := by
  rw [closure, close, dif_neg hlate]

/-- A thread that waits is parked. -/
theorem closure_of_waits (hfresh : list.isFresh t.pc = true) (hexpand : p.expand offset t = none) :
    p.closure offset list t = (list.mark t.pc).park t := by
  rw [closure, close, dif_pos hfresh]
  rw [expand] at hexpand
  rcases hi : p.code[t.pc]? with _ | i
  · rw [hi] at hexpand
    cases hexpand
  · rw [hi] at hexpand
    cases i with
    | char c | accept => rfl
    | jump | split | save | nop => cases hexpand

/-- The threads that go on are closed one after the other. -/
theorem closure_of_expand {onward : List Thread} (hfresh : list.isFresh t.pc = true)
    (hexpand : p.expand offset t = some onward) :
    p.closure offset list t = onward.foldl (p.closure offset) (list.mark t.pc) := by
  rw [closure, close, dif_pos hfresh]
  rw [expand] at hexpand
  rcases hi : p.code[t.pc]? with _ | i
  · rw [hi] at hexpand
    cases hexpand
    rfl
  · rw [hi] at hexpand
    cases i with
    | char c | accept => cases hexpand
    | jump | split | save | nop =>
      cases hexpand
      rfl

/-- **Following** a stack is closing its threads one after the other. -/
theorem follow_eq_foldl (offset : Nat) (list : ThreadList) (stack : List Thread) :
    p.follow offset list stack = stack.foldl (p.closure offset) list := by
  induction list, stack using Program.follow.induct p offset with
  | case1 list =>
    rw [follow]
    rfl
  | case2 list t stack hfresh hexpand ih =>
    rw [follow, dif_pos hfresh, hexpand, List.foldl_cons, closure_of_waits hfresh hexpand]
    exact ih
  | case3 list t stack hfresh onward hexpand ih =>
    rw [follow, dif_pos hfresh, hexpand, List.foldl_cons, closure_of_expand hfresh hexpand,
      ← List.foldl_append]
    exact ih
  | case4 list t stack hlate ih =>
    rw [follow, dif_neg hlate, List.foldl_cons, closure_of_late hlate]
    exact ih

/-! ## Chasing -/

/-- The thread stands at an instruction, and all slots of the program are there. -/
structure Carries (p : Program) (t : Thread) : Prop where
  /-- it stands at an instruction -/
  pc_lt : t.pc < p.size
  /-- it has all slots of the program -/
  size_eq : t.slots.size = p.slots

theorem Carries.exists_instruction (ht : p.Carries t) : ∃ i, p.code[t.pc]? = some i :=
  ⟨_, Array.getElem?_eq_getElem ht.pc_lt⟩

theorem Carries.chase_of_late (ht : p.Carries t) (hlate : ¬ list.isFresh t.pc = true) :
    p.chase offset list stack t = .ok (list, stack) := by
  obtain ⟨i, hi⟩ := ht.exists_instruction
  rw [chase, hi]
  simp only [dif_neg hlate]

theorem Carries.chase_of_waits (ht : p.Carries t) (hfresh : list.isFresh t.pc = true)
    (hexpand : p.expand offset t = none) :
    p.chase offset list stack t = .ok ((list.mark t.pc).park t, stack) := by
  obtain ⟨i, hi⟩ := ht.exists_instruction
  rw [expand, hi] at hexpand
  rw [chase, hi]
  simp only [dif_pos hfresh]
  cases i with
  | char c | accept => rfl
  | jump | split | save | nop => cases hexpand

/-- One turn of a chase: the first thread of an expansion is chased, the others go on the stack. -/
theorem Carries.chase_of_expand {onward : List Thread} (ht : p.Carries t) (stack : List Thread)
    (hfresh : list.isFresh t.pc = true) (hexpand : p.expand offset t = some onward) :
    ∃ u more, onward = u :: more ∧ (∀ v ∈ u :: more, p.Carries v) ∧
      p.chase offset list stack t = p.chase offset (list.mark t.pc) (more ++ stack) u := by
  obtain ⟨i, hi⟩ := ht.exists_instruction
  have hfits := p.valid.fits t.pc i hi
  have hgoes : ∀ target < p.size, p.Carries ⟨target, t.slots⟩ := fun _ h => ⟨h, ht.size_eq⟩
  rw [expand, hi] at hexpand
  rw [chase, hi]
  simp only [dif_pos hfresh]
  cases i with
  | char c | accept => cases hexpand
  | jump target =>
    obtain rfl := Option.some.inj hexpand
    exact ⟨_, [], rfl, List.forall_mem_singleton.mpr (hgoes target hfits), rfl⟩
  | split first second =>
    obtain rfl := Option.some.inj hexpand
    refine ⟨_, [_], rfl, ?_, rfl⟩
    rw [List.forall_mem_cons, List.forall_mem_singleton]
    exact ⟨hgoes first hfits.1, hgoes second hfits.2⟩
  | save slot =>
    obtain rfl := Option.some.inj hexpand
    have hslot : slot < t.slots.size := ht.size_eq ▸ hfits
    refine ⟨_, [], rfl, List.forall_mem_singleton.mpr ⟨succ_lt_size hi rfl, ?_⟩, if_pos hslot⟩
    rw [Array.size_setIfInBounds, ht.size_eq]
  | nop =>
    obtain rfl := Option.some.inj hexpand
    exact ⟨_, [], rfl, List.forall_mem_singleton.mpr (hgoes (t.pc + 1) (succ_lt_size hi rfl)), rfl⟩

/-- **The stack**: what a chase leaves undone is on the stack. -/
theorem exists_chase (offset : Nat) (list : ThreadList) (ht : p.Carries t)
    (hstack : ∀ u ∈ stack, p.Carries u) :
    ∃ after left, p.chase offset list stack t = .ok (after, left) ∧ (∀ u ∈ left, p.Carries u) ∧
      left.foldl (p.closure offset) after =
        stack.foldl (p.closure offset) (p.closure offset list t) := by
  induction hcount : list.freshCount using Nat.strongRecOn generalizing list stack t with
  | ind n ih =>
    by_cases hfresh : list.isFresh t.pc = true
    · cases hexpand : p.expand offset t with
      | none =>
        refine ⟨_, stack, ht.chase_of_waits hfresh hexpand, hstack, ?_⟩
        rw [closure_of_waits hfresh hexpand]
      | some onward =>
        obtain ⟨u, more, rfl, honward, hchase⟩ := ht.chase_of_expand stack hfresh hexpand
        obtain ⟨hu, hmore⟩ := List.forall_mem_cons.mp honward
        have hless := ThreadList.freshCount_mark_lt hfresh
        -- the threads behind the first one join the stack
        obtain ⟨after, left, hafter, hleft, hclosed⟩ := ih _ (hcount ▸ hless) _ hu
          (List.forall_mem_append.mpr ⟨hmore, hstack⟩) rfl
        refine ⟨after, left, hchase.trans hafter, hleft, ?_⟩
        rw [hclosed, closure_of_expand hfresh hexpand, List.foldl_append, List.foldl_cons]
    · exact ⟨list, stack, ht.chase_of_late hfresh, hstack, by rw [closure_of_late hfresh]⟩

/-- **The end**: the threads of the stack are closed from the top on, and none is left. -/
theorem chaseAll_eq (hstack : ∀ u ∈ stack, p.Carries u) :
    p.chaseAll offset list stack = .ok (stack.foldl (p.closure offset) list, []) := by
  induction list, stack using chaseAll.induct p offset with
  | case1 list =>
    rw [chaseAll]
    rfl
  | case2 list t stack after left hchase _ ih =>
    obtain ⟨ht, hrest⟩ := List.forall_mem_cons.mp hstack
    obtain ⟨after', left', hchase', hleft, hclosed⟩ := exists_chase offset list ht hrest
    obtain ⟨rfl, rfl⟩ := Prod.mk.inj (Except.ok.inj (hchase.symm.trans hchase'))
    rw [chaseAll_cons, hchase, List.foldl_cons, ← hclosed]
    exact ih hleft
  | case3 list t stack trap hchase =>
    obtain ⟨ht, hrest⟩ := List.forall_mem_cons.mp hstack
    obtain ⟨after, left, hchase', -⟩ := exists_chase offset list ht hrest
    rw [hchase] at hchase'
    cases hchase'

/-- **Following is a recursion**: whatever the list and the program look like, chasing a thread with
an empty stack ends with an empty stack and the closure, and finds every instruction and every slot
that it looks for. So does the machine. -/
theorem chaseAll_eq_closure (p : Program) (offset : Nat) (list : ThreadList) (t : Thread)
    (hpc : t.pc < p.size) (hslots : t.slots.size = p.slots) :
    p.chaseAll offset list [t] = .ok (p.closure offset list t, []) ∧
      p.follow offset list [t] = p.closure offset list t := by
  refine ⟨chaseAll_eq (List.forall_mem_singleton.mpr ⟨hpc, hslots⟩), ?_⟩
  rw [follow_eq_foldl, List.foldl_cons, List.foldl_nil]

/-- In circles: the first direction notes an offset and is late when it comes back to the split. The
second one knows nothing of that. It comes to the split as well before it accepts. -/
theorem chaseAll_eq_closure_circle : ∃ p : Program,
    p.code = #[.split 1 3, .save 0, .jump 0, .split 0 4, .accept] ∧
    0 < p.size ∧ (#[none, none] : Slots).size = p.slots ∧
    p.chaseAll 7 (.empty 5) [⟨0, #[none, none]⟩] =
      .ok (p.closure 7 (.empty 5) ⟨0, #[none, none]⟩, []) ∧
    p.closure 7 (.empty 5) ⟨0, #[none, none]⟩ =
      ⟨#[true, true, true, true, true], #[⟨4, #[none, none]⟩]⟩ := by
  have hvalid : Valid #[.split 1 3, .save 0, .jump 0, .split 0 4, .accept] 0 :=
    firstError?_eq_none_iff.mp (by decide)
  have hpc : 0 < size ⟨_, 0, hvalid⟩ := Nat.succ_pos 4
  obtain ⟨hchase, hfollow⟩ :=
    chaseAll_eq_closure ⟨_, 0, hvalid⟩ 7 (.empty 5) ⟨0, #[none, none]⟩ hpc rfl
  refine ⟨⟨_, 0, hvalid⟩, rfl, hpc, rfl, hchase, ?_⟩
  rw [← hfollow]
  cbv

end Program

end RegexMachine
