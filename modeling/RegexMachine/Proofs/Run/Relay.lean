import RegexMachine.Proofs.Run.Twins

/-!
# Jumps to a jump

A place that does nothing but jump on to another one is a **relay**. Where a program goes to the
relay, another one may go straight to its goal, or the other way round. A thread that comes to the
relay late would come late to the goal as well, so the machines of both programs stay in step
(`Relay.captures`).
-/

namespace RegexMachine

namespace Program

variable {p q : Program} {relay goal : Nat}

/-- The same place, or two of the places that lead to the goal. -/
def Towards (relay goal a b : Nat) : Prop :=
  a = b ∨ (a = relay ∨ a = goal) ∧ (b = relay ∨ b = goal)

/-- The same place, but not the relay. -/
def Beyond (relay a b : Nat) : Prop := a = b ∧ a ≠ relay

theorem Towards.eq_of_ne {a b : Nat} (h : Towards relay goal a b) (ha : a ≠ relay)
    (hb : b ≠ relay) :
    a = b := by
  rcases h with rfl | ⟨rfl | rfl, rfl | rfl⟩ <;> simp_all

theorem beyond_iff {a c d : Nat} (h : Beyond relay c d) : c = a ↔ d = a := by
  rw [h.1]

theorem Towards.eq_goal {b : Nat} (h : Towards relay goal relay b) (hb : b ≠ relay) : b = goal := by
  rcases h with rfl | ⟨-, rfl | rfl⟩ <;> simp_all

/-- Two programs that differ in whether they go to the relay or to its goal. -/
structure Relay (p q : Program) (relay goal : Nat) : Prop where
  /-- the relay leads to the goal in the one program -/
  jump : p.code[relay]? = some (.jump goal)
  /-- and in the other one -/
  jump' : q.code[relay]? = some (.jump goal)
  /-- it does not lead to itself -/
  ne : goal ≠ relay
  /-- elsewhere the programs differ in no more than going to the relay or to the goal -/
  elsewhere : ∀ pc, pc ≠ relay → p.Alike q (Towards relay goal) pc pc
  /-- they have the same size -/
  size_eq : q.size = p.size
  /-- they have the same groups -/
  groups_eq : q.groups = p.groups

/-- If a thread came to the relay, one comes to the goal before any thread on the stack does. -/
def Relayed (relay goal : Nat) (list : ThreadList) (stack : List Thread) : Prop :=
  list.isFresh relay = false → list.isFresh goal = false ∨ stack.head?.any (·.pc = goal) = true

/-- Lists and stacks of both machines while threads are followed. -/
structure Relaying (p q : Program) (relay goal : Nat) (list : ThreadList) (stack : List Thread)
    (list' : ThreadList) (stack' : List Thread) : Prop where
  /-- the lists have the same threads and marks, apart from the mark of the relay -/
  matched : p.Matched q (Towards relay goal) (Beyond relay) list list'
  /-- threads on the stacks stand beside each other -/
  beside : List.Forall₂ (Thread.Beside (Towards relay goal)) stack stack'
  /-- nothing is lost with the mark of the relay on the one list -/
  relayed : Relayed relay goal list stack
  /-- nor on the other one -/
  relayed' : Relayed relay goal list' stack'

/-- Behind a thread on top that is not at the relay, nothing is to be done for the goal any more
once the goal is marked. -/
theorem Relayed.of_late {list : ThreadList} {t : Thread} {stack : List Thread}
    (h : Relayed relay goal list (t :: stack)) (hlate : list.isFresh t.pc = false)
    (more : List Thread) : Relayed relay goal list more := by
  intro hrelay
  rcases h hrelay with hgoal | htop
  · exact .inl hgoal
  · have htop : t.pc = goal := by simpa using htop
    exact .inl (htop ▸ hlate)

theorem Relayed.mark {list : ThreadList} {t : Thread} {stack : List Thread}
    (h : Relayed relay goal list (t :: stack)) (hne : t.pc ≠ relay) (more : List Thread) :
    Relayed relay goal (list.mark t.pc) more := by
  intro hrelay
  rw [ThreadList.isFresh_mark, bne_iff_ne.mpr hne.symm, Bool.and_true] at hrelay
  left
  rcases h hrelay with hgoal | htop
  · rw [ThreadList.isFresh_mark, hgoal, Bool.false_and]
  · have htop : t.pc = goal := by simpa using htop
    rw [ThreadList.isFresh_mark, htop, bne_self_eq_false, Bool.and_false]

theorem Relayed.push {list : ThreadList} (h : Relayed relay goal list []) (stack : List Thread) :
    Relayed relay goal list stack :=
  fun hrelay => .inl ((h hrelay).resolve_right (by simp))

namespace Relay

variable (h : p.Relay q relay goal)

include h

/-- The second machine leaves the relay. -/
theorem leave (offset : Nat) {list list' : ThreadList} {t t' : Thread} {stack stack' : List Thread}
    (hr : p.Relaying q relay goal list (t :: stack) list' (t' :: stack')) :
    ∃ list'' t'', q.follow offset list' (t' :: stack') = q.follow offset list'' (t'' :: stack') ∧
      t''.pc ≠ relay ∧ p.Relaying q relay goal list (t :: stack) list'' (t'' :: stack') := by
  by_cases hrelay : t'.pc = relay
  · obtain ⟨pc, s⟩ := t'
    obtain rfl : pc = relay := hrelay
    obtain ⟨⟨hslots, hplace⟩, hstack⟩ := List.forall₂_cons.mp hr.beside
    have hgoal : Towards pc goal t.pc goal := by
      rcases hplace with heq | ⟨ha, -⟩
      · exact .inr ⟨.inl heq, .inr rfl⟩
      · exact .inr ⟨ha, .inr rfl⟩
    have hstacks : List.Forall₂ (Thread.Beside (Towards pc goal)) (t :: stack)
        (⟨goal, s⟩ :: stack') := .cons ⟨hslots, hgoal⟩ hstack
    cases hfresh : list'.isFresh pc with
    | true =>
      refine ⟨list'.mark pc, ⟨goal, s⟩, ?_, h.ne, ?_, hstacks, hr.relayed, fun _ => .inr (by simp)⟩
      · rw [Program.follow, dif_pos hfresh]
        simp [Program.expand, h.jump']
      · refine hr.matched.mark_right ?_
        rintro c d ⟨rfl, hne⟩
        exact hne
    | false =>
      have hlate : list'.isFresh goal = false := by
        rcases hr.relayed' hfresh with hlate | htop
        · exact hlate
        · exact absurd (by simpa using htop) h.ne.symm
      refine ⟨list', ⟨goal, s⟩, ?_, h.ne, hr.matched, hstacks, hr.relayed, fun _ => .inl hlate⟩
      rw [Program.follow, Program.follow, dif_neg (by simp [hfresh]), dif_neg (by simp [hlate])]
  · exact ⟨list', t', rfl, hrelay, hr⟩

/-- **Following** keeps the lists in step. -/
theorem follow (offset : Nat) {list list' : ThreadList} {stack stack' : List Thread}
    (hr : p.Relaying q relay goal list stack list' stack') :
    p.Relaying q relay goal (p.follow offset list stack) [] (q.follow offset list' stack') [] := by
  induction list, stack using Program.follow.induct p offset generalizing list' stack' with
  | case1 list =>
    cases hr.beside
    rwa [Program.follow, Program.follow]
  | case2 list t stack hfresh hexpand ih =>
    obtain ⟨t', stack', -, -, rfl⟩ := List.forall₂_cons_left_iff.mp hr.beside
    obtain ⟨list', ⟨b, s⟩, heq, hb, hr⟩ := h.leave offset hr
    obtain ⟨⟨rfl, hplace⟩, hstack⟩ := List.forall₂_cons.mp hr.beside
    have ht : t.pc ≠ relay := by
      intro ht
      simp [Program.expand, ht, h.jump] at hexpand
    obtain rfl : t.pc = b := hplace.eq_of_ne ht hb
    have halike := h.elsewhere t.pc ht
    have hfresh' : list'.isFresh t.pc = true := (hr.matched.marks t.pc t.pc ⟨rfl, ht⟩).trans hfresh
    rw [heq, Program.follow, dif_pos hfresh, hexpand, Program.follow, dif_pos hfresh',
      halike.expand_eq_none hexpand]
    apply ih
    exact ⟨(hr.matched.mark fun _ _ => beyond_iff).park halike, hstack, hr.relayed.mark ht _,
      hr.relayed'.mark ht _⟩
  | case3 list t stack hfresh onward hexpand ih =>
    obtain ⟨t', stack', -, -, rfl⟩ := List.forall₂_cons_left_iff.mp hr.beside
    obtain ⟨list', ⟨b, s⟩, heq, hb, hr⟩ := h.leave offset hr
    obtain ⟨⟨rfl, hplace⟩, hstack⟩ := List.forall₂_cons.mp hr.beside
    rw [heq, Program.follow, dif_pos hfresh, hexpand]
    by_cases ht : t.pc = relay
    · -- only the first machine makes a step
      obtain rfl : onward = [⟨goal, t.slots⟩] := by
        simpa [Program.expand, ht, h.jump] using hexpand.symm
      obtain rfl : b = goal := (ht ▸ hplace).eq_goal hb
      apply ih
      rw [ht]
      exact ⟨hr.matched.mark_left fun c d hcd => hcd.2, .cons ⟨rfl, .inl rfl⟩ hstack,
        fun _ => .inr (by simp), hr.relayed'⟩
    · obtain rfl : t.pc = b := hplace.eq_of_ne ht hb
      obtain ⟨onward', hexpand', honward⟩ := (h.elsewhere t.pc ht).expand_eq_some hexpand
      have hfresh' : list'.isFresh t.pc = true :=
        (hr.matched.marks t.pc t.pc ⟨rfl, ht⟩).trans hfresh
      rw [Program.follow, dif_pos hfresh', hexpand']
      apply ih
      exact ⟨hr.matched.mark fun _ _ => beyond_iff, List.rel_append honward hstack,
        hr.relayed.mark ht _, hr.relayed'.mark ht _⟩
  | case4 list t stack hlate ih =>
    obtain ⟨t', stack', -, -, rfl⟩ := List.forall₂_cons_left_iff.mp hr.beside
    obtain ⟨list', ⟨b, s⟩, heq, hb, hr⟩ := h.leave offset hr
    obtain ⟨⟨rfl, hplace⟩, hstack⟩ := List.forall₂_cons.mp hr.beside
    rw [Bool.not_eq_true] at hlate
    have hlate' : list'.isFresh b = false := by
      by_cases ht : t.pc = relay
      · -- a late thread at the relay would be late at the goal
        obtain rfl : b = goal := (ht ▸ hplace).eq_goal hb
        rw [hr.matched.marks b b ⟨rfl, h.ne⟩]
        rcases hr.relayed (ht ▸ hlate) with hgoal | htop
        · exact hgoal
        · exact absurd (by simpa [ht] using htop) h.ne.symm
      · obtain rfl : t.pc = b := hplace.eq_of_ne ht hb
        rw [hr.matched.marks t.pc t.pc ⟨rfl, ht⟩, hlate]
    rw [heq, Program.follow, dif_neg (by simp [hlate]), Program.follow, dif_neg (by simp [hlate'])]
    apply ih
    exact ⟨hr.matched, hstack, hr.relayed.of_late hlate _, hr.relayed'.of_late hlate' _⟩

/-- The machines of both programs stay in step. -/
theorem inStep : p.InStep q (Towards relay goal) (Beyond relay)
    fun list list' => p.Relaying q relay goal list [] list' [] where
  slots_eq := congrArg slotsFor h.groups_eq
  start := .inl rfl
  matched hr := hr.matched
  blank hlist hlist' := by
    have hin : relay < p.size := lt_size_of_getElem? h.jump
    have hin' : relay < q.size := lt_size_of_getElem? h.jump'
    refine ⟨.of_blank h.size_eq ?_ hlist hlist', .nil, ?_, ?_⟩
    · rintro a b ⟨rfl, -⟩
      exact Iff.rfl
    · intro hmark
      simp [hlist.fresh relay hin] at hmark
    · intro hmark
      simp [hlist'.fresh relay hin'] at hmark
  follow offset a b s hr hab := by
    apply h.follow
    exact ⟨hr.matched, .cons ⟨rfl, hab⟩ .nil, hr.relayed.push _, hr.relayed'.push _⟩

end Relay

end Program

end RegexMachine
