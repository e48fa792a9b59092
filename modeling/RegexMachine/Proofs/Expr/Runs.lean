import RegexMachine.Proofs.Expr.Reads

/-!
# Runs are readings

Whatever run goes through the block of an expression to a match, it does what a reading of the
expression does: it comes to the cursor of the reading, with the slots of the cursor.

`Leads` says this of a place in a program and a relation between cursors. It is closed under
whatever an instruction does, so it goes along with the code of a block (`Expr.along_leads`); a loop
is left after as many rounds as the run makes, which has fewer moves left after each of them.
-/

namespace RegexMachine

namespace Program

variable {p : Program} {subject : String}

/-- A run of `n` moves reaches a match from `c`, and in the end has the slots `final`. -/
def Ends (p : Program) (subject : String) (c : Config) (slots : Slots) (n : Nat) (final : Slots) :
    Prop :=
  ∃ r, p.Accepts subject c r ∧ r.length = n ∧ p.slotsAfter c slots r = final

namespace Ends

variable {c : Config} {pc offset n : Nat} {slots final : Slots}

theorem accept (h : p.Ends subject c slots n final) (hc : p.Final c) : final = slots := by
  obtain ⟨r, hr, -, hslots⟩ := h
  rw [hr.eq_nil hc] at hslots
  exact hslots.symm

/-- Elsewhere there is a first move. -/
theorem step (h : p.Ends subject c slots n final) (hc : ¬ p.Final c) :
    ∃ m k, p.Step subject c m ∧ k < n ∧ p.Ends subject m.goal (p.note c slots) k final := by
  obtain ⟨r, hr, hn, hslots⟩ := h
  cases r with
  | nil => exact absurd (accepts_nil.mp hr) hc
  | cons m r =>
    obtain ⟨hm, hr⟩ := accepts_cons.mp hr
    exact ⟨m, r.length, hm, by simp [← hn], r, hr, rfl, hslots⟩

theorem jump {target : Nat} (h : p.Ends subject ⟨pc, offset⟩ slots n final)
    (hi : p.code[pc]? = some (.jump target)) :
    ∃ k < n, p.Ends subject ⟨target, offset⟩ slots k final := by
  obtain ⟨m, k, hm, hk, hends⟩ := h.step (by simp [Final, hi])
  refine ⟨k, hk, ?_⟩
  cases hm <;> simp_all [note]

theorem save {slot : Nat} (h : p.Ends subject ⟨pc, offset⟩ slots n final)
    (hi : p.code[pc]? = some (.save slot)) :
    ∃ k < n, p.Ends subject ⟨pc + 1, offset⟩ (slots.setIfInBounds slot (some offset)) k final := by
  obtain ⟨m, k, hm, hk, hends⟩ := h.step (by simp [Final, hi])
  refine ⟨k, hk, ?_⟩
  cases hm <;> simp_all [note]

theorem char {d : Char} (h : p.Ends subject ⟨pc, offset⟩ slots n final)
    (hi : p.code[pc]? = some (.char d)) :
    Text.charAt? subject offset = some d ∧
      ∃ k < n, p.Ends subject ⟨pc + 1, offset + d.utf8Size⟩ slots k final := by
  obtain ⟨m, k, hm, hk, hends⟩ := h.step (by simp [Final, hi])
  cases hm <;> simp_all [note]
  exact ⟨k, hk, hends⟩

theorem split {first second : Nat} (h : p.Ends subject ⟨pc, offset⟩ slots n final)
    (hi : p.code[pc]? = some (.split first second)) :
    ∃ k < n, p.Ends subject ⟨first, offset⟩ slots k final ∨
      p.Ends subject ⟨second, offset⟩ slots k final := by
  obtain ⟨m, k, hm, hk, hends⟩ := h.step (by simp [Final, hi])
  refine ⟨k, hk, ?_⟩
  cases hm <;> simp_all [note]

theorem fork {greedy : Bool} {body exit : Nat} (h : p.Ends subject ⟨pc, offset⟩ slots n final)
    (hi : p.code[pc]? = some (.fork greedy body exit)) :
    ∃ k < n, p.Ends subject ⟨body, offset⟩ slots k final ∨
      p.Ends subject ⟨exit, offset⟩ slots k final := by
  cases greedy with
  | true => exact h.split hi
  | false =>
    obtain ⟨k, hk, hends⟩ := h.split hi
    exact ⟨k, hk, hends.symm⟩

end Ends

/-- A run to a match that begins at `entry` comes to one of `exits`, as the relation says. -/
structure Leads (p : Program) (subject : String) (R : Cursor → Cursor → Prop) (entry : Nat)
    (exits : Set Nat) : Prop where
  /-- the rest of the run begins at one of the exits, and is no longer -/
  comes : ∀ {s : Cursor} {n : Nat} {final : Slots}, s.Within subject →
    p.Ends subject ⟨entry, s.offset⟩ s.slots n final →
    ∃ t k, R s t ∧ t.Within subject ∧ k ≤ n ∧
      ∃ exit ∈ exits, p.Ends subject ⟨exit, t.offset⟩ t.slots k final

namespace Leads

variable {R S : Cursor → Cursor → Prop} {entry : Nat} {exits middle : Set Nat}

theorem mono (h : p.Leads subject R entry exits) (hsub : exits ⊆ middle) :
    p.Leads subject R entry middle where
  comes {s n final} hs hends := by
    obtain ⟨t, k, hst, ht, hk, exit, hexit, hends⟩ := h.comes hs hends
    exact ⟨t, k, hst, ht, hk, exit, hsub hexit, hends⟩

/-- Being there already. -/
theorem done (hentry : entry ∈ exits) : p.Leads subject (fun s t => t = s) entry exits where
  comes {s n _} hs hends := ⟨s, n, rfl, hs, Nat.le_refl n, entry, hentry, hends⟩

/-- One after the other. -/
theorem seq (h : p.Leads subject R entry middle)
    (h' : ∀ mid ∈ middle, p.Leads subject S mid exits) :
    p.Leads subject (Relation.Comp R S) entry exits where
  comes {s n final} hs hends := by
    obtain ⟨t, k, hst, ht, hk, mid, hmid, hends⟩ := h.comes hs hends
    obtain ⟨u, l, htu, hu, hl, hrest⟩ := (h' mid hmid).comes ht hends
    exact ⟨u, l, ⟨t, hst, htu⟩, hu, Nat.le_trans hl hk, hrest⟩

/-- An exit may only lead to another one. -/
theorem leave {mid target : Nat} (h : p.Leads subject R entry (insert mid exits))
    (hi : p.code[mid]? = some (.jump target)) (htarget : target ∈ exits) :
    p.Leads subject R entry exits where
  comes {s n final} hs hends := by
    obtain ⟨t, k, hst, ht, hk, place, rfl | hplace, hends⟩ := h.comes hs hends
    · obtain ⟨l, hl, hends⟩ := hends.jump hi
      exact ⟨t, l, hst, ht, by omega, target, htarget, hends⟩
    · exact ⟨t, k, hst, ht, hk, place, hplace, hends⟩

theorem save {slot : Nat} (hi : p.code[entry]? = some (.save slot))
    (h : p.Leads subject R (entry + 1) exits) :
    p.Leads subject (fun s => R (s.note slot)) entry exits where
  comes {s n final} hs hends := by
    obtain ⟨k, hk, hends⟩ := hends.save hi
    obtain ⟨t, l, hst, ht, hl, hrest⟩ := h.comes (s := s.note slot) hs hends
    exact ⟨t, l, hst, ht, by omega, hrest⟩

theorem char {c : Char} (hi : p.code[entry]? = some (.char c)) :
    p.Leads subject (fun s t => t ∈ s.read c) entry {entry + 1} where
  comes {s n final} hs hends := by
    obtain ⟨hc, k, hk, hends⟩ := hends.char hi
    obtain ⟨front, hsubject, hoffset⟩ := hs
    rw [← hoffset, Text.charAt?_of_toList hsubject] at hc
    obtain ⟨rest, hrest⟩ := List.head?_eq_some_iff.mp hc
    refine ⟨⟨rest, s.offset + c.utf8Size, s.slots⟩, k, Cursor.mem_read_iff.mpr ⟨rest, hrest, rfl⟩,
      ⟨front ++ [c], ?_, ?_⟩, by omega, entry + 1, rfl, hends⟩
    · simpa [hrest] using hsubject
    · simp [hoffset]

/-- A choice between two ways on. -/
theorem split {first second : Nat} (hi : p.code[entry]? = some (.split first second))
    (h : p.Leads subject R first exits) (h' : p.Leads subject S second exits) :
    p.Leads subject (fun s t => R s t ∨ S s t) entry exits where
  comes {s n final} hs hends := by
    obtain ⟨k, hk, hends | hends⟩ := hends.split hi
    · obtain ⟨t, l, hst, ht, hl, hrest⟩ := h.comes hs hends
      exact ⟨t, l, .inl hst, ht, by omega, hrest⟩
    · obtain ⟨t, l, hst, ht, hl, hrest⟩ := h'.comes hs hends
      exact ⟨t, l, .inr hst, ht, by omega, hrest⟩

theorem fork {greedy : Bool} {body exit : Nat}
    (hi : p.code[entry]? = some (.fork greedy body exit)) (h : p.Leads subject R body exits)
    (h' : p.Leads subject S exit exits) :
    p.Leads subject (fun s t => R s t ∨ S s t) entry exits := by
  cases greedy with
  | true => exact split hi h h'
  | false =>
    simp only [or_comm (a := R _ _)]
    exact split hi h' h

/-- A fork whose body leads back to it is left after any number of rounds. -/
theorem rounds {greedy : Bool} {body exit : Nat}
    (hi : p.code[entry]? = some (.fork greedy body exit)) (h : p.Leads subject R body {entry}) :
    p.Leads subject (Relation.ReflTransGen R) entry {exit} where
  comes {s n final} hs hends := by
    -- every round leaves fewer moves
    induction n using Nat.strong_induction_on generalizing s with
    | _ n ih =>
      obtain ⟨k, hk, hends | hends⟩ := hends.fork hi
      · obtain ⟨t, l, hst, ht, hl, mid, hmid, hends⟩ := h.comes hs hends
        rw [Set.mem_singleton_iff.mp hmid] at hends
        obtain ⟨u, m, htu, hu, hm, hrest⟩ := ih l (by omega) ht hends
        exact ⟨u, m, .head hst htu, hu, by omega, hrest⟩
      · exact ⟨s, k, .refl, hs, by omega, exit, rfl, hends⟩

end Leads

end Program

namespace Expr

variable {p : Program} {subject : String}

theorem along_leads : Along p fun e => p.Leads subject e.Reads where
  mono h hsub := h.mono hsub
  jump h hi htarget := h.leave hi htarget
  literal hi := .char hi
  empty hentry := .done hentry
  last h := h.seq fun _ hmid => .done hmid
  seq h h' := h.seq fun mid hmid => hmid ▸ h'
  alternation hi h h' := .split hi h h'
  star hi h := .rounds hi h
  plus h h' := h.seq fun mid hmid => hmid ▸ h'
  question hi h hexit := .fork hi h (.done hexit)
  bare h := h
  group hopen h hclose := by
    refine .save hopen (h.seq fun mid hmid => ?_)
    obtain rfl := Set.mem_singleton_iff.mp hmid
    exact .save hclose (.done (Set.mem_singleton _))

/-- A run through the block of an expression is a reading of the expression. -/
theorem leads (e : Expr) {entry exit : Nat} (h : p.Holds entry (e.block entry exit)) :
    p.Leads subject e.Reads entry {exit, entry + e.blockSize} :=
  along_leads.of_block e h

/-- A run of the whole program is a reading of the expression, with a group of index zero around
it. -/
theorem exists_reading_of_accepts {e : Expr} (h : e.PlacedIn p) {r : Run}
    (hr : p.Accepts subject .start r) :
    ∃ t, (group (some 0) e).Reads (.start subject p.slots) t ∧ t.slots = p.slotsOf r := by
  have hblock : p.Holds 0 ((group (some 0) e).block 0 (e.blockSize + 2)) := by
    have hsize : 0 + 1 + e.blockSize = e.blockSize + 1 := by omega
    exact holds_group.mpr ⟨h.start, hsize ▸ h.block, hsize ▸ h.stop⟩
  have hwithin : (Cursor.start subject p.slots).Within subject := ⟨[], rfl, rfl⟩
  have hends : p.Ends subject .start p.blankSlots r.length (p.slotsOf r) := ⟨r, hr, rfl, rfl⟩
  obtain ⟨t, k, hreads, -, -, exit, hexit, hends⟩ := (leads _ hblock).comes hwithin hends
  obtain rfl : exit = e.blockSize + 2 := by simpa [blockSize] using hexit
  exact ⟨t, hreads, (hends.accept h.accept).symm⟩

end Expr

end RegexMachine
