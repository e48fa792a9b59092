import RegexMachine.Proofs.Assembly.Along
import RegexMachine.Proofs.Expr.Backtrack
import RegexMachine.Proofs.Run.Search

/-!
# The machine finds the first match

Where a backtracking matcher has a list of ways on, a search of the program has a place that leads
to some exits. `Tries` connects the two: if for every way it is known what a search finds at the
exits, then the search at the place finds what is known of the first way that is not in vain. Like
the ways themselves, this goes along with the code of a block (`Expr.along_tries`), loops included
as long as every round of them reads something.
-/

namespace RegexMachine

open Text (byteSize)

theorem findSome?_flatMap {α β γ : Type} (l : List α) (f : α → List β) (g : β → Option γ) :
    (l.flatMap f).findSome? g = l.findSome? fun a => (f a).findSome? g := by
  induction l with
  | nil => rfl
  | cons a l ih =>
    rw [List.flatMap_cons, List.findSome?_append, ih, List.findSome?_cons]
    cases (f a).findSome? g <;> rfl

/-- The cursor stands in the subject. -/
def Cursor.Within (subject : String) (s : Cursor) : Prop :=
  ∃ front, subject.toList = front ++ s.rest ∧ byteSize front = s.offset

namespace Program

variable {p : Program} {subject : String}

/-- What is found behind a fork. -/
theorem Finds.fork {greedy : Bool} {pc body exit offset : Nat} {slots : Slots}
    {more leave : List Cursor} {result : Cursor → Option Slots}
    (hi : p.code[pc]? = some (.fork greedy body exit))
    (h : p.Finds subject ⟨body, offset⟩ slots (more.findSome? result))
    (h' : p.Finds subject ⟨exit, offset⟩ slots (leave.findSome? result)) :
    p.Finds subject ⟨pc, offset⟩ slots ((Expr.inOrder greedy more leave).findSome? result) := by
  cases greedy with
  | true =>
    rw [Expr.inOrder, if_pos rfl, List.findSome?_append]
    exact split hi h h'
  | false =>
    rw [Expr.inOrder, if_neg Bool.false_ne_true, List.findSome?_append]
    exact split hi h' h

/-- A search from `entry` tries the ways in their order, and each of them leads to one of
`exits`. -/
structure Tries (p : Program) (subject : String) (ways : Cursor → List Cursor) (entry : Nat)
    (exits : Set Nat) : Prop where
  /-- no way leads out of the subject -/
  within : ∀ {s t : Cursor}, s.Within subject → t ∈ ways s → t.Within subject
  /-- what the exits have for the first way that is not in vain is found -/
  finds : ∀ {s : Cursor} {result : Cursor → Option Slots}, s.Within subject →
    (∀ t ∈ ways s, ∀ exit ∈ exits, p.Finds subject ⟨exit, t.offset⟩ t.slots (result t)) →
    p.Finds subject ⟨entry, s.offset⟩ s.slots ((ways s).findSome? result)

namespace Tries

variable {ways more : Cursor → List Cursor} {entry : Nat} {exits middle : Set Nat}

theorem mono (h : p.Tries subject ways entry exits) (hsub : exits ⊆ middle) :
    p.Tries subject ways entry middle where
  within := h.within
  finds hs hresult := h.finds hs fun t ht exit hexit => hresult t ht exit (hsub hexit)

/-- Being there already. -/
theorem done (hentry : entry ∈ exits) : p.Tries subject (fun s => [s]) entry exits where
  within hs ht := List.mem_singleton.mp ht ▸ hs
  finds {s result} hs hresult := by
    have hfinds := hresult s (List.mem_singleton.mpr rfl) entry hentry
    cases hfound : result s <;> simpa [hfound] using hfinds

/-- One after the other. -/
theorem seq (h : p.Tries subject ways entry middle)
    (h' : ∀ mid ∈ middle, p.Tries subject more mid exits) (hmiddle : middle.Nonempty) :
    p.Tries subject (fun s => (ways s).flatMap more) entry exits where
  within hs ht := by
    obtain ⟨u, hu, ht⟩ := List.mem_flatMap.mp ht
    obtain ⟨mid, hmid⟩ := hmiddle
    exact (h' mid hmid).within (h.within hs hu) ht
  finds {s result} hs hresult := by
    rw [findSome?_flatMap]
    refine h.finds hs fun u hu mid hmid => (h' mid hmid).finds (h.within hs hu) fun t ht => ?_
    exact hresult t (List.mem_flatMap.mpr ⟨u, hu, ht⟩)

/-- An exit may only lead to another one. -/
theorem leave {mid target : Nat} (h : p.Tries subject ways entry (insert mid exits))
    (hi : p.code[mid]? = some (.jump target)) (htarget : target ∈ exits) :
    p.Tries subject ways entry exits where
  within := h.within
  finds {s result} hs hresult := by
    refine h.finds hs fun t ht place hplace => ?_
    rcases hplace with rfl | hplace
    · exact .jump hi (hresult t ht target htarget)
    · exact hresult t ht place hplace

theorem save {slot : Nat} (hi : p.code[entry]? = some (.save slot))
    (h : p.Tries subject ways (entry + 1) exits) :
    p.Tries subject (fun s => ways (s.note slot)) entry exits where
  within hs ht := h.within (s := Cursor.note _ slot) hs ht
  finds {s _} hs hresult := .save hi (h.finds (s := s.note slot) hs hresult)

theorem char {c : Char} (hi : p.code[entry]? = some (.char c)) :
    p.Tries subject (·.read c) entry {entry + 1} where
  within {s t} hs ht := by
    obtain ⟨front, hsubject, hoffset⟩ := hs
    obtain ⟨rest, hrest, rfl⟩ := Cursor.mem_read_iff.mp ht
    exact ⟨front ++ [c], by simpa [hrest] using hsubject, by simp [hoffset]⟩
  finds {s result} hs hresult := by
    obtain ⟨front, hsubject, hoffset⟩ := hs
    have hnext : Text.charAt? subject s.offset = s.rest.head? :=
      hoffset ▸ Text.charAt?_of_toList hsubject
    by_cases hc : s.rest.head? = some c
    · obtain ⟨rest, hrest⟩ := List.head?_eq_some_iff.mp hc
      have hread : s.read c = [⟨rest, s.offset + c.utf8Size, s.slots⟩] := by
        simp [Cursor.read, hrest]
      rw [hread] at hresult ⊢
      refine .char hi (hnext.trans hc) ?_
      simpa using hresult _ (List.mem_singleton.mpr rfl) (entry + 1) rfl
    · have hread : s.read c = [] := by
        refine List.eq_nil_iff_forall_not_mem.mpr fun t ht => ?_
        obtain ⟨rest, hrest, -⟩ := Cursor.mem_read_iff.mp ht
        exact hc (by rw [hrest]; rfl)
      rw [hread]
      exact .char_ne hi (hnext ▸ hc)

theorem split {first second : Nat} (hi : p.code[entry]? = some (.split first second))
    (h : p.Tries subject ways first exits) (h' : p.Tries subject more second exits) :
    p.Tries subject (fun s => ways s ++ more s) entry exits where
  within hs ht := by
    rcases List.mem_append.mp ht with ht | ht
    · exact h.within hs ht
    · exact h'.within hs ht
  finds {s result} hs hresult := by
    rw [List.findSome?_append]
    refine .split hi (h.finds hs fun t ht => ?_) (h'.finds hs fun t ht => ?_)
    · exact hresult t (List.mem_append_left _ ht)
    · exact hresult t (List.mem_append_right _ ht)

theorem fork {greedy : Bool} {body exit : Nat}
    (hi : p.code[entry]? = some (.fork greedy body exit))
    (h : p.Tries subject ways body exits) (h' : p.Tries subject more exit exits) :
    p.Tries subject (fun s => Expr.inOrder greedy (ways s) (more s)) entry exits where
  within hs ht := by
    rcases Expr.mem_inOrder.mp ht with ht | ht
    · exact h.within hs ht
    · exact h'.within hs ht
  finds {s result} hs hresult := by
    refine .fork hi (h.finds hs fun t ht => ?_) (h'.finds hs fun t ht => ?_)
    · exact hresult t (Expr.mem_inOrder.mpr (.inl ht))
    · exact hresult t (Expr.mem_inOrder.mpr (.inr ht))

/-- A fork whose body reads something and leads back to it. -/
theorem rounds {greedy : Bool} {body exit : Nat}
    (hi : p.code[entry]? = some (.fork greedy body exit))
    (h : p.Tries subject ways body {entry})
    (hless : ∀ s t, t ∈ ways s → t.rest.length < s.rest.length) :
    p.Tries subject (Expr.rounds greedy ways) entry {exit} where
  within {s t} hs ht := by
    induction s using Expr.rounds.induct greedy ways with
    | case1 s ih =>
      rcases Expr.mem_rounds_iff.mp ht with ⟨u, hu, hlt, ht⟩ | rfl
      · exact ih u hlt (h.within hs hu) ht
      · exact hs
  finds {s result} hs hresult := by
    induction s using Expr.rounds.induct greedy ways with
    | case1 s ih =>
      -- as every round reads something, none is refused
      rw [Expr.rounds_eq hless] at hresult ⊢
      refine .fork hi ?_ ?_
      · rw [findSome?_flatMap]
        refine h.finds hs fun u hu mid hmid => ?_
        obtain rfl := Set.mem_singleton_iff.mp hmid
        refine ih u (hless s u hu) (h.within hs hu) fun t ht => ?_
        exact hresult t (Expr.mem_inOrder.mpr (.inl (List.mem_flatMap.mpr ⟨u, hu, ht⟩)))
      · have hleave := hresult s (Expr.mem_inOrder.mpr (.inr (List.mem_singleton.mpr rfl))) exit rfl
        simpa using hleave

end Tries

end Program

namespace Expr

variable {p : Program} {subject : String}

theorem along_tries : Along p fun e entry exits =>
    e.loopsRead = true → p.Tries subject e.ways entry exits where
  mono h hsub hreads := (h hreads).mono hsub
  jump h hi htarget hreads := (h hreads).leave hi htarget
  literal hi _ := .char hi
  empty hentry _ := .done hentry
  last {e entry exits} h hreads := by
    have hways : (concat [e]).ways = e.ways := funext fun s => List.flatMap_singleton' (e.ways s)
    rw [hways]
    exact h (Bool.and_eq_true_iff.mp hreads).1
  seq {e es _ _ _} h h' hreads := by
    obtain ⟨he, hes⟩ := Bool.and_eq_true_iff.mp hreads
    exact (h he).seq (fun mid hmid => hmid ▸ h' hes) ⟨_, rfl⟩
  alternation hi h h' hreads := by
    obtain ⟨hfirst, hsecond⟩ := Bool.and_eq_true_iff.mp hreads
    exact .split hi (h hfirst) (h' hsecond)
  star hi h hreads := by
    rw [loopsRead, Bool.and_eq_true, Bool.not_eq_true'] at hreads
    exact .rounds hi (h hreads.2) fun s t => length_lt_of_mem_ways hreads.1
  plus h h' hreads := (h (Bool.and_eq_true_iff.mp hreads).2).seq
    (fun mid hmid => hmid ▸ h' hreads) ⟨_, rfl⟩
  question hi h hexit hreads := .fork hi (h hreads) (.done hexit)
  bare h hreads := h hreads
  group {index e _ _} hopen h hclose hreads := by
    have hways : (group (some index) e).ways = fun s =>
        (e.ways (s.note (2 * index))).flatMap fun t => [t.note (2 * index + 1)] :=
      funext fun s => by rw [ways, List.map_eq_flatMap]
    rw [hways]
    refine .save hopen ((h hreads).seq (fun mid hmid => ?_) ⟨_, rfl⟩)
    obtain rfl := Set.mem_singleton_iff.mp hmid
    exact .save hclose (.done (Set.mem_singleton _))

/-- A search at the block of an expression tries the ways to match it. -/
theorem tries (e : Expr) (hreads : e.loopsRead = true) {entry exit : Nat}
    (h : p.Holds entry (e.block entry exit)) :
    p.Tries subject e.ways entry {exit, entry + e.blockSize} :=
  along_tries.of_block e h hreads

/-! ## The whole program -/

/-- **Leftmost first**: for an expression whose loops read something, what the machine finds is what
the first way of the backtracking matcher has noted, slot for slot. -/
theorem captures_eq_firstMatch {e : Expr} (h : e.program = .ok p) (hreads : e.loopsRead = true)
    (subject : String) :
    ((Machine.ofProgram p).captures subject).1 =
      (e.firstMatch subject).map fun slots => ⟨subject, slots⟩ := by
  have hplaced := placedIn h
  let s := Cursor.start subject (Program.slotsFor e.maxIndex)
  have hblank : p.blankSlots = s.slots := by
    rw [Program.blankSlots, Program.slots, hplaced.groups]
    rfl
  have hfirst : e.firstMatch subject =
      (e.ways (s.note 0)).findSome? fun t => some (t.note 1).slots := by
    rw [firstMatch]
    cases e.ways (s.note 0) <;> rfl
  have hwithin : (s.note 0).Within subject := ⟨[], rfl, rfl⟩
  refine Machine.captures_of_finds (Machine.fits_ofProgram p) ?_
  rw [Machine.program_ofProgram, hblank, hfirst]
  refine .save hplaced.start ((e.tries hreads hplaced.block).finds hwithin fun t _ exit hexit => ?_)
  obtain rfl : exit = e.blockSize + 1 := by simpa [Nat.add_comm] using hexit
  exact .save hplaced.stop (.accept hplaced.accept)

/-- In `(a|b)*b` the loop gives back its last round, and the group keeps that of the round
before. -/
theorem captures_gives_back : ∃ p,
    (concat [repetition .star true (group (some 1) (alternation (literal 'a') (literal 'b'))),
      literal 'b']).program = .ok p ∧
    ((Machine.ofProgram p).captures "abbb").1 =
      some ⟨"abbb", #[some 0, some 4, some 2, some 3]⟩ := by
  obtain ⟨p, hprogram⟩ := exists_program (e := concat [repetition .star true
    (group (some 1) (alternation (literal 'a') (literal 'b'))), literal 'b']) (by decide)
  refine ⟨p, hprogram, ?_⟩
  rw [captures_eq_firstMatch hprogram (by decide)]
  decide +kernel

end Expr

end RegexMachine
