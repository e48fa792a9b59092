import RegexMachine.Proofs.Assembly.Along
import RegexMachine.Proofs.Expr.Language
import RegexMachine.Proofs.Run.Captures

/-!
# Programs recognize their language

`Recognizes` connects a place in a program with a language: every word of the language carries a run
from there to one of some exits, and every run from there to a match comes to one of the exits by
reading a word of the language. It goes along with the code (`Expr.along_recognizes`), so the block
of an expression recognizes the language of the expression (`Expr.recognizes`), loops included: a
loop is left after as many rounds as the run makes, whether they read anything or not.
-/

namespace RegexMachine

open scoped Computability

open Text (byteSize)

namespace Program

/-- Some run leads from one configuration to the other. -/
def Reaches (p : Program) (subject : String) (c d : Config) : Prop :=
  ∃ r, p.Path subject c r ∧ c.after r = d

variable {p : Program} {subject : String}

namespace Reaches

theorem refl (c : Config) : p.Reaches subject c c := ⟨[], trivial, rfl⟩

theorem trans {a b c : Config} (hab : p.Reaches subject a b) (hbc : p.Reaches subject b c) :
    p.Reaches subject a c := by
  obtain ⟨r, hr, rfl⟩ := hab
  obtain ⟨s, hs, rfl⟩ := hbc
  exact ⟨r ++ s, path_append.mpr ⟨hr, hs⟩, Config.after_append a r s⟩

theorem step {c d : Config} {choice : Option Choice} (h : p.Step subject c ⟨choice, d⟩) :
    p.Reaches subject c d :=
  ⟨[⟨choice, d⟩], ⟨h, trivial⟩, rfl⟩

theorem fork_body {greedy : Bool} {pc body exit : Nat}
    (hi : p.code[pc]? = some (.fork greedy body exit)) (offset : Nat) :
    p.Reaches subject ⟨pc, offset⟩ ⟨body, offset⟩ := by
  cases greedy with
  | true => exact step (.first hi)
  | false => exact step (.second hi)

theorem fork_exit {greedy : Bool} {pc body exit : Nat}
    (hi : p.code[pc]? = some (.fork greedy body exit)) (offset : Nat) :
    p.Reaches subject ⟨pc, offset⟩ ⟨exit, offset⟩ := by
  cases greedy with
  | true => exact step (.second hi)
  | false => exact step (.first hi)

end Reaches

theorem Accepts.of_fork {pc offset body exit : Nat} {greedy : Bool} {r : Run}
    (hr : p.Accepts subject ⟨pc, offset⟩ r) (hi : p.code[pc]? = some (.fork greedy body exit)) :
    ∃ m s, r = m :: s ∧ ((m.goal = ⟨body, offset⟩ ∧ p.Accepts subject ⟨body, offset⟩ s) ∨
      (m.goal = ⟨exit, offset⟩ ∧ p.Accepts subject ⟨exit, offset⟩ s)) := by
  cases greedy with
  | true =>
    rcases hr.of_split hi with ⟨s, rfl, hs⟩ | ⟨s, rfl, hs⟩
    · exact ⟨_, s, rfl, .inl ⟨rfl, hs⟩⟩
    · exact ⟨_, s, rfl, .inr ⟨rfl, hs⟩⟩
  | false =>
    rcases hr.of_split hi with ⟨s, rfl, hs⟩ | ⟨s, rfl, hs⟩
    · exact ⟨_, s, rfl, .inr ⟨rfl, hs⟩⟩
    · exact ⟨_, s, rfl, .inl ⟨rfl, hs⟩⟩

/-- From `entry`, the words of a language lead to `exits`, and nothing else leads through them to a
match. -/
structure Recognizes (p : Program) (subject : String) (L : Language Char) (entry : Nat)
    (exits : Set Nat) : Prop where
  /-- every word can be read -/
  reads : ∀ {front w back : List Char}, subject.toList = front ++ (w ++ back) → w ∈ L →
    ∃ exit ∈ exits, p.Reaches subject ⟨entry, byteSize front⟩ ⟨exit, byteSize (front ++ w)⟩
  /-- every run to a match begins by reading a word -/
  splits : ∀ {front rest : List Char} {r : Run}, subject.toList = front ++ rest →
    p.Accepts subject ⟨entry, byteSize front⟩ r →
    ∃ w back s t, rest = w ++ back ∧ w ∈ L ∧ r = s ++ t ∧ ∃ exit ∈ exits,
      Config.after ⟨entry, byteSize front⟩ s = ⟨exit, byteSize (front ++ w)⟩

namespace Recognizes

variable {L M : Language Char} {entry : Nat} {exits middle : Set Nat}

theorem mono (h : p.Recognizes subject L entry exits) (hsub : exits ⊆ middle) :
    p.Recognizes subject L entry middle where
  reads hsubject hw := by
    obtain ⟨exit, hexit, hreach⟩ := h.reads hsubject hw
    exact ⟨exit, hsub hexit, hreach⟩
  splits hsubject hr := by
    obtain ⟨w, back, s, t, hrest, hw, hst, exit, hexit, hafter⟩ := h.splits hsubject hr
    exact ⟨w, back, s, t, hrest, hw, hst, exit, hsub hexit, hafter⟩

/-- Being there already. -/
theorem one (hentry : entry ∈ exits) : p.Recognizes subject 1 entry exits where
  reads {front w back} hsubject hw := by
    obtain rfl := (Language.mem_one w).mp hw
    exact ⟨entry, hentry, by simpa using Reaches.refl _⟩
  splits {front rest r} hsubject hr :=
    ⟨[], rest, [], r, rfl, rfl, rfl, entry, hentry, by simp⟩

/-- One language after the other. -/
theorem mul (h : p.Recognizes subject L entry middle)
    (h' : ∀ mid ∈ middle, p.Recognizes subject M mid exits) :
    p.Recognizes subject (L * M) entry exits where
  reads {front w back} hsubject hw := by
    obtain ⟨u, hu, v, hv, rfl⟩ := Language.mem_mul.mp hw
    rw [List.append_assoc] at hsubject
    obtain ⟨mid, hmid, hreach⟩ := h.reads hsubject hu
    rw [← List.append_assoc] at hsubject
    obtain ⟨exit, hexit, hreach'⟩ := (h' mid hmid).reads hsubject hv
    rw [List.append_assoc] at hreach'
    exact ⟨exit, hexit, hreach.trans hreach'⟩
  splits {front rest r} hsubject hr := by
    obtain ⟨u, back, s, t, rfl, hu, rfl, mid, hmid, hafter⟩ := h.splits hsubject hr
    rw [← List.append_assoc] at hsubject
    have ht := (accepts_append.mp hr).2
    rw [hafter] at ht
    obtain ⟨v, back, s', t, rfl, hv, rfl, exit, hexit, hafter'⟩ :=
      (h' mid hmid).splits hsubject ht
    refine ⟨u ++ v, back, s ++ s', t, (List.append_assoc _ _ _).symm,
      Language.mem_mul.mpr ⟨u, hu, v, hv, rfl⟩, (List.append_assoc _ _ _).symm, exit, hexit, ?_⟩
    rw [Config.after_append, hafter, hafter', List.append_assoc]

/-- A place whose only move leads elsewhere without reading. -/
theorem of_silent {goal : Nat} {choice : Option Choice}
    (hstep : ∀ offset, p.Step subject ⟨entry, offset⟩ ⟨choice, ⟨goal, offset⟩⟩)
    (honly : ∀ offset m, p.Step subject ⟨entry, offset⟩ m → m = ⟨choice, ⟨goal, offset⟩⟩)
    (h : p.Recognizes subject L goal exits) : p.Recognizes subject L entry exits where
  reads {front w back} hsubject hw := by
    obtain ⟨exit, hexit, hreach⟩ := h.reads hsubject hw
    exact ⟨exit, hexit, (Reaches.step (hstep _)).trans hreach⟩
  splits {front rest r} hsubject hr := by
    cases r with
    | nil => exact absurd (hstep _) (accepts_nil.mp hr).not_step
    | cons m r =>
      obtain ⟨hm, hr⟩ := accepts_cons.mp hr
      obtain rfl := honly _ m hm
      obtain ⟨w, back, s, t, hrest, hw, rfl, exit, hexit, hafter⟩ := h.splits hsubject hr
      exact ⟨w, back, _ :: s, t, hrest, hw, rfl, exit, hexit, hafter⟩

theorem jump {target : Nat} (hi : p.code[entry]? = some (.jump target))
    (h : p.Recognizes subject L target exits) : p.Recognizes subject L entry exits := by
  refine of_silent (fun offset => .jump hi) (fun offset m hm => ?_) h
  cases hm <;> simp_all

/-- An exit may only lead to another one. -/
theorem leave {mid target : Nat} (h : p.Recognizes subject L entry (insert mid exits))
    (hi : p.code[mid]? = some (.jump target)) (htarget : target ∈ exits) :
    p.Recognizes subject L entry exits := by
  rw [← mul_one L]
  refine h.mul fun place hplace => ?_
  rcases hplace with rfl | hplace
  · exact .jump hi (.one htarget)
  · exact .one hplace

theorem save {slot : Nat} (hi : p.code[entry]? = some (.save slot))
    (h : p.Recognizes subject L (entry + 1) exits) : p.Recognizes subject L entry exits := by
  refine of_silent (fun offset => .save hi) (fun offset m hm => ?_) h
  cases hm <;> simp_all

theorem char {c : Char} (hi : p.code[entry]? = some (.char c)) :
    p.Recognizes subject {[c]} entry {entry + 1} where
  reads {front w back} hsubject hw := by
    obtain rfl : w = [c] := hw
    refine ⟨entry + 1, rfl, ?_⟩
    have hstep : p.Step subject ⟨entry, byteSize front⟩ _ :=
      .char hi (by rw [Text.charAt?_of_toList hsubject]; rfl)
    simpa using Reaches.step hstep
  splits {front rest r} hsubject hr := by
    cases r with
    | nil => simp [accepts_nil, Final, hi] at hr
    | cons m r =>
      obtain ⟨hm, hr⟩ := accepts_cons.mp hr
      cases hm with
      | char hi' hc =>
        obtain rfl : c = _ := by simpa [hi] using hi'
        rw [Text.charAt?_of_toList hsubject] at hc
        obtain ⟨back, rfl⟩ := List.head?_eq_some_iff.mp hc
        exact ⟨[c], back, [_], r, rfl, rfl, rfl, entry + 1, rfl, by simp⟩
      | jump hi' | first hi' | second hi' | save hi' | nop hi' => simp [hi] at hi'

/-- A split between two ways on. -/
theorem split {first second : Nat} (hi : p.code[entry]? = some (.split first second))
    (h : p.Recognizes subject L first exits) (h' : p.Recognizes subject M second exits) :
    p.Recognizes subject (L + M) entry exits where
  reads {front w back} hsubject hw := by
    rcases hw with hw | hw
    · obtain ⟨exit, hexit, hreach⟩ := h.reads hsubject hw
      exact ⟨exit, hexit, (Reaches.step (.first hi)).trans hreach⟩
    · obtain ⟨exit, hexit, hreach⟩ := h'.reads hsubject hw
      exact ⟨exit, hexit, (Reaches.step (.second hi)).trans hreach⟩
  splits {front rest r} hsubject hr := by
    rcases hr.of_split hi with ⟨r, rfl, hmore⟩ | ⟨r, rfl, hmore⟩
    · obtain ⟨w, back, s, t, hrest, hw, rfl, exit, hexit, hafter⟩ := h.splits hsubject hmore
      exact ⟨w, back, _ :: s, t, hrest, .inl hw, rfl, exit, hexit, hafter⟩
    · obtain ⟨w, back, s, t, hrest, hw, rfl, exit, hexit, hafter⟩ := h'.splits hsubject hmore
      exact ⟨w, back, _ :: s, t, hrest, .inr hw, rfl, exit, hexit, hafter⟩

theorem fork {greedy : Bool} {body exit : Nat}
    (hi : p.code[entry]? = some (.fork greedy body exit))
    (h : p.Recognizes subject L body exits) (h' : p.Recognizes subject M exit exits) :
    p.Recognizes subject (L + M) entry exits := by
  cases greedy with
  | true => exact split hi h h'
  | false =>
    rw [add_comm]
    exact split hi h' h

/-- A fork whose body leads back to it is left after any number of rounds. -/
theorem rounds {greedy : Bool} {body exit : Nat}
    (hi : p.code[entry]? = some (.fork greedy body exit))
    (h : p.Recognizes subject L body {entry}) : p.Recognizes subject L∗ entry {exit} where
  reads {front w back} hsubject hw := by
    obtain ⟨words, rfl, hwords⟩ := Language.mem_kstar.mp hw
    clear hw
    refine ⟨exit, rfl, ?_⟩
    induction words generalizing front with
    | nil => simpa using Reaches.fork_exit hi (byteSize front)
    | cons u words ih =>
      rw [List.flatten_cons, List.append_assoc] at hsubject
      obtain ⟨_, rfl, hround⟩ := h.reads hsubject (hwords u List.mem_cons_self)
      rw [← List.append_assoc] at hsubject
      have hmore := ih (fun v hv => hwords v (List.mem_cons_of_mem _ hv)) hsubject
      rw [List.append_assoc] at hmore
      exact ((Reaches.fork_body hi _).trans hround).trans hmore
  splits {front rest r} hsubject hr := by
    obtain ⟨n, hn⟩ : ∃ n, r.length = n := ⟨_, rfl⟩
    -- every round leaves less of the run
    induction n using Nat.strong_induction_on generalizing front rest r with
    | _ n ih =>
      obtain ⟨m, r, rfl, ⟨hgoal, hmore⟩ | ⟨hgoal, hmore⟩⟩ := hr.of_fork hi
      · obtain ⟨u, back, s, t, rfl, hu, rfl, mid, hmid, hafter⟩ := h.splits hsubject hmore
        have ht := (accepts_append.mp hmore).2
        rw [Set.mem_singleton_iff.mp hmid] at hafter
        rw [hafter] at ht
        rw [← List.append_assoc] at hsubject
        have hless : t.length < n := by
          rw [← hn, List.length_cons, List.length_append]
          omega
        obtain ⟨v, back, s', t, rfl, hv, rfl, out, hout, hafter'⟩ :=
          ih t.length hless hsubject ht rfl
        refine ⟨u ++ v, back, m :: (s ++ s'), t, (List.append_assoc _ _ _).symm, ?_, by simp, out,
          hout, ?_⟩
        · rw [← Language.one_add_self_mul_kstar_eq_kstar]
          exact .inr (Language.mem_mul.mpr ⟨u, hu, v, hv, rfl⟩)
        · rw [Config.after_cons, hgoal, Config.after_append, hafter, hafter', List.append_assoc]
      · exact ⟨[], rest, [m], r, rfl, Language.nil_mem_kstar L, rfl, exit, rfl, by
          rw [Config.after_cons, hgoal, Config.after_nil, List.append_nil]⟩

end Recognizes

end Program

namespace Expr

variable {p : Program} {subject : String}

theorem along_recognizes : Along p fun e => p.Recognizes subject e.language where
  mono h hsub := h.mono hsub
  jump h hi htarget := h.leave hi htarget
  literal hi := .char hi
  empty hentry := .one hentry
  last {e _ _} h := by
    have hlanguage : (concat [e]).language = e.language := mul_one e.language
    rwa [hlanguage]
  seq h h' := h.mul fun mid hmid => hmid ▸ h'
  alternation hi h h' := .split hi h h'
  star hi h := .rounds hi h
  plus h h' := h.mul fun mid hmid => hmid ▸ h'
  question hi h hexit := .fork hi h (.one hexit)
  bare h := h
  group {index e _ _} hopen h hclose := by
    rw [← mul_one (group (some index) e).language]
    refine .save hopen (h.mul fun mid hmid => ?_)
    obtain rfl := Set.mem_singleton_iff.mp hmid
    exact .save hclose (.one (Set.mem_singleton _))

/-- The block of an expression recognizes its language. -/
theorem recognizes (e : Expr) {entry exit : Nat} (h : p.Holds entry (e.block entry exit)) :
    p.Recognizes subject e.language entry {exit, entry + e.blockSize} :=
  along_recognizes.of_block e h

/-! ## The whole program -/

variable {e : Expr}

theorem recognizes_program (h : e.PlacedIn p) :
    p.Recognizes subject e.language 0 {e.blockSize + 1} := by
  refine .save h.start ((e.recognizes h.block).mono ?_)
  simp [Nat.add_comm]

/-- A run to a match reads a word of the language and notes where it ends. -/
theorem exists_word_of_accepts (h : e.PlacedIn p) {r : Run} (hr : p.Accepts subject .start r) :
    ∃ w back s, subject.toList = w ++ back ∧ w ∈ e.language ∧
      Config.start.after s = ⟨e.blockSize + 1, byteSize w⟩ ∧
      r = s ++ [⟨none, ⟨e.blockSize + 2, byteSize w⟩⟩] := by
  obtain ⟨w, back, s, t, hsubject, hw, rfl, exit, hexit, hafter⟩ :=
    (recognizes_program h).splits (List.nil_append _).symm hr
  replace hafter : Config.start.after s = ⟨e.blockSize + 1, byteSize w⟩ := by
    rw [← Set.mem_singleton_iff.mp hexit]
    exact hafter
  refine ⟨w, back, s, hsubject, hw, hafter, ?_⟩
  have ht := (Program.accepts_append.mp hr).2
  rw [hafter] at ht
  cases t with
  | nil => simp [Program.accepts_nil, Program.Final, h.stop] at ht
  | cons m t =>
    obtain ⟨hm, ht⟩ := Program.accepts_cons.mp ht
    have hstop := h.stop
    obtain rfl : m = ⟨none, ⟨e.blockSize + 2, byteSize w⟩⟩ := by
      cases hm <;> simp_all
    rw [ht.eq_nil h.accept]

theorem exists_accepts_of_word (h : e.PlacedIn p) {w back : List Char}
    (hsubject : subject.toList = w ++ back) (hw : w ∈ e.language) :
    ∃ r, p.Accepts subject .start r := by
  rw [← List.nil_append (w ++ back)] at hsubject
  obtain ⟨exit, hexit, hreach⟩ := (recognizes_program h).reads hsubject hw
  rw [Set.mem_singleton_iff.mp hexit] at hreach
  have hend : p.Reaches subject .start ⟨e.blockSize + 2, byteSize w⟩ :=
    hreach.trans (.step (.save h.stop))
  obtain ⟨r, hr, hafter⟩ := hend
  refine ⟨r, hr, ?_⟩
  rw [Program.Final, hafter]
  exact h.accept

/-- The last slot that a run to a match notes is the one of its end. -/
theorem stop_of_accepts (h : e.PlacedIn p) {r : Run} (hr : p.Accepts subject .start r) :
    (p.slotsOf r)[1]? = some (some (Config.start.after r).offset) := by
  obtain ⟨w, -, s, -, -, hafter, rfl⟩ := exists_word_of_accepts h hr
  have hsize : 1 < (p.slotsOf s).size := by
    simp [Program.slotsOf, Program.blankSlots, Program.slots, Program.slotsFor]
  rw [Program.slotsOf_snoc, hafter, Program.note, h.stop, Config.after_append]
  simp only [Array.getElem?_setIfInBounds, if_true, if_pos hsize, Config.after_cons,
    Config.after_nil]

/-- The slots of the whole match at the end of a run. -/
theorem slotsOf_of_accepts (h : e.PlacedIn p) {r : Run} (hr : p.Accepts subject .start r) :
    ∃ w back start, subject.toList = w ++ back ∧ w ∈ e.language ∧
      (p.slotsOf r)[0]? = some (some start) ∧ (p.slotsOf r)[1]? = some (some (byteSize w)) := by
  have hslot₁ := stop_of_accepts h hr
  obtain ⟨w, back, s, hsubject, hw, hafter, rfl⟩ := exists_word_of_accepts h hr
  have hslot₀ : ∃ start, (p.slotsOf (s ++ [⟨none, ⟨e.blockSize + 2, byteSize w⟩⟩]))[0]? =
      some (some start) := by
    cases s with
    | nil =>
      rw [Config.after_nil, Config.start] at hafter
      cases hafter
    | cons n s =>
      rw [List.cons_append, Program.slotsOf, Program.slotsAfter]
      refine Program.exists_slotsAfter ⟨0, ?_⟩ _ _
      simp [Program.note, Config.start, h.start, Program.blankSlots, Program.slots,
        Program.slotsFor]
  obtain ⟨start, hslot₀⟩ := hslot₀
  exact ⟨w, back, start, hsubject, hw, hslot₀, by simpa using hslot₁⟩

/-- **Recognition**: the program of an expression matches exactly the subjects that begin with a
word of its language, and what it reports as the match is such a word. -/
theorem captures_iff_language (h : e.program = .ok p) (subject : String) :
    (((Machine.ofProgram p).captures subject).1.isSome = true ↔
      ∃ w, w <+: subject.toList ∧ w ∈ e.language) ∧
    ∀ c, ((Machine.ofProgram p).captures subject).1 = some c →
      ∃ start stop text, c.span 0 = some (start, stop) ∧
        Text.slice? subject 0 stop = some text ∧ text.toList ∈ e.language := by
  have hplaced := placedIn h
  have hfits := Machine.fits_ofProgram p
  refine ⟨⟨fun hsome => ?_, ?_⟩, fun c hc => ?_⟩
  · obtain ⟨c, hc⟩ := Option.isSome_iff_exists.mp hsome
    obtain ⟨r, hr, -⟩ := (Machine.captures_eq_some_iff hfits subject c).mp hc
    obtain ⟨w, back, s, hsubject, hw, -⟩ := exists_word_of_accepts hplaced hr.accepts
    exact ⟨w, ⟨back, hsubject.symm⟩, hw⟩
  · rintro ⟨w, ⟨back, hback⟩, hw⟩
    obtain ⟨r, hr⟩ := exists_accepts_of_word hplaced hback.symm hw
    rw [Option.isSome_iff_ne_none, ne_eq, Machine.captures_eq_none_iff hfits]
    exact fun hnone => hnone r hr
  · obtain ⟨r, hr, rfl⟩ := (Machine.captures_eq_some_iff hfits subject c).mp hc
    obtain ⟨w, back, start, hsubject, hw, hstart, hstop⟩ := slotsOf_of_accepts hplaced hr.accepts
    refine ⟨start, byteSize w, String.ofList w, ?_, Text.slice?_zero hsubject, ?_⟩
    · simp [Captures.span, hstart, hstop]
    · simpa using hw

/-- The inner loop of `(a*)*` may turn without reading. -/
theorem captures_nested_star : ∃ p,
    (repetition .star true (repetition .star true (literal 'a'))).program = .ok p ∧
    ((Machine.ofProgram p).captures "aab").1.isSome = true := by
  obtain ⟨p, hprogram⟩ :=
    exists_program (e := repetition .star true (repetition .star true (literal 'a'))) (by decide)
  refine ⟨p, hprogram, (captures_iff_language hprogram "aab").1.mpr ⟨['a', 'a'], by decide, ?_⟩⟩
  have hword : ['a', 'a'] ∈ (repetition .star true (literal 'a')).language :=
    Language.mem_kstar.mpr ⟨[['a'], ['a']], rfl, by simp [mem_language_literal]⟩
  exact Language.mem_kstar.mpr ⟨[['a', 'a']], rfl, by simpa using hword⟩

end Expr

end RegexMachine
