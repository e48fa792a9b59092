import RegexMachine.Proofs.Expr.Context
import RegexMachine.Proofs.Expr.Recognition
import RegexMachine.Proofs.Run.Bypass

/-!
# Sliding through blocks

How control may go through the program of an expression without reading anything.

* **through a block** — from the beginning of the block of an expression to somewhere outside only
  if the expression can match the empty text (`Expr.nullable_of_slides`);
* **out of a block** — only by its exit or by its end (`Expr.slips_block`);
* **into a block** — only by its first instruction (`Site.Closed`), in any context
  (`Layer.closed_site`);
* **back into a block** — if every loop around it reads something in each round that comes through
  it, only by leaving all of its context (`Context.returns`).
-/

namespace RegexMachine

namespace Program

variable {p : Program} {a b stop : Nat}

/-- The program that accepts at `stop`. -/
def stopAt (p : Program) (stop : Nat) : Program where
  code := p.code.setIfInBounds stop .accept
  groups := p.groups
  valid :=
    { nonempty := by simpa using p.valid.nonempty
      groups_le := by simpa using p.valid.groups_le
      fits := by
        intro pc i hi
        rw [Array.getElem?_setIfInBounds] at hi
        split_ifs at hi
        · obtain rfl := Option.some.inj hi
          trivial
        · rw [Array.size_setIfInBounds]
          exact p.valid.fits pc i hi
      stops := by
        intro pc i hi hpc
        rw [Array.getElem?_setIfInBounds] at hi
        split_ifs at hi
        · obtain rfl := Option.some.inj hi
          rfl
        · rw [Array.size_setIfInBounds] at hpc
          exact p.valid.stops pc i hi hpc }

theorem code_stopAt_self (h : stop < p.size) : (p.stopAt stop).code[stop]? = some .accept := by
  have h' : stop < p.code.size := h
  rw [stopAt, Array.getElem?_setIfInBounds, if_pos rfl, if_pos h']

theorem code_stopAt_of_ne (h : a ≠ stop) : (p.stopAt stop).code[a]? = p.code[a]? := by
  rw [stopAt, Array.getElem?_setIfInBounds, if_neg h.symm]

theorem Holds.stopAt {code : List (Instruction Nat)} (h : p.Holds a code)
    (hstop : stop < a ∨ a + code.length ≤ stop) : (p.stopAt stop).Holds a code := by
  induction code generalizing a with
  | nil => trivial
  | cons i code ih =>
    rw [List.length_cons] at hstop
    rw [holds_cons, code_stopAt_of_ne (by omega)]
    exact ⟨h.1, ih h.2 (by omega)⟩

/-- A slip is a move at any offset. -/
theorem Slips.exists_step (h : p.Slips a b) (subject : String) (offset : Nat) :
    ∃ choice, p.Step subject ⟨a, offset⟩ ⟨choice, ⟨b, offset⟩⟩ := by
  cases h with
  | jump hi => exact ⟨none, .jump hi⟩
  | first hi => exact ⟨some .first, .first hi⟩
  | second hi => exact ⟨some .second, .second hi⟩
  | save hi => exact ⟨none, .save hi⟩
  | nop hi => exact ⟨none, .nop hi⟩

theorem Slides.exists_accepts (h : p.Slides a stop) (hstop : stop < p.size) (subject : String)
    (offset : Nat) : ∃ r, (p.stopAt stop).Accepts subject ⟨a, offset⟩ r := by
  induction h using Relation.ReflTransGen.head_induction_on with
  | refl => exact ⟨[], accepts_nil.mpr (code_stopAt_self hstop)⟩
  | @head a b hslip _ ih =>
    by_cases ha : a = stop
    · subst ha
      exact ⟨[], accepts_nil.mpr (code_stopAt_self hstop)⟩
    · obtain ⟨r, hr⟩ := ih
      obtain ⟨choice, hm⟩ := hslip.exists_step subject offset
      exact ⟨_ :: r, accepts_cons.mpr ⟨hm.congr (code_stopAt_of_ne ha), hr⟩⟩

/-- Whoever slides out of a region of the program that can only be left through gates comes through
one of them. -/
theorem Slides.exists_gate {low high : Nat} {Gate : Nat → Prop} (h : p.Slides a b)
    (ha : low ≤ a ∧ a < high ∨ Gate a) (hb : ¬ (low ≤ b ∧ b < high))
    (hleave : ∀ x y, low ≤ x → x < high → p.Slips x y → low ≤ y ∧ y < high ∨ Gate y) :
    ∃ y, Gate y ∧ p.Slides y b := by
  induction h using Relation.ReflTransGen.head_induction_on with
  | refl => exact ⟨b, ha.resolve_left hb, .refl⟩
  | head hslip hslides ih =>
    rcases ha with ha | ha
    · exact ih (hleave _ _ ha.1 ha.2 hslip)
    · exact ⟨_, ha, .head hslip hslides⟩

theorem Holds.exists_getElem? {code : List (Instruction Nat)} (h : p.Holds a code)
    (hle : a ≤ b) (hlt : b < a + code.length) : ∃ i ∈ code, p.code[b]? = some i := by
  induction code generalizing a with
  | nil =>
    rw [List.length_nil] at hlt
    omega
  | cons i code ih =>
    rw [List.length_cons] at hlt
    rcases Nat.eq_or_lt_of_le hle with rfl | hle
    · exact ⟨i, List.mem_cons_self, h.1⟩
    · obtain ⟨j, hj, hcode⟩ := ih h.2 hle (by omega)
      exact ⟨j, List.mem_cons_of_mem _ hj, hcode⟩

theorem Slips.lt_size (h : p.Slips a b) : a < p.size := by
  cases h <;> exact lt_size_of_getElem? ‹_›

/-- Control slips to a target or to the next instruction. -/
theorem Slips.eq_succ_or_mem_targets {i : Instruction Nat} (h : p.Slips a b)
    (hi : p.code[a]? = some i) : b = a + 1 ∨ b ∈ i.targets := by
  cases h with
  | jump hi' | first hi' | second hi' =>
    obtain rfl := Option.some.inj (hi'.symm.trans hi)
    exact .inr (by simp [Instruction.targets])
  | save | nop => exact .inl rfl

theorem Slips.of_jump {target : Nat} (h : p.Slips a b) (hi : p.code[a]? = some (.jump target)) :
    b = target := by
  cases h <;> simp_all

theorem Slips.of_fork {greedy : Bool} {body exit : Nat} (h : p.Slips a b)
    (hi : p.code[a]? = some (.fork greedy body exit)) : b = body ∨ b = exit := by
  cases greedy <;> cases h <;> simp_all [Instruction.fork]

end Program

namespace Expr

variable {p : Program}

/-- **Through**: control slides from the beginning of the block of an expression to somewhere
outside only if the expression can match the empty text. -/
theorem nullable_of_slides {e : Expr} {entry exit stop : Nat}
    (h : p.Holds entry (e.block entry exit)) (hslides : p.Slides entry stop)
    (hstop : stop < entry ∨ entry + e.blockSize ≤ stop) (hsize : stop < p.size) :
    e.nullable = true := by
  obtain ⟨r, hr⟩ := hslides.exists_accepts hsize "" 0
  have hrecognizes : (p.stopAt stop).Recognizes "" e.language entry _ :=
    e.recognizes (h.stopAt (by rwa [length_block]))
  obtain ⟨w, back, s, t, hword, hw, -⟩ := hrecognizes.splits (List.nil_append []).symm hr
  obtain ⟨rfl, -⟩ := List.append_eq_nil_iff.mp hword.symm
  exact e.nullable_iff.mpr hw

theorem not_slides_through {e : Expr} {entry exit stop : Nat}
    (h : p.Holds entry (e.block entry exit)) (hreads : e.nullable = false)
    (hstop : stop < entry ∨ entry + e.blockSize ≤ stop) (hsize : stop < p.size) :
    ¬ p.Slides entry stop := by
  intro hslides
  rw [nullable_of_slides h hslides hstop hsize] at hreads
  cases hreads

/-- **Out**: control leaves a block for its exit or for its end. -/
theorem slips_block {e : Expr} {entry exit a b : Nat} (h : p.Holds entry (e.block entry exit))
    (hslip : p.Slips a b) (hle : entry ≤ a) (hlt : a < entry + e.blockSize) :
    b = exit ∨ entry ≤ b ∧ b ≤ entry + e.blockSize := by
  obtain ⟨i, hmem, hi⟩ := h.exists_getElem? hle (by rwa [length_block])
  rcases hslip.eq_succ_or_mem_targets hi with rfl | htarget
  · exact .inr ⟨by omega, by omega⟩
  · exact e.targets_block entry exit i hmem b htarget

/-! ## Around the place of a context -/

theorem Layer.site_bounds (l : Layer) (n : Nat) (s : Site) :
    s.entry ≤ (l.site n s).entry ∧ (l.site n s).entry + n ≤ s.entry + l.size n := by
  rcases l with ⟨before, after⟩ | other | other | ⟨_ | _ | _, greedy⟩ | ⟨_ | index⟩ <;>
    simp only [site, size] <;> omega

theorem Context.site_bounds (C : Context) (n : Nat) (s : Site) :
    s.entry ≤ (C.site n s).entry ∧ (C.site n s).entry + n ≤ s.entry + C.size n := by
  induction C generalizing s with
  | nil => exact ⟨Nat.le_refl _, Nat.le_refl _⟩
  | cons l C ih =>
    have hlayer := l.site_bounds (size n C) s
    have hplace := ih (l.site (size n C) s)
    simp only [site, size]
    omega

/-- The block inside is left for its end, for what is behind it, or for the exit of the layer. -/
theorem Layer.site_exit (l : Layer) (n : Nat) (s : Site) :
    (l.site n s).exit = s.exit ∨
      (l.site n s).entry + n ≤ (l.site n s).exit ∧ (l.site n s).exit ≤ s.entry + l.size n := by
  rcases l with ⟨before, after⟩ | other | other | ⟨_ | _ | _, greedy⟩ | ⟨_ | index⟩ <;>
    simp only [site, size, true_or]
  case part =>
    split_ifs
    · exact .inl rfl
    · omega
  all_goals omega

/-- A block of `n` instructions at a site is not left for one of its own instructions, and entered
only where it begins. -/
structure Site.Closed (p : Program) (s : Site) (n : Nat) : Prop where
  /-- the exit is behind the block -/
  behind : s.entry + n ≤ s.exit
  /-- from outside control comes to the first instruction -/
  entered : ∀ a b, p.Slips a b → ¬ (s.entry ≤ a ∧ a < s.entry + n) →
    s.entry ≤ b ∧ b < s.entry + n → b = s.entry

/-- Whoever slides into the block comes through its first instruction. -/
theorem Site.Closed.slides_entry {s : Site} {n a z : Nat} (h : s.Closed p n)
    (hslides : p.Slides z a)
    (hz : ¬ (s.entry ≤ z ∧ z < s.entry + n)) (ha : s.entry ≤ a ∧ a < s.entry + n) :
    p.Slides s.entry a := by
  induction hslides using Relation.ReflTransGen.head_induction_on with
  | refl => exact absurd ha hz
  | @head z z' hslip hslides ih =>
    by_cases hz' : s.entry ≤ z' ∧ z' < s.entry + n
    · obtain rfl := h.entered z z' hslip hz hz'
      exact hslides
    · exact ih hz'

/-- The layer leads from the end of what is inside back to its beginning. -/
def Layer.turns : Layer → Bool
  | body .star _ | body .plus _ => true
  | _ => false

/-- What the layer has before and behind the place can match the empty text. -/
def Layer.passes : Layer → Bool
  | part before after => allNullable before && allNullable after
  | _ => true

/-- Nothing needs to be read to come to the place and on from there. -/
def Context.passes (C : Context) : Bool := C.all Layer.passes

/-- Every loop around the place reads something in each round that comes through the place. -/
def Context.roundsRead : Context → Bool
  | [] => true
  | l :: C => !(l.turns && passes C) && roundsRead C

section

variable {l : Layer} {e : Expr} {s : Site} {a b y z : Nat}

/-- Before the block inside, a layer leads nowhere into it but to its beginning. -/
theorem Layer.slips_front (h : p.Holds s.entry ((l.fill e).block s.entry s.exit))
    (hexit : s.entry + l.size e.blockSize ≤ s.exit) (hslip : p.Slips a b) (hle : s.entry ≤ a)
    (hlt : a < (l.site e.blockSize s).entry) :
    s.entry ≤ b ∧ b ≤ (l.site e.blockSize s).entry ∨
      (l.site e.blockSize s).entry + e.blockSize ≤ b := by
  rcases l with ⟨before, after⟩ | other | other | ⟨_ | _ | _, greedy⟩ | ⟨_ | index⟩ <;>
    simp only [site, size] at hexit hlt ⊢
  case part =>
    have hlength := (concat before).length_block s.entry (s.entry + blockSizes before)
    rw [block, blockSize] at hlength
    rw [fill, block, blocks_append_cons, Program.holds_append] at h
    have hbefore := slips_block (e := concat before) h.1 hslip hle
    rw [blockSize] at hbefore
    have := hbefore hlt
    omega
  case first =>
    obtain ⟨hsplit, -⟩ := holds_alternation.mp h
    obtain rfl : a = s.entry := by omega
    have := hslip.eq_succ_or_mem_targets hsplit
    simp only [Instruction.targets, List.mem_cons, List.not_mem_nil, or_false] at this
    omega
  case second =>
    obtain ⟨hsplit, hother, hjump, -⟩ := holds_alternation.mp h
    by_cases hfirst : a = s.entry
    · subst hfirst
      have := hslip.eq_succ_or_mem_targets hsplit
      simp only [Instruction.targets, List.mem_cons, List.not_mem_nil, or_false] at this
      omega
    by_cases hlast : a = s.entry + 1 + other.blockSize
    · subst hlast
      have := hslip.of_jump hjump
      omega
    · have := slips_block hother hslip (by omega) (by omega)
      omega
  case body.star =>
    obtain ⟨hfork, -⟩ := holds_star.mp h
    obtain rfl : a = s.entry := by omega
    have := hslip.of_fork hfork
    omega
  case body.question =>
    obtain ⟨hfork, -⟩ := holds_question.mp h
    obtain rfl : a = s.entry := by omega
    have := hslip.of_fork hfork
    omega
  case inside.some =>
    obtain ⟨hopen, -⟩ := holds_group.mp h
    obtain rfl : a = s.entry := by omega
    rcases hslip.eq_succ_or_mem_targets hopen with rfl | htarget
    · omega
    · exact absurd htarget List.not_mem_nil
  all_goals omega

/-- Behind the block inside, a layer leads forwards, or back to its beginning if it is a loop. -/
theorem Layer.slips_rear (h : p.Holds s.entry ((l.fill e).block s.entry s.exit))
    (hslip : p.Slips a b) (hle : (l.site e.blockSize s).entry + e.blockSize ≤ a)
    (hlt : a < s.entry + l.size e.blockSize) :
    b = s.exit ∨ ((l.site e.blockSize s).entry + e.blockSize ≤ b ∧
      b ≤ s.entry + l.size e.blockSize) ∨ l.turns = true ∧ b = s.entry := by
  rcases l with ⟨before, after⟩ | other | other | ⟨_ | _ | _, greedy⟩ | ⟨_ | index⟩ <;>
    simp only [site, size] at hle hlt ⊢
  case part =>
    have hlength := (concat before).length_block s.entry (s.entry + blockSizes before)
    rw [block, blockSize] at hlength
    rw [fill, block, blocks_append_cons, Program.holds_append, hlength, holds_blocks_cons] at h
    have hbehind := slips_block (e := concat after) h.2.2 hslip hle
    rw [blockSize] at hbehind
    have := hbehind (by omega)
    omega
  case first =>
    obtain ⟨-, -, hjump, hother⟩ := holds_alternation.mp h
    rcases Nat.eq_or_lt_of_le hle with rfl | hle
    · exact .inl (hslip.of_jump hjump)
    · have := slips_block hother hslip (by omega) (by omega)
      omega
  case body.star =>
    obtain ⟨-, -, hjump⟩ := holds_star.mp h
    obtain rfl : a = s.entry + 1 + e.blockSize := by omega
    exact .inr (.inr ⟨rfl, hslip.of_jump hjump⟩)
  case body.plus =>
    obtain ⟨-, hfork⟩ := holds_plus.mp h
    obtain rfl : a = s.entry + e.blockSize := by omega
    exact (hslip.of_fork hfork).symm.imp_right fun hentry => .inr ⟨rfl, hentry⟩
  case inside.some =>
    obtain ⟨-, -, hclose⟩ := holds_group.mp h
    obtain rfl : a = s.entry + 1 + e.blockSize := by omega
    rcases hslip.eq_succ_or_mem_targets hclose with rfl | htarget
    · omega
    · exact absurd htarget List.not_mem_nil
  all_goals omega

/-- The block inside a layer is closed if that of the layer is. -/
theorem Layer.closed_site (hclosed : s.Closed p (l.size e.blockSize))
    (h : p.Holds s.entry ((l.fill e).block s.entry s.exit)) :
    (l.site e.blockSize s).Closed p e.blockSize := by
  have hbounds := l.site_bounds e.blockSize s
  have hbehind := hclosed.behind
  constructor
  · have := l.site_exit e.blockSize s
    omega
  · intro a b hslip ha hb
    by_cases hlayer : s.entry ≤ a ∧ a < s.entry + l.size e.blockSize
    · by_cases hlt : a < (l.site e.blockSize s).entry
      · have := slips_front h hbehind hslip hlayer.1 hlt
        omega
      · have := slips_rear h hslip (by omega) hlayer.2
        omega
    · have := hclosed.entered a b hslip hlayer (by omega)
      omega

/-- Behind the block inside a layer that is no loop, control goes on until it leaves the layer. -/
theorem Layer.leaves (h : p.Holds s.entry ((l.fill e).block s.entry s.exit))
    (hturns : l.turns = false) (hlt : a < (l.site e.blockSize s).entry + e.blockSize)
    (hy : y = (l.site e.blockSize s).exit ∨ y = (l.site e.blockSize s).entry + e.blockSize)
    (hback : p.Slides y a) :
    ∃ z, (z = s.exit ∨ z = s.entry + l.size e.blockSize) ∧ p.Slides z a := by
  have hbounds := l.site_bounds e.blockSize s
  have hexit := l.site_exit e.blockSize s
  have hleave : ∀ u v, (l.site e.blockSize s).entry + e.blockSize ≤ u →
      u < s.entry + l.size e.blockSize → p.Slips u v →
      ((l.site e.blockSize s).entry + e.blockSize ≤ v ∧ v < s.entry + l.size e.blockSize) ∨
        (v = s.exit ∨ v = s.entry + l.size e.blockSize) := by
    intro u v hle hlt hslip
    rcases slips_rear h hslip hle hlt with hv | hv | ⟨hloop, -⟩
    · omega
    · omega
    · rw [hturns] at hloop
      cases hloop
  exact hback.exists_gate (by omega) (by omega) hleave

/-- Control that slides from the end of the block inside a layer back into it, by way of an end of
the layer, reads nothing in what the layer has behind the block and before it. -/
theorem Layer.passes_of_slides (hclosed : s.Closed p (l.size e.blockSize))
    (h : p.Holds s.entry ((l.fill e).block s.entry s.exit))
    (hle : (l.site e.blockSize s).entry ≤ a) (hlt : a < (l.site e.blockSize s).entry + e.blockSize)
    (hsize : a < p.size)
    (hy : y = (l.site e.blockSize s).exit ∨ y = (l.site e.blockSize s).entry + e.blockSize)
    (hz : z = s.exit ∨ z = s.entry + l.size e.blockSize) (hbehind : p.Slides y a)
    (hback : p.Slides z a) : l.passes = true := by
  have hbounds := l.site_bounds e.blockSize s
  have hexit := hclosed.behind
  have hbefore := hclosed.slides_entry hback (by omega) (by omega)
  rcases l with ⟨before, after⟩ | other | other | ⟨q, greedy⟩ | capture
  case part =>
    simp only [site] at hle hlt hy
    have hlength := (concat before).length_block s.entry (s.entry + blockSizes before)
    rw [block, blockSize] at hlength
    rw [fill, block, blocks_append_cons, Program.holds_append, hlength, holds_blocks_cons] at h
    obtain ⟨hfront, -, hrear⟩ := h
    rw [passes, Bool.and_eq_true]
    constructor
    · exact nullable_of_slides (e := concat before) hfront hbefore (.inr hle) hsize
    · cases after with
      | nil => rfl
      | cons e' es =>
        obtain rfl : y = s.entry + blockSizes before + e.blockSize := by simpa using hy
        exact nullable_of_slides (e := concat (e' :: es)) hrear hbehind (.inl hlt) hsize
  all_goals rfl

end

/-- **Back**: if every loop around the place of a context reads something in the rounds that come
through the place, control slides from the exit of the block there back into it only by leaving the
block of the whole. Then nothing that is beside the place needs to be read. -/
theorem Context.returns {C : Context} {e : Expr} {s : Site} {a : Nat}
    (hclosed : s.Closed p (C.fill e).blockSize)
    (h : p.Holds s.entry ((C.fill e).block s.entry s.exit)) (hreads : C.roundsRead = true)
    (hle : (C.site e.blockSize s).entry ≤ a) (hlt : a < (C.site e.blockSize s).entry + e.blockSize)
    (hback : p.Slides (C.site e.blockSize s).exit a) :
    C.passes = true ∧ ∃ y, (y = s.exit ∨ y = s.entry + (C.fill e).blockSize) ∧ p.Slides y a := by
  induction C generalizing s with
  | nil => exact ⟨rfl, s.exit, .inl rfl, hback⟩
  | cons l C ih =>
    rw [roundsRead, Bool.and_eq_true, Bool.not_eq_true'] at hreads
    obtain ⟨hlayer, hinner⟩ := hreads
    rw [fill_cons, l.blockSize_fill] at hclosed ⊢
    rw [site, ← blockSize_fill C e] at hle hlt hback
    have hholds := Layer.holds_fill h
    have hbounds := site_bounds C e.blockSize (l.site (fill C e).blockSize s)
    rw [← blockSize_fill C e] at hbounds
    obtain ⟨hpasses, y, hy, hfrom⟩ := ih (Layer.closed_site hclosed h) hholds hinner hle hlt hback
    have hturns : l.turns = false := by simpa [hpasses] using hlayer
    obtain ⟨z, hz, hfromz⟩ := Layer.leaves h hturns (a := a) (by omega) hy hfrom
    obtain ⟨i, -, hi⟩ := hholds.exists_getElem? (b := a) (by omega) (by rw [length_block]; omega)
    have hpass := Layer.passes_of_slides hclosed h (by omega) (by omega)
      (Program.lt_size_of_getElem? hi) hy hz hfrom hfromz
    refine ⟨?_, z, hz, hfromz⟩
    rw [passes, List.all_cons, hpass]
    exact hpasses

end Expr

end RegexMachine
