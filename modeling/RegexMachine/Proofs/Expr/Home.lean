import RegexMachine.Proofs.Expr.Sliding

/-!
# The program around a place

In the program of an expression, the code around the place of a context does not depend on what
fills the place, but for its size (`exists_code_program`). Control comes into the program only where
it begins (`closed_program`), and so into every block of it.
-/

namespace RegexMachine

namespace Expr

variable {p q : Program} {e f : Expr}

theorem exists_program_iff (e : Expr) :
    (∃ p, e.program = .ok p) ↔ e.maxIndex ≤ e.blockSize + 3 := by
  constructor
  · rintro ⟨p, hp⟩
    rw [program_eq] at hp
    obtain ⟨hcode, hgroups⟩ := Program.ofCode_eq_ok hp
    have hle := p.valid.groups_le
    rwa [hcode, hgroups, List.size_toArray, length_listing] at hle
  · intro hle
    obtain ⟨p, hp, -⟩ := program_eq_ok hle
    exact ⟨p, hp⟩

/-- The layers around the place of a context in the whole program, which notes the ends of the match
like those of a group. -/
def Context.whole (C : Context) : Context := .inside (some 0) :: C

/-- The site of the whole program, if the place of a context has a block of `n` instructions. -/
def Context.program (C : Context) (n : Nat) : Site := ⟨0, C.whole.size n⟩

/-- Where the block in the place of a context stands in the whole program. -/
def Context.home (C : Context) (n : Nat) : Site := C.whole.site n (C.program n)

/-- The code of a program is the block of the whole, and accepts behind it. -/
theorem code_program {C : Context} {e : Expr} (h : (C.fill e).program = .ok p) :
    p.code.toList = (C.whole.fill e).block 0 (C.program e.blockSize).exit ++ [.accept] := by
  rw [program_eq] at h
  obtain ⟨hcode, -⟩ := Program.ofCode_eq_ok h
  rw [hcode, List.toList_toArray, listing_eq]
  rfl

theorem holds_program {C : Context} {e : Expr} (h : (C.fill e).program = .ok p) :
    p.Holds 0 ((C.whole.fill e).block 0 (C.program e.blockSize).exit) ∧
      p.code[(C.program e.blockSize).exit]? = some .accept := by
  have hall : p.Holds 0 ((C.whole.fill e).block 0 (C.program e.blockSize).exit ++ [.accept]) :=
    Program.holds_of_append [] _ (code_program h)
  rw [Program.holds_append, length_block, C.whole.blockSize_fill, Nat.zero_add] at hall
  exact ⟨hall.1, hall.2.1⟩

/-- Control does not come into the block of the whole program: behind it there is only the end. -/
theorem closed_program {C : Context} {e : Expr} (h : (C.fill e).program = .ok p) :
    (C.program e.blockSize).Closed p (C.whole.fill e).blockSize := by
  have hsize : p.size = (C.program e.blockSize).exit + 1 := by
    rw [Program.size, ← Array.length_toList, code_program h, List.length_append, length_block,
      C.whole.blockSize_fill]
    rfl
  rw [C.whole.blockSize_fill]
  constructor
  · rw [Context.program, Nat.zero_add]
  · intro a b hslip ha
    have haccept := (holds_program h).2
    have hlt := hslip.lt_size
    obtain rfl : a = (C.program e.blockSize).exit := by
      simp only [Context.program] at ha hsize ⊢
      omega
    cases hslip <;> simp_all

/-- The code around the block in the place of a context. -/
theorem exists_code_program (C : Context) (n : Nat) :
    ∃ front rear, front.length = (C.home n).entry ∧
      ∀ (e : Expr) (p : Program), e.blockSize = n → (C.fill e).program = .ok p →
        p.code.toList = front ++ e.block (C.home n).entry (C.home n).exit ++ rear := by
  obtain ⟨front, rear, hentry, hfill⟩ := C.whole.exists_frame n (C.program n)
  refine ⟨front, rear ++ [.accept], (Nat.zero_add _).symm.trans hentry, ?_⟩
  rintro e p rfl h
  rw [code_program h, ← List.append_assoc]
  exact congrArg (· ++ [.accept]) (hfill e rfl)

/-- The size of what fills the place decides about the size of the program. -/
theorem size_program {e : Expr} (h : e.program = .ok p) : p.size = e.blockSize + 3 := by
  rw [program_eq] at h
  rw [Program.size, (Program.ofCode_eq_ok h).1, List.size_toArray, length_listing]

theorem size_eq_of_blockSize_eq (hsize : e.blockSize = f.blockSize) (hp : e.program = .ok p)
    (hq : f.program = .ok q) : q.size = p.size := by
  rw [size_program hp, size_program hq, hsize]

theorem groups_eq_of_indices_eq {C : Context} (hindices : e.indices = f.indices)
    (hp : (C.fill e).program = .ok p) (hq : (C.fill f).program = .ok q) : q.groups = p.groups := by
  rw [(placedIn hp).groups, (placedIn hq).groups]
  exact (maxIndex_fill_congr C hindices).symm

/-- What fills the place with the same block makes the same program. -/
theorem program_eq_of_block_eq {C : Context} (hsize : e.blockSize = f.blockSize)
    (hindices : e.indices = f.indices)
    (hblock : f.block (C.home e.blockSize).entry (C.home e.blockSize).exit =
      e.block (C.home e.blockSize).entry (C.home e.blockSize).exit)
    (hp : (C.fill e).program = .ok p) (hq : (C.fill f).program = .ok q) : q = p := by
  obtain ⟨front, rear, -, hcode⟩ := exists_code_program C e.blockSize
  have hsame : q.code.toList = p.code.toList := by
    rw [hcode e p rfl hp, hcode f q hsize.symm hq, hblock]
  have hgroups := groups_eq_of_indices_eq hindices hp hq
  obtain ⟨code, groups, _⟩ := p
  obtain ⟨code', groups', _⟩ := q
  obtain rfl : code' = code := Array.toList_inj.mp hsame
  obtain rfl : groups' = groups := hgroups
  rfl

/-- Programs that differ in one place have the same code outside of it. -/
theorem code_outside {C : Context} {e f : Expr} {pc : Nat} (hsize : f.blockSize = e.blockSize)
    (hp : (C.fill e).program = .ok p) (hq : (C.fill f).program = .ok q)
    (hpc : ¬ ((C.home e.blockSize).entry ≤ pc ∧ pc < (C.home e.blockSize).entry + e.blockSize)) :
    q.code[pc]? = p.code[pc]? := by
  obtain ⟨front, rear, hlength, hcode⟩ := exists_code_program C e.blockSize
  rw [← Array.getElem?_toList, ← Array.getElem?_toList, hcode e p rfl hp, hcode f q hsize hq]
  rcases Nat.lt_or_ge pc front.length with hlt | hge
  · rw [List.append_assoc, List.append_assoc, List.getElem?_append_left hlt,
      List.getElem?_append_left hlt]
  · have hbehind : front.length + e.blockSize ≤ pc := by omega
    rw [List.getElem?_append_right, List.getElem?_append_right, List.length_append,
      List.length_append, length_block, length_block, hsize]
    · rwa [List.length_append, length_block]
    · rwa [List.length_append, length_block, hsize]

theorem Context.holds_fill {C : Context} {e : Expr} {s : Site}
    (h : p.Holds s.entry ((C.fill e).block s.entry s.exit)) :
    p.Holds (C.site e.blockSize s).entry
      (e.block (C.site e.blockSize s).entry (C.site e.blockSize s).exit) := by
  obtain ⟨front, rear, hlength, hblock⟩ := C.exists_frame e.blockSize s
  rw [hblock e rfl, List.append_assoc, Program.holds_append, Program.holds_append, hlength] at h
  exact h.2.1

/-- What fills the place of a context stands where it should. -/
theorem holds_home {C : Context} {e : Expr} (h : (C.fill e).program = .ok p) :
    p.Holds (C.home e.blockSize).entry
      (e.block (C.home e.blockSize).entry (C.home e.blockSize).exit) :=
  C.whole.holds_fill (holds_program h).1

/-! ## Out of the block and into it -/

/-- The block in the place of a context is closed if that of the whole is. -/
theorem Context.closed_site {C : Context} {e : Expr} {s : Site}
    (hclosed : s.Closed p (C.fill e).blockSize)
    (h : p.Holds s.entry ((C.fill e).block s.entry s.exit)) :
    (C.site e.blockSize s).Closed p e.blockSize := by
  induction C generalizing s with
  | nil => exact hclosed
  | cons l C ih =>
    rw [fill_cons, l.blockSize_fill] at hclosed
    rw [site, ← blockSize_fill C e]
    exact ih (Layer.closed_site hclosed h) (Layer.holds_fill h)

/-- Control that comes to the end of a block goes to the exit of the block. -/
def Site.Ends (p : Program) (s : Site) (n : Nat) : Prop :=
  s.exit = s.entry + n ∨ p.code[s.entry + n]? = some (.jump s.exit)

theorem Layer.ends_site {l : Layer} {e : Expr} {s : Site} (hends : s.Ends p (l.size e.blockSize))
    (h : p.Holds s.entry ((l.fill e).block s.entry s.exit)) :
    (l.site e.blockSize s).Ends p e.blockSize := by
  rcases l with ⟨before, after⟩ | other | other | ⟨_ | _ | _, greedy⟩ | ⟨_ | index⟩ <;>
    simp only [site, size, Site.Ends] at hends ⊢
  case part =>
    cases after with
    | nil => simpa [blockSizes, Nat.add_assoc] using hends
    | cons e' es => exact .inl rfl
  case first =>
    obtain ⟨-, -, hjump, -⟩ := holds_alternation.mp h
    exact .inr hjump
  case second =>
    have hsame : s.entry + other.blockSize + 2 + e.blockSize =
        s.entry + (other.blockSize + e.blockSize + 2) := by omega
    rwa [hsame]
  case body.question =>
    have hsame : s.entry + 1 + e.blockSize = s.entry + (e.blockSize + 1) := by omega
    rwa [hsame]
  case inside.none => exact hends
  all_goals exact .inl trivial

theorem Context.ends_site {C : Context} {e : Expr} {s : Site}
    (hends : s.Ends p (C.fill e).blockSize)
    (h : p.Holds s.entry ((C.fill e).block s.entry s.exit)) :
    (C.site e.blockSize s).Ends p e.blockSize := by
  induction C generalizing s with
  | nil => exact hends
  | cons l C ih =>
    rw [fill_cons, l.blockSize_fill] at hends
    rw [site, ← blockSize_fill C e]
    exact ih (Layer.ends_site hends h) (Layer.holds_fill h)

/-- The instructions around a closed block do not go on behind its first instruction. -/
theorem Site.Closed.goes_around {s : Site} {n a : Nat} {i : Instruction Nat} (h : s.Closed p n)
    (hi : p.code[a]? = some i) (ha : ¬ (s.entry ≤ a ∧ a < s.entry + n)) :
    (∀ t ∈ i.targets, ¬ (s.entry < t ∧ t < s.entry + n)) ∧
      (i.fallsThrough = true → ¬ (s.entry < a + 1 ∧ a + 1 < s.entry + n)) := by
  constructor
  · intro t ht hinside
    have hslip : p.Slips a t := by
      cases i <;> simp only [Instruction.targets, List.mem_cons, List.not_mem_nil, or_false] at ht
      case jump => exact ht ▸ .jump hi
      case split =>
        rcases ht with rfl | rfl
        · exact .first hi
        · exact .second hi
    have := h.entered a t hslip ha ⟨Nat.le_of_lt hinside.1, hinside.2⟩
    omega
  · intro _
    omega

section

variable {C : Context} {e : Expr} (h : (C.fill e).program = .ok p)

include h

/-- **Into**: control comes into a block of a program only where the block begins. -/
theorem closed_home : (C.home e.blockSize).Closed p e.blockSize :=
  C.whole.closed_site (closed_program h) (holds_program h).1

/-- **Out**: at the end of a block of a program, control goes to the exit of the block. -/
theorem ends_home : (C.home e.blockSize).Ends p e.blockSize := by
  refine C.whole.ends_site (.inl ?_) (holds_program h).1
  rw [C.whole.blockSize_fill, Context.program, Nat.zero_add]

end

end Expr

end RegexMachine
