import RegexMachine.Proofs.Expr.Evaluation
import RegexMachine.Proofs.Expr.Home

/-!
# Stars and optional pluses

`e*` and `(?:e+)?` stand for the same texts, and their blocks have the same size. They differ in one
instruction: where the star jumps back to its split, the other form splits once more. So in every
context both build or neither does, and both match or neither does.

But a thread that comes to that place without having read anything since the split finds it visited
in the first form, and in the second one a split of its own. Which parts of the subject are reported
is the same only if this does not happen on the way that is preferred:

* **greedy** — it happens inside of `e`, which must not match the empty text;
* **lazy** — it happens outside, in a loop around the form, which must have something to read in
  each round that comes through the form.
-/

namespace RegexMachine

namespace Expr

/-- The other way to write a star. -/
def optionalPlus (greedy : Bool) (e : Expr) : Expr :=
  repetition .question greedy (repetition .plus greedy e)

variable {p q : Program}

/-! ## Building -/

theorem blockSize_optionalPlus (greedy : Bool) (e : Expr) :
    (optionalPlus greedy e).blockSize = e.blockSize + 2 := rfl

/-- **Building**: in any context both forms build or neither does. -/
theorem exists_program_optionalPlus (C : Context) (e : Expr) (greedy : Bool) :
    (∃ p, (C.fill (repetition .star greedy e)).program = .ok p) ↔
      ∃ q, (C.fill (optionalPlus greedy e)).program = .ok q := by
  have hsize : (repetition .star greedy e).blockSize = (optionalPlus greedy e).blockSize := rfl
  have hindices : (repetition .star greedy e).indices = (optionalPlus greedy e).indices := rfl
  rw [exists_program_iff, exists_program_iff, C.blockSize_fill, C.blockSize_fill, hsize,
    maxIndex_fill_congr C hindices]

/-! ## The two programs -/

/-- The instructions of a star up to its jump, which are those of the other form up to its second
split. -/
def beforeJump (greedy : Bool) (e : Expr) (s : Site) : List (Instruction Nat) :=
  .fork greedy (s.entry + 1) s.exit :: e.block (s.entry + 1) (s.entry + 1 + e.blockSize)

theorem block_star (greedy : Bool) (e : Expr) (s : Site) :
    (repetition .star greedy e).block s.entry s.exit =
      beforeJump greedy e s ++ [.jump s.entry] := rfl

theorem block_optionalPlus (greedy : Bool) (e : Expr) (s : Site) :
    (optionalPlus greedy e).block s.entry s.exit =
      beforeJump greedy e s ++ [.fork greedy (s.entry + 1) s.exit] := rfl

/-- The target that a repetition prefers, and then the other one. -/
theorem fork_eq_split (greedy : Bool) (body exit : Nat) :
    Instruction.fork greedy body exit =
      .split (if greedy then body else exit) (if greedy then exit else body) := by
  cases greedy <;> rfl

section

variable {C : Context} {e : Expr} {greedy : Bool} {home : Site}
  (hhome : C.home (e.blockSize + 2) = home)

include hhome

/-- **Difference**: the two programs differ only where the star jumps back to its split. -/
theorem bypass_optionalPlus (hp : (C.fill (repetition .star greedy e)).program = .ok p)
    (hq : (C.fill (optionalPlus greedy e)).program = .ok q) :
    p.Bypass q (home.entry + 1 + e.blockSize) home.entry
      (if greedy then home.entry + 1 else home.exit)
      (if greedy then home.exit else home.entry + 1) := by
  obtain ⟨front, rear, hlength, hcode⟩ := exists_code_program C (e.blockSize + 2)
  have hstar := hcode _ p rfl hp
  have hplus := hcode _ q rfl hq
  rw [hhome] at hlength hstar hplus
  rw [block_star, ← List.append_assoc, List.append_assoc, List.singleton_append] at hstar
  rw [block_optionalPlus, fork_eq_split, ← List.append_assoc, List.append_assoc,
    List.singleton_append] at hplus
  have hback : (front ++ beforeJump greedy e home).length = home.entry + 1 + e.blockSize := by
    rw [List.length_append, hlength, beforeJump, List.length_cons, length_block]
    omega
  have hfork : (front ++ beforeJump greedy e home)[home.entry]? =
      some (.split (if greedy then home.entry + 1 else home.exit)
        (if greedy then home.exit else home.entry + 1)) := by
    rw [← hlength, List.getElem?_append_right (Nat.le_refl _), Nat.sub_self, hlength,
      ← fork_eq_split]
    rfl
  have hgroups : q.groups = p.groups := by
    rw [(placedIn hp).groups, (placedIn hq).groups]
    exact maxIndex_fill_congr C rfl
  rw [← hback]
  exact .of_code hstar hplus hfork hgroups

/-- **Greedy**: control does not slide through a body that cannot match the empty text. -/
theorem not_slides_of_greedy (hq : (C.fill (optionalPlus greedy e)).program = .ok q)
    (hreads : e.nullable = false) :
    ¬ q.Slides (home.entry + 1) home.entry ∧
      ¬ q.Slides (home.entry + 1) (home.entry + 1 + e.blockSize) := by
  have hholds := holds_home hq
  rw [blockSize_optionalPlus, hhome] at hholds
  obtain ⟨hfork, hplus⟩ := holds_question.mp hholds
  obtain ⟨hbody, hcopy⟩ := holds_plus.mp hplus
  constructor
  · exact not_slides_through hbody hreads (.inl (Nat.lt_succ_self _))
      (Program.lt_size_of_getElem? hfork)
  · exact not_slides_through hbody hreads (.inr (Nat.le_refl _))
      (Program.lt_size_of_getElem? hcopy)

/-- **Lazy**: control does not slide back into the form if the loops around it read. -/
theorem not_slides_of_lazy (hq : (C.fill (optionalPlus greedy e)).program = .ok q)
    (hreads : C.roundsRead = true) {a : Nat} (hle : home.entry ≤ a)
    (hlt : a < home.entry + (e.blockSize + 2)) : ¬ q.Slides home.exit a := by
  intro hback
  obtain ⟨hholds, haccept⟩ := holds_program hq
  have hclosed := closed_program hq
  rw [blockSize_optionalPlus] at hholds haccept hclosed
  obtain rfl := hhome
  obtain ⟨-, y, hy, hslides⟩ := Context.returns hclosed hholds
    (by simpa [Context.whole, Context.roundsRead, Layer.turns] using hreads) hle hlt hback
  obtain rfl : y = (C.program (e.blockSize + 2)).exit := by
    rw [C.whole.blockSize_fill, blockSize_optionalPlus] at hy
    simp only [Context.program] at hy ⊢
    omega
  -- the program ends there
  rcases hslides.cases_head with heq | ⟨b, hslip, -⟩
  · have hbounds := C.whole.site_bounds (e.blockSize + 2) (C.program (e.blockSize + 2))
    simp only [Context.program] at heq hbounds
    rw [Context.home, Context.program] at hlt
    omega
  · cases hslip <;> simp_all

end

/-- **Optional pluses**: in any context, both ways to write a star build or neither does, and both
find something or neither does. They find the same if the star is greedy and its body does not match
the empty text, or if it is lazy and each loop around it reads something beside it in every round
that comes through it. -/
theorem captures_optionalPlus (C : Context) (e : Expr) (greedy : Bool) :
    ((∃ p, (C.fill (repetition .star greedy e)).program = .ok p) ↔
      ∃ q, (C.fill (repetition .question greedy (repetition .plus greedy e))).program = .ok q) ∧
    ∀ p q subject, (C.fill (repetition .star greedy e)).program = .ok p →
      (C.fill (repetition .question greedy (repetition .plus greedy e))).program = .ok q →
      ((Machine.ofProgram p).captures subject).1.isSome =
        ((Machine.ofProgram q).captures subject).1.isSome ∧
      ((greedy = true ∧ e.nullable = false ∨ greedy = false ∧ C.roundsRead = true) →
        ((Machine.ofProgram p).captures subject).1 =
          ((Machine.ofProgram q).captures subject).1) := by
  refine ⟨exists_program_optionalPlus C e greedy, fun p q subject hp hq => ?_⟩
  have hbypass := bypass_optionalPlus rfl hp hq
  refine ⟨hbypass.isSome_captures subject, ?_⟩
  rintro (⟨rfl, hreads⟩ | ⟨rfl, hreads⟩)
  · obtain ⟨hfork, hback⟩ := not_slides_of_greedy rfl hq hreads
    exact hbypass.captures_eq hfork hback subject
  · refine hbypass.captures_eq ?_ ?_ subject
    · exact not_slides_of_lazy rfl hq hreads (by omega) (by omega)
    · exact not_slides_of_lazy rfl hq hreads (by omega) (by omega)

/-- A lazy star in a group, in rounds that read a letter behind it or nothing at all. -/
theorem captures_optionalPlus_in_rounds : ∃ p q,
    (repetition .star true (alternation (concat
      [group (some 1) (repetition .star false (literal 'a')), literal 'b'])
      (repetition .question true (literal 'c')))).program = .ok p ∧
    (repetition .star true (alternation (concat
      [group (some 1) (repetition .question false (repetition .plus false (literal 'a'))),
        literal 'b'])
      (repetition .question true (literal 'c')))).program = .ok q ∧
    ((Machine.ofProgram p).captures "aabcab").1 = ((Machine.ofProgram q).captures "aabcab").1 := by
  have hlaw := captures_optionalPlus [.body .star true,
    .first (repetition .question true (literal 'c')), .part [] [literal 'b'], .inside (some 1)]
    (literal 'a') false
  obtain ⟨p, hp⟩ := exists_program (e := repetition .star true (alternation (concat
    [group (some 1) (repetition .star false (literal 'a')), literal 'b'])
    (repetition .question true (literal 'c')))) (by decide)
  obtain ⟨q, hq⟩ := hlaw.1.mp ⟨p, hp⟩
  exact ⟨p, q, hp, hq, (hlaw.2 p q "aabcab" hp hq).2 (.inr ⟨rfl, by decide⟩)⟩

theorem exists_span {e : Expr} {subject : String} (slots : Slots) {span : Nat × Nat}
    (h : e.evaluate subject = some (some slots))
    (hspan : Captures.span ⟨subject, slots⟩ 0 = some span) :
    ∃ p, e.program = .ok p ∧
      (((Machine.ofProgram p).captures subject).1.bind fun c => c.span 0) = some span := by
  obtain ⟨p, hp, hcaptures⟩ := captures_of_evaluate h
  refine ⟨p, hp, ?_⟩
  rw [hcaptures]
  exact hspan

/-- Otherwise one may find more than the other: with a greedy star whose body prefers the empty text
the star finds more, with a lazy star in rounds that may be empty the other form. -/
theorem span_star_ne_span_optionalPlus :
    ((∃ p, (repetition .star true (repetition .question false (literal 'a'))).program = .ok p ∧
        (((Machine.ofProgram p).captures "a").1.bind fun c => c.span 0) = some (0, 1)) ∧
      ∃ q, (repetition .question true (repetition .plus true
          (repetition .question false (literal 'a')))).program = .ok q ∧
        (((Machine.ofProgram q).captures "a").1.bind fun c => c.span 0) = some (0, 0)) ∧
    (∃ p, (repetition .star true (repetition .star false (literal 'a'))).program = .ok p ∧
        (((Machine.ofProgram p).captures "aa").1.bind fun c => c.span 0) = some (0, 1)) ∧
      ∃ q, (repetition .star true (repetition .question false
          (repetition .plus false (literal 'a')))).program = .ok q ∧
        (((Machine.ofProgram q).captures "aa").1.bind fun c => c.span 0) = some (0, 2) := by
  refine ⟨⟨?_, ?_⟩, ?_, ?_⟩
  · exact exists_span #[some 0, some 1] (by decide +kernel) rfl
  · exact exists_span #[some 0, some 0] (by decide +kernel) rfl
  · exact exists_span #[some 0, some 1] (by decide +kernel) rfl
  · exact exists_span #[some 0, some 2] (by decide +kernel) rfl

end Expr

end RegexMachine
