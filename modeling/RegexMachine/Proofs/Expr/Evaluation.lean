import RegexMachine.Proofs.Assembly.Resolve
import RegexMachine.Proofs.Run.Guarded

/-!
# Evaluating programs

What the program of an expression finds in a given subject can be worked out by plain computation.
Neither the assembly nor the machine is made for that, since they end for reasons that have to be
proved. But the listing of an expression is a recursion over the tree, and the guarded machine
counts its rounds down; so `Expr.evaluate` puts these two together, and it comes to the same result
(`Expr.evaluate_eq`).
-/

namespace RegexMachine.Expr

variable {e : Expr} {subject : String}

/-- The slots that the program of an expression finds in a subject, if there is a program and it
finds something. -/
def evaluate (e : Expr) (subject : String) : Option (Option Slots) :=
  (Program.ofCode e.listing.toArray e.maxIndex).toOption.bind fun p =>
    ((Machine.ofProgram p).guardedCaptures (2 * p.size + subject.length + 1) subject).toOption.map
      fun (found, _) => found.map Captures.slots

theorem evaluate_eq (e : Expr) (subject : String) :
    e.evaluate subject = e.program.toOption.map fun p =>
      ((Machine.ofProgram p).captures subject).1.map Captures.slots := by
  rw [evaluate, ← program_eq, Option.map_eq_bind]
  refine congrArg _ (funext fun p => ?_)
  obtain ⟨hguarded, -⟩ := (Machine.fits_ofProgram p).guardedCaptures subject (Nat.le_refl _)
  rw [Machine.program_ofProgram] at hguarded
  rw [hguarded]
  rfl

theorem captures_of_evaluate {found : Option Slots} (h : e.evaluate subject = some found) :
    ∃ p, e.program = .ok p ∧
      ((Machine.ofProgram p).captures subject).1 = found.map (⟨subject, ·⟩) := by
  rw [evaluate_eq] at h
  cases hprogram : e.program with
  | error fault =>
    rw [hprogram] at h
    cases h
  | ok p =>
    rw [hprogram] at h
    obtain rfl := Option.some.inj h
    refine ⟨p, rfl, ?_⟩
    simp only [Machine.captures_fst, Option.map_map]
    rfl

end RegexMachine.Expr
