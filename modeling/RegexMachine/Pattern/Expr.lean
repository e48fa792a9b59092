import RegexMachine.Pattern.Token

/-!
# Regular expressions

The tree that a pattern stands for. It may have more shapes than patterns can write: nested
concatenations, empty alternatives, any indices on groups.
-/

namespace RegexMachine

/-- A regular expression. -/
inductive Expr where
  /-- one character -/
  | literal (c : Char)
  /-- the parts one after the other; no parts match the empty text -/
  | concat (parts : List Expr)
  /-- either of two, the first one preferred -/
  | alternation (first second : Expr)
  /-- the body as often as the quantifier says; a greedy repetition prefers more rounds, a lazy
  one fewer -/
  | repetition (q : Quantifier) (greedy : Bool) (body : Expr)
  /-- a group, which captures if it has an index -/
  | group (capture : Option Nat) (body : Expr)

namespace Expr

instance : Inhabited Expr := ⟨concat []⟩

@[simp] theorem sizeOf_pos (e : Expr) : 0 < sizeOf e := by
  cases e <;> simp +arith

/-- Induction over a tree; for a concatenation the statement is known of all parts. -/
@[elab_as_elim, induction_eliminator]
theorem induction {motive : Expr → Prop} (literal : ∀ c, motive (literal c))
    (concat : ∀ parts, (∀ e ∈ parts, motive e) → motive (concat parts))
    (alternation : ∀ first second, motive first → motive second →
      motive (alternation first second))
    (repetition : ∀ q greedy body, motive body → motive (repetition q greedy body))
    (group : ∀ capture body, motive body → motive (group capture body)) (e : Expr) : motive e := by
  apply Expr.rec (motive_1 := motive) (motive_2 := fun parts => ∀ e ∈ parts, motive e)
  · exact literal
  · exact concat
  · exact alternation
  · exact repetition
  · exact group
  · exact fun e he => absurd he List.not_mem_nil
  · intro head tail hhead htail e he
    rcases List.mem_cons.mp he with rfl | he
    · exact hhead
    · exact htail e he

mutual

/-- Number of capturing groups in the tree. -/
def captureCount : Expr → Nat
  | literal _ => 0
  | concat parts => captureCounts parts
  | alternation first second => first.captureCount + second.captureCount
  | repetition _ _ body => body.captureCount
  | group capture body => (if capture.isSome then 1 else 0) + body.captureCount

/-- Number of capturing groups in all of the trees. -/
def captureCounts : List Expr → Nat
  | [] => 0
  | e :: es => e.captureCount + captureCounts es

end

end Expr

end RegexMachine
