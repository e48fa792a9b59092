import RegexMachine.Proofs.Expr.Groups

/-!
# Other numbers for the groups

A tree keeps its shape when its capturing groups get other indices. `Expr.shift n` makes room for
`n` groups before them, as they stand behind another pattern or inside another group.
-/

namespace RegexMachine

namespace Expr

mutual

/-- The tree with `f` of the index of each capturing group in place of the index. -/
def renumber (f : Nat → Nat) : Expr → Expr
  | literal c => literal c
  | concat parts => concat (renumberAll f parts)
  | alternation first second => alternation (first.renumber f) (second.renumber f)
  | repetition q greedy body => repetition q greedy (body.renumber f)
  | group capture body => group (capture.map f) (body.renumber f)

/-- The same for all of the trees. -/
def renumberAll (f : Nat → Nat) : List Expr → List Expr
  | [] => []
  | e :: es => e.renumber f :: renumberAll f es

end

/-- The tree with all indices increased by `n`. -/
def shift (n : Nat) (e : Expr) : Expr := e.renumber (n + ·)

variable {f : Nat → Nat}

theorem renumberAll_eq_map (parts : List Expr) : renumberAll f parts = parts.map (renumber f) := by
  induction parts with
  | nil => rfl
  | cons e es ih => rw [renumberAll, ih, List.map_cons]

theorem indices_renumberAll {parts : List Expr}
    (ih : ∀ e ∈ parts, (e.renumber f).indices = e.indices.map f) :
    (renumberAll f parts).flatMap indices = (parts.flatMap indices).map f := by
  rw [renumberAll_eq_map, List.flatMap_map, List.map_flatMap]
  exact List.flatMap_congr ih

@[simp] theorem indices_renumber (e : Expr) : (e.renumber f).indices = e.indices.map f := by
  induction e with
  | literal c => rfl
  | concat parts ih =>
    rw [renumber, indices_concat, indices_concat, indices_renumberAll ih]
  | alternation first second ih₁ ih₂ => simp [renumber, ih₁, ih₂]
  | repetition q greedy body ih => simp [renumber, ih]
  | group capture body ih => cases capture <;> simp [renumber, ih]

theorem nestings_renumberAll {parts : List Expr}
    (ih : ∀ e ∈ parts, (e.renumber f).nesting = e.nesting) :
    nestings (renumberAll f parts) = nestings parts := by
  induction parts with
  | nil => rfl
  | cons e es ihes =>
    rw [renumberAll, nestings, nestings, ih e List.mem_cons_self,
      ihes fun e he => ih e (List.mem_cons_of_mem _ he)]

@[simp] theorem nesting_renumber (e : Expr) : (e.renumber f).nesting = e.nesting := by
  induction e with
  | literal c => rfl
  | concat parts ih => exact nestings_renumberAll ih
  | alternation first second ih₁ ih₂ => rw [renumber, nesting, nesting, ih₁, ih₂]
  | repetition q greedy body ih => exact ih
  | group capture body ih => rw [renumber, nesting, nesting, ih]

@[simp] theorem nesting_shift (n : Nat) (e : Expr) : (e.shift n).nesting = e.nesting :=
  nesting_renumber e

/-- Groups that were numbered from one on are numbered from behind `n` on. -/
theorem indices_shift {e : Expr} (h : e.indices = List.range' 1 e.captureCount) (n : Nat) :
    (e.shift n).indices = List.range' (n + 1) e.captureCount := by
  rw [shift, indices_renumber, h, List.map_add_range']

end Expr

end RegexMachine
