import RegexMachine.Pattern.Expr
import Mathlib.Data.List.Flatten
import Mathlib.Data.List.Nodup

/-!
# The groups of an expression

The capturing groups of a tree in the order of their opening parentheses, which is also the order in
which a walk over the tree comes to them first, and how deep groups stand inside each other.
-/

namespace RegexMachine

namespace Expr

mutual

/-- The capturing groups of an expression, each with its index and what stands inside. -/
def bodies : Expr → List (Nat × Expr)
  | literal _ => []
  | concat parts => allBodies parts
  | alternation first second => first.bodies ++ second.bodies
  | repetition _ _ body => body.bodies
  | group (some index) body => (index, body) :: body.bodies
  | group none body => body.bodies

/-- The capturing groups of expressions one after the other. -/
def allBodies : List Expr → List (Nat × Expr)
  | [] => []
  | e :: es => e.bodies ++ allBodies es

end

/-- The indices of the capturing groups, in the order of their opening parentheses. -/
def indices (e : Expr) : List Nat := e.bodies.map Prod.fst

/-- What stands inside the group with this index. -/
def body? (e : Expr) (index : Nat) : Option Expr := e.bodies.lookup index

mutual

/-- How many groups stand inside each other, whether they capture or not. -/
def nesting : Expr → Nat
  | literal _ => 0
  | concat parts => nestings parts
  | alternation first second => max first.nesting second.nesting
  | repetition _ _ body => body.nesting
  | group _ body => body.nesting + 1

/-- How many groups stand inside each other in any of the expressions. -/
def nestings : List Expr → Nat
  | [] => 0
  | e :: es => max e.nesting (nestings es)

end

theorem allBodies_eq_flatMap (parts : List Expr) : allBodies parts = parts.flatMap bodies := by
  induction parts with
  | nil => rfl
  | cons e es ih => rw [allBodies, ih, List.flatMap_cons]

@[simp] theorem indices_literal (c : Char) : (literal c).indices = [] := rfl

@[simp] theorem indices_concat (parts : List Expr) :
    (concat parts).indices = parts.flatMap indices := by
  rw [indices, bodies, allBodies_eq_flatMap, List.map_flatMap]
  rfl

@[simp] theorem indices_alternation (first second : Expr) :
    (alternation first second).indices = first.indices ++ second.indices := by
  simp [indices, bodies]

@[simp] theorem indices_repetition (q : Quantifier) (greedy : Bool) (body : Expr) :
    (repetition q greedy body).indices = body.indices := rfl

@[simp] theorem indices_group (capture : Option Nat) (body : Expr) :
    (group capture body).indices = capture.toList ++ body.indices := by
  cases capture <;> rfl

theorem captureCounts_eq_length {parts : List Expr}
    (ih : ∀ e ∈ parts, e.captureCount = e.indices.length) :
    captureCounts parts = (parts.flatMap indices).length := by
  induction parts with
  | nil => rfl
  | cons e es ihes =>
    rw [captureCounts, List.flatMap_cons, List.length_append, ih e List.mem_cons_self,
      ihes fun e he => ih e (List.mem_cons_of_mem _ he)]

theorem captureCount_eq_length (e : Expr) : e.captureCount = e.indices.length := by
  induction e with
  | literal c => rfl
  | concat parts ih => rw [captureCount, captureCounts_eq_length ih, indices_concat]
  | alternation first second ih₁ ih₂ =>
    rw [captureCount, ih₁, ih₂, indices_alternation, List.length_append]
  | repetition q greedy body ih => rw [captureCount, ih, indices_repetition]
  | group capture body ih => cases capture <;> simp [captureCount, ih, Nat.add_comm]

/-- The groups inside a group come behind it. -/
theorem cons_sublist_indices {e : Expr} {index : Nat} {body : Expr} (h : (index, body) ∈ e.bodies) :
    (index :: body.indices).Sublist e.indices := by
  induction e with
  | literal c => exact absurd h List.not_mem_nil
  | concat parts ih =>
    rw [bodies, allBodies_eq_flatMap, List.mem_flatMap] at h
    obtain ⟨e, he, h⟩ := h
    have hpart := (List.singleton_sublist.mpr he).flatMap indices
    rw [List.flatMap_singleton] at hpart
    rw [indices_concat]
    exact (ih e he h).trans hpart
  | alternation first second ih₁ ih₂ =>
    rw [indices_alternation]
    rcases List.mem_append.mp h with h | h
    · exact (ih₁ h).trans (List.sublist_append_left ..)
    · exact (ih₂ h).trans (List.sublist_append_right ..)
  | repetition q greedy body' ih => exact ih h
  | group capture body' ih =>
    cases capture with
    | none => exact ih h
    | some other =>
      rcases List.mem_cons.mp h with heq | h
      · cases heq
        exact List.Sublist.refl _
      · exact (ih h).cons _

theorem exists_body_of_mem_indices {e : Expr} {index : Nat} (h : index ∈ e.indices) :
    ∃ body, e.body? index = some body ∧ (index, body) ∈ e.bodies := by
  obtain ⟨⟨_, inner⟩, hmem, rfl⟩ := List.mem_map.mp h
  have hsome := List.lookup_isSome_iff.mpr ⟨_, hmem, BEq.rfl⟩
  obtain ⟨body, hbody⟩ := Option.isSome_iff_exists.mp hsome
  obtain ⟨before, after, hsplit, -⟩ := List.lookup_eq_some_iff.mp hbody
  exact ⟨body, hbody, by simp [hsplit]⟩

/-- Where no index is used twice, it stands for one group. -/
theorem eq_of_mem_bodies {e : Expr} (hnodup : e.indices.Nodup) {index : Nat} {body other : Expr}
    (h : (index, body) ∈ e.bodies) (h' : (index, other) ∈ e.bodies) : body = other :=
  (Prod.mk.inj (List.inj_on_of_nodup_map hnodup h h' rfl)).2

theorem nestings_le_iff {parts : List Expr} {n : Nat} :
    nestings parts ≤ n ↔ ∀ e ∈ parts, e.nesting ≤ n := by
  induction parts with
  | nil => simp [nestings]
  | cons e es ih => rw [nestings, Nat.max_le, ih, List.forall_mem_cons]

end Expr

end RegexMachine
