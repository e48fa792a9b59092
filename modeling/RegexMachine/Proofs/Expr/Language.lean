import RegexMachine.Pattern.Expr
import Mathlib.Computability.Language

/-!
# The language of an expression

The texts that an expression stands for, without any preference among the ways to read them. Groups
make no difference to it, nor does the greediness of a repetition.
-/

namespace RegexMachine

namespace Expr

open scoped Computability

mutual

/-- The language that an expression denotes. -/
def language : Expr → Language Char
  | literal c => {[c]}
  | concat parts => languages parts
  | alternation first second => first.language + second.language
  | repetition .star _ body => body.language∗
  | repetition .plus _ body => body.language * body.language∗
  | repetition .question _ body => body.language + 1
  | group _ body => body.language

/-- The concatenation of the languages of expressions. -/
def languages : List Expr → Language Char
  | [] => 1
  | e :: es => e.language * languages es

end

mutual

/-- Whether an expression can match the empty text. -/
def nullable : Expr → Bool
  | literal _ => false
  | concat parts => allNullable parts
  | alternation first second => first.nullable || second.nullable
  | repetition .plus _ body => body.nullable
  | repetition .star _ _ | repetition .question _ _ => true
  | group _ body => body.nullable

/-- Whether all of the expressions can match the empty text. -/
def allNullable : List Expr → Bool
  | [] => true
  | e :: es => e.nullable && allNullable es

end

theorem mem_language_literal {c : Char} {w : List Char} : w ∈ (literal c).language ↔ w = [c] :=
  Iff.rfl

theorem mem_language_question {greedy : Bool} {body : Expr} {w : List Char} :
    w ∈ (repetition .question greedy body).language ↔ w ∈ body.language ∨ w = [] :=
  Iff.rfl

theorem nil_mem_mul {L M : Language Char} : [] ∈ L * M ↔ [] ∈ L ∧ [] ∈ M := by
  rw [Language.mem_mul]
  constructor
  · rintro ⟨u, hu, v, hv, huv⟩
    obtain ⟨rfl, rfl⟩ := List.append_eq_nil_iff.mp huv
    exact ⟨hu, hv⟩
  · rintro ⟨hL, hM⟩
    exact ⟨[], hL, [], hM, rfl⟩

theorem allNullable_iff {parts : List Expr}
    (ih : ∀ e ∈ parts, e.nullable = true ↔ [] ∈ e.language) :
    allNullable parts = true ↔ [] ∈ languages parts := by
  induction parts with
  | nil => simp [allNullable, languages]
  | cons e es ihes =>
    have hes := ihes fun e he => ih e (List.mem_cons_of_mem _ he)
    rw [allNullable, languages, Bool.and_eq_true, nil_mem_mul, ih e List.mem_cons_self, hes]

theorem nullable_iff (e : Expr) : e.nullable = true ↔ [] ∈ e.language := by
  induction e with
  | literal c => simp [nullable, mem_language_literal]
  | concat parts ih => exact allNullable_iff ih
  | alternation first second ih₁ ih₂ =>
    rw [nullable, language, Bool.or_eq_true, Language.mem_add, ih₁, ih₂]
  | repetition q greedy body ih =>
    cases q with
    | star => simp [nullable, language, Language.nil_mem_kstar]
    | plus => simp [nullable, language, nil_mem_mul, ih, Language.nil_mem_kstar]
    | question => simp [nullable, mem_language_question]
  | group capture body ih => exact ih

end Expr

end RegexMachine
