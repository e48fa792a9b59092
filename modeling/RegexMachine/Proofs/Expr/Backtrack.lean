import RegexMachine.Machine.Thread
import RegexMachine.Program.Basic
import RegexMachine.Proofs.Assembly.Layout
import RegexMachine.Proofs.Expr.Language
import RegexMachine.Text.Offset

/-!
# Backtracking

The textbook way to match an expression: go through the tree, and where there is a choice, try one
way after the other. `Expr.ways` lists all ways in the order in which they are tried, each with what
it noted; the outcome is the first of them (`Expr.firstMatch`).

A round of a loop that reads nothing could be repeated forever, so it is not a way on. This does not
matter where the body of every loop has to read something (`ways_star`).
-/

namespace RegexMachine

open scoped Computability

/-- Where a backtracking matcher stands. -/
structure Cursor where
  /-- what is left of the subject -/
  rest : List Char
  /-- its byte offset -/
  offset : Nat
  /-- what was noted so far -/
  slots : Slots
  deriving DecidableEq, Repr

namespace Cursor

/-- Notes the offset. -/
def note (s : Cursor) (slot : Nat) : Cursor :=
  { s with slots := s.slots.setIfInBounds slot (some s.offset) }

/-- Reads one character, if it is this one. -/
def read (s : Cursor) (c : Char) : List Cursor :=
  match s.rest with
  | [] => []
  | d :: rest => if d = c then [⟨rest, s.offset + d.utf8Size, s.slots⟩] else []

/-- At the start of a subject, with so many blank slots. -/
def start (subject : String) (slots : Nat) : Cursor :=
  ⟨subject.toList, 0, Array.replicate slots none⟩

theorem mem_read_iff {s t : Cursor} {c : Char} :
    t ∈ s.read c ↔ ∃ rest, s.rest = c :: rest ∧ t = ⟨rest, s.offset + c.utf8Size, s.slots⟩ := by
  rw [read]
  split
  · rename_i hrest
    simp [hrest]
  · rename_i d rest hrest
    split_ifs with hd
    · simp [hrest, hd]
    · simp [hrest, hd]

/-- The cursor `t` is behind a word of the language that `s` has in front of it. -/
def Passes (L : Language Char) (s t : Cursor) : Prop :=
  ∃ w ∈ L, s.rest = w ++ t.rest ∧ t.offset = s.offset + Text.byteSize w

namespace Passes

variable {L M : Language Char} {s t u : Cursor}

theorem refl (s : Cursor) : s.Passes 1 s := ⟨[], rfl, rfl, rfl⟩

theorem trans (hst : s.Passes L t) (htu : t.Passes M u) : s.Passes (L * M) u := by
  obtain ⟨v, hv, hrest, hoffset⟩ := hst
  obtain ⟨w, hw, hrest', hoffset'⟩ := htu
  refine ⟨v ++ w, Language.mem_mul.mpr ⟨v, hv, w, hw, rfl⟩, ?_, ?_⟩
  · rw [hrest, hrest', List.append_assoc]
  · rw [hoffset', hoffset, Text.byteSize_append, Nat.add_assoc]

theorem mono (h : s.Passes L t) (hsub : ∀ w ∈ L, w ∈ M) : s.Passes M t := by
  obtain ⟨w, hw, hrest, hoffset⟩ := h
  exact ⟨w, hsub w hw, hrest, hoffset⟩

end Passes

end Cursor

namespace Expr

/-- The ways to go on with another round of a loop, and to leave it: which is tried first? -/
def inOrder (greedy : Bool) (more leave : List Cursor) : List Cursor :=
  if greedy then more ++ leave else leave ++ more

/-- The ways through any number of rounds of a loop. -/
def rounds (greedy : Bool) (body : Cursor → List Cursor) (s : Cursor) : List Cursor :=
  let more := (body s).flatMap fun t =>
    if t.rest.length < s.rest.length then rounds greedy body t else []
  inOrder greedy more [s]
termination_by s.rest.length

mutual

/-- The ways to match an expression from a cursor on, those that are tried first in front. -/
def ways : Expr → Cursor → List Cursor
  | literal c, s => s.read c
  | concat parts, s => waysAll parts s
  | alternation first second, s => first.ways s ++ second.ways s
  | repetition .star greedy body, s => rounds greedy body.ways s
  | repetition .plus greedy body, s => (body.ways s).flatMap (rounds greedy body.ways)
  | repetition .question greedy body, s => inOrder greedy (body.ways s) [s]
  | group (some index) body, s =>
    (body.ways (s.note (2 * index))).map (·.note (2 * index + 1))
  | group none body, s => body.ways s

/-- The ways to match expressions one after the other. -/
def waysAll : List Expr → Cursor → List Cursor
  | [], s => [s]
  | e :: es, s => (e.ways s).flatMap (waysAll es)

end

/-- The slots of the first way to match an expression at the start of a subject. The slots 0 and 1
hold the ends of the match. -/
def firstMatch (e : Expr) (subject : String) : Option Slots :=
  let s := Cursor.start subject (Program.slotsFor e.maxIndex)
  (e.ways (s.note 0)).head?.map fun t => (t.note 1).slots

theorem mem_inOrder {greedy : Bool} {more leave : List Cursor} {t : Cursor} :
    t ∈ inOrder greedy more leave ↔ t ∈ more ∨ t ∈ leave := by
  cases greedy <;> simp [inOrder, or_comm]

theorem mem_rounds_iff {greedy : Bool} {body : Cursor → List Cursor} {s t : Cursor} :
    t ∈ rounds greedy body s ↔
      (∃ u ∈ body s, u.rest.length < s.rest.length ∧ t ∈ rounds greedy body u) ∨ t = s := by
  rw [rounds, mem_inOrder, List.mem_flatMap, List.mem_singleton]
  refine or_congr_left (exists_congr fun u => and_congr_right fun _ => ?_)
  split_ifs with hless <;> simp [hless]

/-! ## What the ways read -/

theorem passes_rounds {L : Language Char} {greedy : Bool} {body : Cursor → List Cursor}
    (hbody : ∀ s t, t ∈ body s → s.Passes L t) {s t : Cursor} (ht : t ∈ rounds greedy body s) :
    s.Passes L∗ t := by
  induction s using rounds.induct greedy body with
  | case1 s ih =>
    rcases mem_rounds_iff.mp ht with ⟨u, hu, hless, ht⟩ | rfl
    · rw [← Language.one_add_self_mul_kstar_eq_kstar]
      exact ((hbody s u hu).trans (ih u hless ht)).mono fun w hw => .inr hw
    · exact (Cursor.Passes.refl t).mono fun w hw => hw ▸ Language.nil_mem_kstar L

theorem passes_waysAll {parts : List Expr}
    (ih : ∀ e ∈ parts, ∀ s t, t ∈ e.ways s → s.Passes e.language t) {s t : Cursor}
    (ht : t ∈ waysAll parts s) : s.Passes (languages parts) t := by
  induction parts generalizing s with
  | nil =>
    obtain rfl : t = s := by simpa [waysAll] using ht
    exact .refl t
  | cons e es ihes =>
    rw [waysAll, List.mem_flatMap] at ht
    obtain ⟨u, hu, ht⟩ := ht
    rw [languages]
    exact (ih e List.mem_cons_self s u hu).trans
      (ihes (fun e he => ih e (List.mem_cons_of_mem _ he)) ht)

/-- Every way reads a word of the language. -/
theorem passes_ways (e : Expr) {s t : Cursor} (ht : t ∈ e.ways s) : s.Passes e.language t := by
  induction e generalizing s t with
  | literal c =>
    rw [ways] at ht
    obtain ⟨rest, hrest, rfl⟩ := Cursor.mem_read_iff.mp ht
    exact ⟨[c], rfl, hrest, by simp⟩
  | concat parts ih =>
    rw [ways] at ht
    exact passes_waysAll (fun e he s t => ih e he) ht
  | alternation first second ih₁ ih₂ =>
    rw [ways, List.mem_append] at ht
    rcases ht with ht | ht
    · exact (ih₁ ht).mono fun w hw => .inl hw
    · exact (ih₂ ht).mono fun w hw => .inr hw
  | repetition q greedy body ih =>
    cases q with
    | star =>
      rw [ways] at ht
      exact passes_rounds (fun s t => ih) ht
    | plus =>
      rw [ways, List.mem_flatMap] at ht
      obtain ⟨u, hu, ht⟩ := ht
      exact (ih hu).trans (passes_rounds (fun s t => ih) ht)
    | question =>
      rw [ways, mem_inOrder, List.mem_singleton] at ht
      rcases ht with ht | rfl
      · exact (ih ht).mono fun w hw => .inl hw
      · exact (Cursor.Passes.refl t).mono fun w hw => .inr hw
  | group capture body ih =>
    cases capture with
    | none =>
      rw [ways] at ht
      exact ih ht
    | some index =>
      rw [ways, List.mem_map] at ht
      obtain ⟨u, hu, rfl⟩ := ht
      obtain ⟨w, hw, hrest, hoffset⟩ := ih hu
      exact ⟨w, hw, hrest, hoffset⟩

/-! ## Loops that read -/

mutual

/-- The body of every star and every plus has to read something. -/
def loopsRead : Expr → Bool
  | literal _ => true
  | concat parts => allLoopsRead parts
  | alternation first second => first.loopsRead && second.loopsRead
  | repetition .star _ body | repetition .plus _ body => !body.nullable && body.loopsRead
  | repetition .question _ body => body.loopsRead
  | group _ body => body.loopsRead

/-- The body of every star and every plus in the expressions has to read something. -/
def allLoopsRead : List Expr → Bool
  | [] => true
  | e :: es => e.loopsRead && allLoopsRead es

end

/-- An expression that does not match the empty text reads something. -/
theorem length_lt_of_mem_ways {e : Expr} (he : e.nullable = false) {s t : Cursor}
    (ht : t ∈ e.ways s) : t.rest.length < s.rest.length := by
  obtain ⟨w, hw, hrest, -⟩ := e.passes_ways ht
  have hne : w ≠ [] := by
    rintro rfl
    rw [e.nullable_iff.mpr hw] at he
    cases he
  have hpos := List.length_pos_iff.mpr hne
  rw [hrest, List.length_append]
  omega

theorem rounds_eq {greedy : Bool} {body : Cursor → List Cursor}
    (hbody : ∀ s t, t ∈ body s → t.rest.length < s.rest.length) (s : Cursor) :
    rounds greedy body s = inOrder greedy ((body s).flatMap (rounds greedy body)) [s] := by
  rw [rounds]
  refine congrArg (inOrder greedy · [s]) (List.flatMap_congr fun t ht => ?_)
  rw [if_pos (hbody s t ht)]

/-- A loop whose body has to read something may always go on with another round. -/
theorem ways_star {greedy : Bool} {body : Expr} (hbody : body.nullable = false) (s : Cursor) :
    (repetition .star greedy body).ways s =
      inOrder greedy ((body.ways s).flatMap (repetition .star greedy body).ways) [s] := by
  have hstar : (repetition .star greedy body).ways = rounds greedy body.ways := by
    funext s
    rw [ways]
  rw [hstar]
  exact rounds_eq (fun s t => length_lt_of_mem_ways hbody) s

end Expr

end RegexMachine
