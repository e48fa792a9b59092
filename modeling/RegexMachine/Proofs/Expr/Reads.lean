import RegexMachine.Proofs.Expr.FirstMatch
import RegexMachine.Proofs.Expr.Groups
import Mathlib.Logic.Relation

/-!
# What a reading notes

A **reading** goes through an expression without any preference: it takes either way at a choice,
and as many rounds of a loop as it likes, whether they read something or not (`Expr.Reads`). What
holds of all readings holds of what the machine finds.

* **words** — a reading reads a word of the language (`Expr.Reads.passes`);
* **notes** — it notes the slots of groups of the expression and no others (`Expr.Reads.notesOnly`);
* **groups** — a group that is left has both its slots noted, around a word of its own language. As
  nothing else touches them, they are in order at the end of every reading (`Expr.Reads.inOrder`).
-/

namespace RegexMachine

open scoped Computability

open Text (byteSize)

namespace Cursor

variable {s t u : Cursor} {subject : String}

theorem Passes.within {L : Language Char} (h : s.Passes L t) (hs : s.Within subject) :
    t.Within subject := by
  obtain ⟨w, -, hrest, hoffset⟩ := h
  obtain ⟨front, hsubject, hsize⟩ := hs
  refine ⟨front ++ w, ?_, ?_⟩
  · rw [hsubject, hrest, List.append_assoc]
  · rw [Text.byteSize_append, hsize, hoffset]

/-- Between the cursors, only slots of these groups were noted. -/
structure NotesOnly (groups : List Nat) (s t : Cursor) : Prop where
  /-- there are no more slots and no fewer -/
  size_eq : t.slots.size = s.slots.size
  /-- the slots of other groups are as before -/
  slot_eq : ∀ slot : Nat, slot / 2 ∉ groups → t.slots[slot]? = s.slots[slot]?

namespace NotesOnly

variable {groups : List Nat}

theorem refl (s : Cursor) : NotesOnly groups s s := ⟨rfl, fun _ _ => rfl⟩

theorem trans (hst : NotesOnly groups s t) (htu : NotesOnly groups t u) : NotesOnly groups s u where
  size_eq := htu.size_eq.trans hst.size_eq
  slot_eq slot hslot := (htu.slot_eq slot hslot).trans (hst.slot_eq slot hslot)

end NotesOnly

theorem getElem?_note_of_ne (s : Cursor) {slot other : Nat} (h : slot ≠ other) :
    (s.note slot).slots[other]? = s.slots[other]? :=
  Array.getElem?_setIfInBounds_ne h

theorem getElem?_note_self (s : Cursor) {slot : Nat} (h : slot < s.slots.size) :
    (s.note slot).slots[slot]? = some (some s.offset) :=
  Array.getElem?_setIfInBounds_self_of_lt h

theorem notesOnly_note {groups : List Nat} (s : Cursor) {slot : Nat} (h : slot / 2 ∈ groups) :
    NotesOnly groups s (s.note slot) where
  size_eq := Array.size_setIfInBounds
  slot_eq _ hother := s.getElem?_note_of_ne fun heq => hother (heq ▸ h)

/-- The slots of the group `g` are in order: the group took no part so far, or its slots hold the
ends of a word of the language that was read before. -/
structure InOrder (subject : String) (g : Nat) (L : Language Char) (s : Cursor) : Prop where
  /-- the cursor stands in the subject -/
  within : s.Within subject
  /-- both slots are blank, or they hold the ends of a word -/
  slots : (s.slots[2 * g]? = some none ∧ s.slots[2 * g + 1]? = some none) ∨
    ∃ front w between, w ∈ L ∧ subject.toList = front ++ (w ++ (between ++ s.rest)) ∧
      s.slots[2 * g]? = some (some (byteSize front)) ∧
      s.slots[2 * g + 1]? = some (some (byteSize (front ++ w)))

namespace InOrder

variable {g : Nat} {L M : Language Char}

/-- Reading on leaves the slots in order. -/
theorem pass (h : s.InOrder subject g L) (hpass : s.Passes M t)
    (hstart : t.slots[2 * g]? = s.slots[2 * g]?)
    (hstop : t.slots[2 * g + 1]? = s.slots[2 * g + 1]?) : t.InOrder subject g L where
  within := hpass.within h.within
  slots := by
    rw [hstart, hstop]
    refine h.slots.imp_right ?_
    rintro ⟨front, w, between, hw, hsubject, hslots⟩
    obtain ⟨v, -, hrest, -⟩ := hpass
    exact ⟨front, w, between ++ v, hw, by rw [hsubject, hrest, List.append_assoc], hslots⟩

/-- So does a note for another group. -/
theorem note (h : s.InOrder subject g L) {slot : Nat} (hslot : slot / 2 ≠ g) :
    (s.note slot).InOrder subject g L :=
  h.pass (t := s.note slot) ⟨[], rfl, rfl, rfl⟩ (s.getElem?_note_of_ne (by omega))
    (s.getElem?_note_of_ne (by omega))

/-- Blank slots are in order. -/
theorem start (subject : String) {slots : Nat} (h : 2 * g + 1 < slots) (L : Language Char) :
    (Cursor.start subject slots).InOrder subject g L where
  within := ⟨[], rfl, rfl⟩
  slots := .inl (by simp [Cursor.start, Array.getElem?_replicate]; omega)

/-- The slots are there. -/
theorem lt_size (h : s.InOrder subject g L) : 2 * g + 1 < s.slots.size := by
  rcases h.slots with ⟨-, hstop⟩ | ⟨_, _, _, -, -, -, hstop⟩ <;>
    exact (Array.getElem?_eq_some_iff.mp hstop).1

end InOrder

end Cursor

namespace Expr

mutual

/-- The cursors between which an expression may be read. -/
def Reads : Expr → Cursor → Cursor → Prop
  | literal c => fun s t => t ∈ s.read c
  | concat parts => ReadsAll parts
  | alternation first second => fun s t => first.Reads s t ∨ second.Reads s t
  | repetition .star _ body => Relation.ReflTransGen body.Reads
  | repetition .plus _ body => Relation.Comp body.Reads (Relation.ReflTransGen body.Reads)
  | repetition .question _ body => fun s t => body.Reads s t ∨ t = s
  | group (some index) body => fun s t =>
    ∃ u, body.Reads (s.note (2 * index)) u ∧ t = u.note (2 * index + 1)
  | group none body => body.Reads

/-- The cursors between which expressions may be read one after the other. -/
def ReadsAll : List Expr → Cursor → Cursor → Prop
  | [] => fun s t => t = s
  | e :: es => Relation.Comp e.Reads (ReadsAll es)

end

namespace Reads

/-! ## Words -/

theorem passes_all {parts : List Expr}
    (ih : ∀ e ∈ parts, ∀ s t, e.Reads s t → s.Passes e.language t) {s t : Cursor}
    (h : ReadsAll parts s t) : s.Passes (languages parts) t := by
  induction parts generalizing s with
  | nil =>
    obtain rfl : t = s := h
    exact .refl t
  | cons e es ihes =>
    obtain ⟨u, hu, hmore⟩ := h
    exact (ih e List.mem_cons_self s u hu).trans
      (ihes (fun e he => ih e (List.mem_cons_of_mem _ he)) hmore)

theorem passes_rounds {L : Language Char} {round : Cursor → Cursor → Prop}
    (hround : ∀ s t, round s t → s.Passes L t) {s t : Cursor}
    (h : Relation.ReflTransGen round s t) : s.Passes L∗ t := by
  induction h using Relation.ReflTransGen.head_induction_on with
  | refl => exact (Cursor.Passes.refl t).mono fun w hw => hw ▸ Language.nil_mem_kstar L
  | head hfirst hmore ih =>
    rw [← Language.one_add_self_mul_kstar_eq_kstar]
    exact ((hround _ _ hfirst).trans ih).mono fun w hw => .inr hw

/-- A reading reads a word of the language. -/
theorem passes {e : Expr} {s t : Cursor} (h : e.Reads s t) : s.Passes e.language t := by
  induction e generalizing s t with
  | literal c =>
    obtain ⟨rest, hrest, rfl⟩ := Cursor.mem_read_iff.mp h
    exact ⟨[c], rfl, hrest, by simp⟩
  | concat parts ih => exact passes_all (fun e he s t => ih e he) h
  | alternation first second ih₁ ih₂ =>
    rcases h with h | h
    · exact (ih₁ h).mono fun w hw => .inl hw
    · exact (ih₂ h).mono fun w hw => .inr hw
  | repetition q greedy body ih =>
    cases q with
    | star => exact passes_rounds (fun s t => ih) h
    | plus =>
      obtain ⟨u, hu, hmore⟩ := h
      exact (ih hu).trans (passes_rounds (fun s t => ih) hmore)
    | question =>
      rcases h with h | rfl
      · exact (ih h).mono fun w hw => .inl hw
      · exact (Cursor.Passes.refl t).mono fun w hw => .inr hw
  | group capture body ih =>
    cases capture with
    | none => exact ih h
    | some index =>
      obtain ⟨u, hu, rfl⟩ := h
      obtain ⟨w, hw, hrest, hoffset⟩ := ih hu
      exact ⟨w, hw, hrest, hoffset⟩

/-! ## Notes -/

section Closed

variable {R : Cursor → Cursor → Prop} (hrefl : ∀ s, R s s)
  (htrans : ∀ {s t u}, R s t → R t u → R s u) (hread : ∀ {s t c}, t ∈ s.read c → R s t)

include hrefl htrans

theorem closed_all {parts : List Expr} (ih : ∀ e ∈ parts, ∀ {s t}, e.Reads s t → R s t)
    {s t : Cursor} (h : ReadsAll parts s t) : R s t := by
  induction parts generalizing s with
  | nil =>
    obtain rfl : t = s := h
    exact hrefl t
  | cons e es ihes =>
    obtain ⟨u, hu, hmore⟩ := h
    exact htrans (ih e List.mem_cons_self hu)
      (ihes (fun e he => ih e (List.mem_cons_of_mem _ he)) hmore)

theorem closed_rounds {body : Cursor → Cursor → Prop} (hbody : ∀ {s t}, body s t → R s t)
    {s t : Cursor} (h : Relation.ReflTransGen body s t) : R s t := by
  induction h with
  | refl => exact hrefl s
  | tail _ hround ih => exact htrans ih (hbody hround)

include hread

/-- A reading is made of characters and of groups: what holds of these, and of one thing after the
other, holds of the reading. -/
theorem closed {e : Expr}
    (hgroup : ∀ index body, (index, body) ∈ e.bodies → (∀ {s t}, body.Reads s t → R s t) →
      ∀ {s t}, (group (some index) body).Reads s t → R s t)
    {s t : Cursor} (h : e.Reads s t) : R s t := by
  induction e generalizing s t with
  | literal c => exact hread h
  | concat parts ih =>
    refine closed_all hrefl htrans (fun e he s t hreads => ih e he (fun i body hmem => ?_) hreads) h
    refine hgroup i body ?_
    rw [bodies, allBodies_eq_flatMap]
    exact List.mem_flatMap.mpr ⟨e, he, hmem⟩
  | alternation first second ih₁ ih₂ =>
    rcases h with h | h
    · exact ih₁ (fun i body hmem => hgroup i body (List.mem_append_left _ hmem)) h
    · exact ih₂ (fun i body hmem => hgroup i body (List.mem_append_right _ hmem)) h
  | repetition q greedy body ih =>
    have hround : ∀ {s t}, body.Reads s t → R s t := ih hgroup
    cases q with
    | star => exact closed_rounds hrefl htrans hround h
    | plus =>
      obtain ⟨u, hu, hmore⟩ := h
      exact htrans (hround hu) (closed_rounds hrefl htrans hround hmore)
    | question =>
      rcases h with h | rfl
      · exact hround h
      · exact hrefl t
  | group capture body ih =>
    cases capture with
    | none => exact ih hgroup h
    | some index =>
      refine hgroup index body List.mem_cons_self (fun hbody => ?_) h
      exact ih (fun i inner hmem => hgroup i inner (List.mem_cons_of_mem _ hmem)) hbody

end Closed

/-- A reading notes nothing but slots of the groups of the expression. -/
theorem notesOnly {e : Expr} {s t : Cursor} (h : e.Reads s t) : s.NotesOnly e.indices t := by
  refine closed (R := Cursor.NotesOnly e.indices) .refl .trans (fun hread => ?_) ?_ h
  · obtain ⟨rest, -, rfl⟩ := Cursor.mem_read_iff.mp hread
    exact ⟨rfl, fun _ _ => rfl⟩
  · rintro index body hmem hbody s _ ⟨u, hu, rfl⟩
    have hindex : index ∈ e.indices := List.mem_map_of_mem hmem
    have hstart : 2 * index / 2 ∈ e.indices := by rwa [Nat.mul_div_cancel_left index Nat.two_pos]
    have hstop : (2 * index + 1) / 2 ∈ e.indices := by rwa [Nat.mul_add_div Nat.two_pos]
    exact (s.notesOnly_note hstart).trans ((hbody hu).trans (u.notesOnly_note hstop))

/-! ## Groups -/

/-- Behind a group its slots hold the ends of the word that it read. -/
theorem group_slots {index : Nat} {body : Expr} {s t : Cursor}
    (h : (group (some index) body).Reads s t) (hindex : index ∉ body.indices)
    (hsize : 2 * index + 1 < s.slots.size) :
    t.slots[2 * index]? = some (some s.offset) ∧
      t.slots[2 * index + 1]? = some (some t.offset) := by
  obtain ⟨u, hu, rfl⟩ := h
  have hnotes := hu.notesOnly
  have hstart : 2 * index / 2 ∉ body.indices := by rwa [Nat.mul_div_cancel_left index Nat.two_pos]
  have hsize' : u.slots.size = s.slots.size := hnotes.size_eq.trans Array.size_setIfInBounds
  constructor
  · rw [u.getElem?_note_of_ne (by omega), hnotes.slot_eq _ hstart, s.getElem?_note_self (by omega)]
  · exact u.getElem?_note_self (by omega)

/-- **Groups**: a reading leaves the slots of every group of the expression in order. -/
theorem inOrder {e : Expr} (hnodup : e.indices.Nodup) {g : Nat} {body : Expr}
    (hg : (g, body) ∈ e.bodies) {subject : String} {s t : Cursor} (h : e.Reads s t)
    (hs : s.InOrder subject g body.language) : t.InOrder subject g body.language := by
  refine closed
    (R := fun s t => s.InOrder subject g body.language → t.InOrder subject g body.language)
    (fun s hs => hs) (fun hst htu hs => htu (hst hs)) (fun hread hs => ?_) ?_ h hs
  · obtain ⟨rest, hrest, rfl⟩ := Cursor.mem_read_iff.mp hread
    exact hs.pass (M := {[_]}) ⟨_, rfl, hrest, by simp⟩ rfl rfl
  · intro index inner hmem hinner s t hgroup hs
    by_cases hindex : index = g
    · -- the group itself
      subst hindex
      obtain rfl := eq_of_mem_bodies hnodup hmem hg
      have hnot := (List.nodup_cons.mp ((cons_sublist_indices hmem).nodup hnodup)).1
      have hpass := hgroup.passes
      rw [language] at hpass
      obtain ⟨hstart, hstop⟩ := hgroup.group_slots hnot hs.lt_size
      refine ⟨hpass.within hs.within, .inr ?_⟩
      obtain ⟨w, hw, hrest, hoffset⟩ := hpass
      obtain ⟨front, hsubject, hsize⟩ := hs.within
      refine ⟨front, w, [], hw, by rw [hsubject, hrest, List.nil_append], by rw [hstart, hsize], ?_⟩
      rw [hstop, hoffset, Text.byteSize_append, hsize]
    · obtain ⟨u, hu, rfl⟩ := hgroup
      exact (hinner hu (hs.note (by omega))).note (by omega)

end Reads

end Expr

end RegexMachine
