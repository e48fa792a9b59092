import RegexMachine.Proofs.Assembly.Defects

/-!
# Holes

What a draft says about its operands is its view (`Draft.labelAt?`). Patching has one rule: it
succeeds if the operands are holes and none of them is named twice, and then fills in just these,
each with the distance from its own instruction to the target (`Draft.patch_eq_ok_iff`).

From this rule and the layout follows how `Draft.assemble` deals with holes
(`Draft.assemble_holes`):

* **before** — what was assembled earlier stays, holes that are still pending included;
* **the block** — the holes that are handed out are those of the new block, each of them once, and
  its other targets do not lead out of it;
* **after** — wherever the block is left for, its holes can be patched.
-/

namespace RegexMachine

open Instruction (relativeTo relativeFrom)

namespace Instruction

/-- The label of an operand, if the instruction has one there. -/
def operand? : Instruction Label → Operand → Option Label
  | .jump label, .first => some label
  | .split label _, .first => some label
  | .split _ label, .second => some label
  | _, _ => none

/-- The instruction with other labels. -/
def mapOperands (f : Operand → Label → Label) : Instruction Label → Instruction Label
  | .jump label => .jump (f .first label)
  | .split label other => .split (f .first label) (f .second other)
  | .char c => .char c
  | .accept => .accept
  | .save slot => .save slot
  | .nop => .nop

@[simp] theorem operand?_mapOperands (f : Operand → Label → Label) (i : Instruction Label)
    (operand : Operand) :
    (i.mapOperands f).operand? operand = (i.operand? operand).map (f operand) := by
  cases i <;> cases operand <;> rfl

theorem mapOperands_mapOperands (f g : Operand → Label → Label) (i : Instruction Label) :
    (i.mapOperands f).mapOperands g =
      i.mapOperands fun operand label => g operand (f operand label) := by
  cases i <;> rfl

theorem mapOperands_eq_self {f : Operand → Label → Label}
    (h : ∀ operand label, f operand label = label) (i : Instruction Label) :
    i.mapOperands f = i := by
  cases i <;> simp [mapOperands, h]

/-- Filling in a hole changes the label there. -/
theorem fill?_eq_some_iff {i j : Instruction Label} {label : Label} {operand : Operand} :
    i.fill? label operand = some j ↔ i.operand? operand = some .hole ∧
      j = i.mapOperands fun other old => if other = operand then label else old := by
  cases i with
  | jump old => cases operand <;> cases old <;> simp [fill?, operand?, mapOperands, eq_comm]
  | split first second =>
    cases operand
    · cases first <;> simp [fill?, operand?, mapOperands, eq_comm]
    · cases second <;> simp [fill?, operand?, mapOperands, eq_comm]
  | char | accept | save | nop => simp [fill?, operand?]

/-- Targets leave no hole. -/
theorem exists_of_operand?_relativeTo {pc : Nat} {i : Instruction Nat} {operand : Operand}
    {label : Label} (h : (relativeTo pc i).operand? operand = some label) :
    ∃ target ∈ i.targets, label = .relative (target - pc) := by
  cases i with
  | jump target =>
    cases operand with
    | first => exact ⟨target, List.mem_singleton_self _, (Option.some.inj h).symm⟩
    | second => cases h
  | split first second =>
    cases operand with
    | first => exact ⟨first, List.mem_cons_self, (Option.some.inj h).symm⟩
    | second =>
      exact ⟨second, List.mem_cons_of_mem _ (List.mem_singleton_self _), (Option.some.inj h).symm⟩
  | char | accept | save | nop => cases operand <;> cases h

end Instruction

namespace Draft

variable {d d' : Draft} {target : Nat} {h : Hole} {holes : List Hole}

/-- The label of an operand of a draft, if there is one. -/
def labelAt? (d : Draft) (h : Hole) : Option Label :=
  d.code[h.pc]?.bind (·.operand? h.operand)

/-- The draft with these operands filled in, each with the distance from its instruction to the
target. -/
def fill (d : Draft) (target : Nat) (holes : List Hole) : Draft :=
  { d with code := d.code.mapIdx fun pc i => i.mapOperands fun operand label =>
      if ⟨pc, operand⟩ ∈ holes then .relative (target - pc) else label }

/-! ## Patching -/

theorem labelAt?_fill (d : Draft) (target : Nat) (holes : List Hole) (h : Hole) :
    (d.fill target holes).labelAt? h =
      (d.labelAt? h).map fun label => if h ∈ holes then .relative (target - h.pc) else label := by
  rw [labelAt?, labelAt?, fill, Array.getElem?_mapIdx]
  cases d.code[h.pc]? with
  | none => rfl
  | some i => simp

theorem fill_nil (d : Draft) (target : Nat) : d.fill target [] = d := by
  have hcode : d.code.mapIdx (fun pc i => i.mapOperands fun operand label =>
      if (⟨pc, operand⟩ : Hole) ∈ [] then .relative (target - pc) else label) = d.code := by
    ext pc hpc
    · simp
    · simp [Instruction.mapOperands_eq_self]
  rw [fill, hcode]

theorem fill_fill (d : Draft) (target : Nat) (holes more : List Hole) :
    (d.fill target holes).fill target more = d.fill target (holes ++ more) := by
  have hlabel (h : Hole) (label : Label) :
      (if h ∈ more then .relative (target - h.pc)
        else if h ∈ holes then .relative (target - h.pc) else label) =
      if h ∈ holes ++ more then .relative (target - h.pc) else label := by
    by_cases hmore : h ∈ more <;> simp [hmore]
  have hlabels (pc : Nat) := fun operand => hlabel ⟨pc, operand⟩
  dsimp only at hlabels
  simp only [fill, Array.mapIdx_mapIdx, Function.comp_def, Instruction.mapOperands_mapOperands,
    hlabels]

/-- Filling in one operand changes one instruction. -/
theorem fill_singleton {i : Instruction Label} (hi : d.code[h.pc]? = some i) :
    d.fill target [h] =
      { d with code := d.code.setIfInBounds h.pc (i.mapOperands fun operand label =>
          if operand = h.operand then .relative (target - h.pc) else label) } := by
  obtain ⟨pc, operand⟩ := h
  dsimp only at hi ⊢
  obtain ⟨hsize, rfl⟩ := Array.getElem?_eq_some_iff.mp hi
  rw [fill, mk.injEq, and_iff_left rfl]
  refine Array.ext_getElem? fun other => ?_
  rw [Array.getElem?_mapIdx, Array.getElem?_setIfInBounds]
  by_cases hother : pc = other
  · subst hother
    simp [hsize]
  · have hother' : other ≠ pc := Ne.symm hother
    simp [hother, hother', Instruction.mapOperands_eq_self]

/-- An operand that is a hole is filled in, and patching goes on. -/
theorem patch_cons_of_hole (hopen : d.labelAt? h = some .hole) :
    d.patch target (h :: holes) = (d.fill target [h]).patch target holes := by
  obtain ⟨i, hi, hoperand⟩ := Option.bind_eq_some_iff.mp hopen
  rw [patch, Label.between, hi, Option.bind_some,
    Instruction.fill?_eq_some_iff.mpr ⟨hoperand, rfl⟩, fill_singleton hi]

/-- Anything else is not patched. -/
theorem patch_cons_of_no_hole (hopen : d.labelAt? h ≠ some .hole) :
    d.patch target (h :: holes) = .error ⟨h.pc, .notAHole⟩ := by
  have hnone : d.code[h.pc]?.bind (·.fill? (.relative (target - h.pc)) h.operand) = none := by
    rw [Option.eq_none_iff_forall_ne_some]
    intro j hj
    obtain ⟨i, hi, hfill⟩ := Option.bind_eq_some_iff.mp hj
    rw [labelAt?, hi] at hopen
    exact hopen (Instruction.fill?_eq_some_iff.mp hfill).1
  rw [patch, Label.between, hnone]

/-- **Patching** succeeds if the operands are holes and none of them is named twice, and fills them
in. -/
theorem patch_eq_ok_iff : d.patch target holes = .ok d' ↔
    holes.Nodup ∧ (∀ h ∈ holes, d.labelAt? h = some .hole) ∧ d' = d.fill target holes := by
  induction holes generalizing d with
  | nil => simp [fill_nil, eq_comm]
  | cons h holes ih =>
    by_cases hopen : d.labelAt? h = some .hole
    · have hrest (other : Hole) : (d.fill target [h]).labelAt? other = some .hole ↔
          d.labelAt? other = some .hole ∧ other ≠ h := by
        rw [labelAt?_fill]
        by_cases hother : other = h <;> simp [hother]
      rw [patch_cons_of_hole hopen, ih, fill_fill, List.nodup_cons, List.forall_mem_cons]
      simp only [hrest, hopen, List.singleton_append, true_and]
      constructor
      · rintro ⟨hnodup, hholes, hfill⟩
        exact ⟨⟨fun hmem => (hholes h hmem).2 rfl, hnodup⟩,
          fun other hmem => (hholes other hmem).1, hfill⟩
      · rintro ⟨⟨hnot, hnodup⟩, hholes, hfill⟩
        refine ⟨hnodup, fun other hmem => ⟨hholes other hmem, ?_⟩, hfill⟩
        rintro rfl
        exact hnot hmem
    · rw [patch_cons_of_no_hole hopen]
      simp [hopen]

/-! ## Assembling -/

theorem labelAt?_of_lt {before block : List (Instruction Label)} {groups : Nat}
    (hlt : h.pc < before.length) : (ofList (before ++ block) groups).labelAt? h =
      before[h.pc]?.bind (·.operand? h.operand) := by
  rw [labelAt?, ofList, List.getElem?_toArray, List.getElem?_append_left hlt]

theorem lt_pc_of_labelAt? {label : Label} (hlabel : d.labelAt? h = some label) : h.pc < d.pc := by
  obtain ⟨i, hi, -⟩ := Option.bind_eq_some_iff.mp hlabel
  exact (Array.getElem?_eq_some_iff.mp hi).1

/-- In a closed block no hole is left, and every label leads into the block, behind it, or to its
exit. -/
theorem exists_target_of_labelAt? {code : List (Instruction Label)} {e : Expr} {exit groups : Nat}
    {label : Label} (hle : code.length ≤ h.pc)
    (hlabel : (ofList (code ++ relativeFrom code.length (e.block code.length exit))
      groups).labelAt? h = some label) :
    ∃ target : Nat, label = .relative (target - h.pc) ∧
      (target = exit ∨ code.length ≤ target ∧ target ≤ code.length + e.blockSize) := by
  rw [labelAt?, ofList, List.getElem?_toArray, List.getElem?_append_right hle,
    Instruction.getElem?_relativeFrom, Nat.add_sub_cancel' hle] at hlabel
  obtain ⟨_, hi, hoperand⟩ := Option.bind_eq_some_iff.mp hlabel
  obtain ⟨i, hmem, rfl⟩ := Option.map_eq_some_iff.mp hi
  obtain ⟨target, htarget, rfl⟩ := Instruction.exists_of_operand?_relativeTo hoperand
  exact ⟨target, rfl, e.targets_block _ _ i (List.mem_of_getElem? hmem) target htarget⟩

/-- A draft that has grown by a block which leaves these holes. -/
structure Grows (d grown : Draft) (holes : List Hole) : Prop where
  /-- what was there before is still there -/
  earlier : d.code.toList <+: grown.code.toList
  /-- no hole is handed out twice -/
  nodup : holes.Nodup
  /-- the holes of the new block are handed out, and no others -/
  mem_iff : ∀ h, h ∈ holes ↔ d.pc ≤ h.pc ∧ grown.labelAt? h = some .hole
  /-- its targets are in the block or behind it -/
  inside : ∀ h distance, d.pc ≤ h.pc → grown.labelAt? h = some (.relative distance) →
    d.pc ≤ h.pc + distance ∧ h.pc + distance ≤ grown.pc
  /-- the holes can be patched, wherever they are to lead -/
  patch : ∀ target, grown.patch target holes = .ok (grown.fill target holes)
  /-- patched in words, no distance overflows -/
  words : ∀ target : Nat, (target : Int) ≤ Word.maxValue → (grown.pc : Int) ≤ Word.maxValue →
    ∀ h label, d.pc ≤ h.pc → (grown.fill target holes).labelAt? h = some label → label.IsWord

/-- What an open block leaves is known from what becomes of it, whatever its exit is. -/
theorem grows_of_fills {code opened : List (Instruction Label)} {e : Expr} (groups groups' : Nat)
    (hlength : opened.length = e.blockSize)
    (hfills : ∀ exit, Fills code.length exit holes opened
      (relativeFrom code.length (e.block code.length exit))) :
    (ofList code groups).Grows (ofList (code ++ opened) groups') holes := by
  have hpatch (exit : Nat) := (hfills exit).patch_ofList code rfl groups'
  obtain ⟨hnodup, hopen, -⟩ := patch_eq_ok_iff.mp (hpatch 0)
  have hclosed (exit : Nat) := (patch_eq_ok_iff.mp (hpatch exit)).2.2
  -- the labels of the closed block
  have hlabels (exit : Nat) :=
    hclosed exit ▸ labelAt?_fill (ofList (code ++ opened) groups') exit holes
  have hend : (ofList (code ++ opened) groups').pc = code.length + e.blockSize := by
    rw [pc_ofList, List.length_append, hlength]
  constructor
  case earlier => simp [ofList]
  case nodup => exact hnodup
  case patch => exact fun target => patch_eq_ok_iff.mpr ⟨hnodup, hopen, rfl⟩
  case mem_iff =>
    intro h
    rw [pc_ofList]
    constructor
    · refine fun hmem => ⟨Nat.not_lt.mp fun hlt => ?_, hopen h hmem⟩
      -- patching changes the label, but nothing before the block
      have hlabel := hlabels 0 h
      have hhole := hopen h hmem
      rw [hhole, Option.map_some, if_pos hmem, labelAt?_of_lt hlt] at hlabel
      rw [labelAt?_of_lt hlt, hlabel] at hhole
      cases hhole
    · rintro ⟨hle, hhole⟩
      by_cases hmem : h ∈ holes
      · exact hmem
      -- a hole that is not patched would still be there
      have hlabel := hlabels 0 h
      rw [hhole, Option.map_some, if_neg hmem] at hlabel
      obtain ⟨target, hrelative, -⟩ := exists_target_of_labelAt? hle hlabel
      cases hrelative
  case inside =>
    intro h distance hle hdistance
    rw [pc_ofList] at hle ⊢
    have hmem : h ∉ holes := by
      intro hmem
      rw [hopen h hmem] at hdistance
      cases hdistance
    -- the label is the same when the block is left for its end
    have hlabel := hlabels (code.length + e.blockSize) h
    rw [hdistance, Option.map_some, if_neg hmem] at hlabel
    obtain ⟨target, hrelative, htarget⟩ := exists_target_of_labelAt? hle hlabel
    obtain rfl := Label.relative.inj hrelative
    rw [hend]
    omega
  case words =>
    intro target hword hsize h label hle hlabel
    rw [pc_ofList] at hle
    rw [← hclosed] at hlabel
    have hlt := lt_pc_of_labelAt? hlabel
    obtain ⟨goal, rfl, hgoal⟩ := exists_target_of_labelAt? hle hlabel
    rw [pc_ofList, List.length_append, Instruction.length_relativeFrom, Expr.length_block] at hlt
    rw [hend] at hsize
    simp only [Label.IsWord, Word.minValue, Word.maxValue] at *
    omega

/-- **Holes**: an expression is assembled behind whatever there is, and the holes that are handed
out are those of its block. -/
theorem assemble_holes (e : Expr) (d : Draft) : ∃ grown holes, d.assemble e = .ok (grown, holes) ∧
    grown.pc = d.pc + e.blockSize ∧ grown.groups = max d.groups e.maxIndex ∧
      d.Grows grown holes := by
  obtain ⟨opened, holes, hassemble, hlength, hfills⟩ :=
    assemblesTo e d.pc d.code.toList d.groups rfl
  have hd : ofList d.code.toList d.groups = d := by rw [ofList, Array.toArray_toList]
  rw [hd] at hassemble
  have hgrows := grows_of_fills d.groups (max d.groups e.maxIndex) hlength hfills
  rw [hd] at hgrows
  refine ⟨_, holes, hassemble, ?_, rfl, hgrows⟩
  rw [pc_ofList, List.length_append, hlength]
  rfl

/-- The holes of `a?|b*`: behind `a`, the jump, and behind `b`. -/
example : (Draft.empty.assemble (.alternation (.repetition .question true (.literal 'a'))
    (.repetition .star true (.literal 'b')))).map (·.2) =
      .ok [⟨1, .second⟩, ⟨3, .first⟩, ⟨4, .second⟩] := by cbv

end Draft

end RegexMachine
