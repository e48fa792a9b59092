import RegexMachine.Proofs.Assembly.Slots
import RegexMachine.Proofs.Assembly.Words
import Mathlib.Algebra.GroupWithZero.Nat

/-!
# Room for groups

A tree may give its groups any indices, and the program has slots for all groups up to the largest
index. Whether there is room for that many depends on two numbers, each of which can be read off the
nodes of the tree: how many instructions they have of their own (`Expr.programSize`), and the
largest index. If the index is no larger than the size there is a program, and otherwise the index
is what the tree is refused for; nothing else can be wrong with it (`Expr.program_iff_room`).
-/

namespace RegexMachine

open Instruction (relativeTo relativeFrom)

namespace Expr

/-! ## Nodes -/

mutual

/-- The nodes of a tree, each in front of those below it. -/
def nodes : Expr → List Expr
  | literal c => [literal c]
  | concat parts => concat parts :: allNodes parts
  | alternation first second => alternation first second :: (first.nodes ++ second.nodes)
  | repetition q greedy body => repetition q greedy body :: body.nodes
  | group capture body => group capture body :: body.nodes

/-- The nodes of trees one after the other. -/
def allNodes : List Expr → List Expr
  | [] => []
  | e :: es => e.nodes ++ allNodes es

end

/-- Number of instructions of a node, those of the nodes below it left out. -/
def ownSize : Expr → Nat
  | literal _ => 1
  | concat _ => 0
  | alternation _ _ => 2
  | repetition .star _ _ => 2
  | repetition .plus _ _ => 1
  | repetition .question _ _ => 1
  | group (some _) _ => 2
  | group none _ => 0

/-- Number of instructions of the program for a tree: those of its nodes, and three around them. -/
def programSize (e : Expr) : Nat := 3 + (e.nodes.map ownSize).sum

theorem allNodes_eq_flatMap (parts : List Expr) : allNodes parts = parts.flatMap nodes := by
  induction parts with
  | nil => rfl
  | cons e es ih => rw [allNodes, ih, List.flatMap_cons]

/-! ### Sizes -/

theorem blockSizes_eq_sum {parts : List Expr}
    (ih : ∀ e ∈ parts, e.blockSize = (e.nodes.map ownSize).sum) :
    blockSizes parts = ((allNodes parts).map ownSize).sum := by
  induction parts with
  | nil => rfl
  | cons e es ihes =>
    rw [blockSizes, allNodes, List.map_append, List.sum_append, ih e List.mem_cons_self,
      ihes fun e he => ih e (List.mem_cons_of_mem _ he)]

/-- The size of a block is made up of what its nodes have of their own. -/
theorem blockSize_eq_sum (e : Expr) : e.blockSize = (e.nodes.map ownSize).sum := by
  induction e with
  | literal c => rfl
  | concat parts ih =>
    rw [blockSize, blockSizes_eq_sum ih, nodes, List.map_cons, List.sum_cons, ownSize, Nat.zero_add]
  | alternation first second ih₁ ih₂ =>
    rw [blockSize, ih₁, ih₂, nodes, List.map_cons, List.map_append, List.sum_cons, List.sum_append,
      ownSize, Nat.add_comm]
  | repetition q greedy body ih =>
    rw [nodes, List.map_cons, List.sum_cons, ← ih]
    cases q <;> exact Nat.add_comm ..
  | group capture body ih =>
    rw [nodes, List.map_cons, List.sum_cons, ← ih]
    cases capture with
    | none => exact (Nat.zero_add _).symm
    | some index => exact Nat.add_comm ..

theorem length_listing_eq (e : Expr) : e.listing.length = e.programSize := by
  rw [length_listing, programSize, blockSize_eq_sum, Nat.add_comm]

/-! ### Indices -/

/-- The indices of a tree are those of the nodes that capture. -/
theorem mem_indices_iff (e : Expr) (index : Nat) :
    index ∈ e.indices ↔ ∃ body, group (some index) body ∈ e.nodes := by
  induction e with
  | literal c => simp [nodes]
  | concat parts ih =>
    simp only [indices_concat, nodes, allNodes_eq_flatMap, List.mem_flatMap, List.mem_cons,
      reduceCtorEq, false_or]
    constructor
    · rintro ⟨e, he, hindex⟩
      obtain ⟨body, hbody⟩ := (ih e he).mp hindex
      exact ⟨body, e, he, hbody⟩
    · rintro ⟨body, e, he, hbody⟩
      exact ⟨e, he, (ih e he).mpr ⟨body, hbody⟩⟩
  | alternation first second ih₁ ih₂ =>
    simp only [indices_alternation, nodes, List.mem_append, List.mem_cons, reduceCtorEq, false_or,
      ih₁, ih₂, exists_or]
  | repetition q greedy body ih =>
    simp only [indices_repetition, nodes, List.mem_cons, reduceCtorEq, false_or, ih]
  | group capture body ih =>
    cases capture with
    | none => simp [nodes, ih]
    | some other =>
      simp only [indices_group, nodes, List.mem_append, List.mem_cons, Option.toList_some,
        List.not_mem_nil, or_false, ih, group.injEq, Option.some.injEq, exists_or, exists_and_left,
        exists_eq, and_true]

theorem le_maxIndex {e : Expr} {index : Nat} (h : index ∈ e.indices) : index ≤ e.maxIndex :=
  (e.maxIndex_le_iff _).mp (Nat.le_refl _) index h

/-- The largest index is one of the tree, if it is not zero for want of any. -/
theorem maxIndex_eq_zero_or_mem (e : Expr) : e.maxIndex = 0 ∨ e.maxIndex ∈ e.indices := by
  by_contra hnone
  rw [not_or] at hnone
  -- otherwise all indices are below it, and so is their maximum
  have hbelow : e.maxIndex ≤ e.maxIndex - 1 := by
    refine (e.maxIndex_le_iff _).mpr fun index hindex => ?_
    have hne : index ≠ e.maxIndex := fun heq => hnone.2 (heq ▸ hindex)
    have := le_maxIndex hindex
    omega
  omega

/-! ## The only thing that can be wrong -/

theorem program_of_room {e : Expr} (h : e.maxIndex ≤ e.programSize) :
    ∃ p, e.program = .ok p ∧ p.size = e.programSize ∧ p.groups = e.maxIndex := by
  rw [← length_listing_eq, length_listing] at h
  obtain ⟨p, hp, hcode, hgroups⟩ := program_eq_ok h
  exact ⟨p, hp, by rw [Program.size, ← Array.length_toList, hcode, length_listing_eq], hgroups⟩

theorem program_of_no_room {e : Expr} (h : e.programSize < e.maxIndex) :
    e.program = .error ⟨0, .tooManyGroups e.maxIndex e.programSize⟩ := by
  rw [program_eq, Program.ofCode_eq_error_iff, Program.firstError?_eq_some_iff, List.size_toArray,
    length_listing_eq]
  refine .inr (.inl ⟨?_, h, rfl⟩)
  rw [programSize]
  omega

/-! ## In words -/

/-- Distances within code that fits the memory are signed words. -/
theorem isWord_of_relativeFrom {code : List (Instruction Nat)} {pc length : Nat}
    (hlength : (length : Int) < Word.maxValue) (hpc : pc + code.length ≤ length)
    (htargets : ∀ i ∈ code, ∀ target ∈ i.targets, target < length) :
    ∀ x ∈ Draft.labelsFrom pc (relativeFrom pc code), x.2.IsWord := by
  induction code generalizing pc with
  | nil => exact fun x hx => absurd hx List.not_mem_nil
  | cons i code ih =>
    rw [List.length_cons] at hpc
    rw [relativeFrom, Draft.labelsFrom_cons, List.forall_mem_append, List.forall_mem_map]
    refine ⟨fun label hlabel => ?_,
      ih (by omega) fun j hj => htargets j (List.mem_cons_of_mem _ hj)⟩
    have hword {target : Nat} (htarget : target ∈ i.targets) :
        Label.IsWord (.relative (target - pc)) := by
      have := htargets i List.mem_cons_self target htarget
      simp only [Label.IsWord, Word.minValue, Word.maxValue] at *
      omega
    cases i with
    | jump target =>
      obtain rfl := List.mem_singleton.mp hlabel
      exact hword List.mem_cons_self
    | split first second =>
      simp only [relativeTo, Instruction.targets, List.mem_cons, List.not_mem_nil,
        or_false] at hlabel
      rcases hlabel with rfl | rfl
      · exact hword List.mem_cons_self
      · exact hword (List.mem_cons_of_mem _ List.mem_cons_self)
    | char | accept | save | nop => cases hlabel

variable {e : Expr} {d : Draft}

/-- All slots are words if no index is too large. -/
theorem slot_le_of_draft (hd : e.draft = .ok d) (hindices : ∀ index ∈ e.indices, index ≤ 2 ^ 62)
    {pc slot : Nat} (hsave : d.code[pc]? = some (.save slot)) : slot ≤ Word.maxUnsigned := by
  rw [draft_eq] at hd
  obtain rfl := Except.ok.inj hd
  rw [Draft.save_iff_of_relativeFrom List.toList_toArray] at hsave
  have hslot := lt_of_save_mem_listing (List.mem_of_getElem? hsave)
  have hmax := (e.maxIndex_le_iff _).mpr hindices
  rw [Program.slotsFor] at hslot
  rw [Word.maxUnsigned]
  omega

/-- If the code fits the memory, it makes no difference that drafts are resolved in words. -/
theorem resolveInWords_of_draft (hd : e.draft = .ok d)
    (hsize : (e.programSize : Int) < Word.maxValue) :
    d.resolveInWords = (e.program.mapError .refused).map fun p => (p.code, p.groups) := by
  have hprogram : e.program = d.resolve := by rw [program, hd, Draft.ok_bind]
  rw [draft_eq] at hd
  obtain rfl := Except.ok.inj hd
  rw [hprogram]
  have hlength : (e.listing.length : Int) < Word.maxValue := by rwa [length_listing_eq]
  apply Draft.resolveInWords_eq
  · simpa using hlength
  · exact isWord_of_relativeFrom hlength (by omega) e.targets_listing

/-- **Room for groups**: a tree has a program exactly if the largest index of its groups is no
larger than the number of instructions, and otherwise it is refused for that. In words this is so as
well, as long as the code fits the memory; and no slot overflows if no index is beyond 2^62. -/
theorem program_iff_room (e : Expr) :
    (∀ index body, group (some index) body ∈ e.nodes → index ≤ e.maxIndex) ∧
    (e.maxIndex = 0 ∨ ∃ body, group (some e.maxIndex) body ∈ e.nodes) ∧
    ((∃ p, e.program = .ok p) ↔ e.maxIndex ≤ e.programSize) ∧
    (∀ p, e.program = .ok p → p.size = e.programSize ∧ p.groups = e.maxIndex) ∧
    (∀ error, e.program = .error error ↔
      e.programSize < e.maxIndex ∧ error = ⟨0, .tooManyGroups e.maxIndex e.programSize⟩) ∧
    ∃ d, e.draft = .ok d ∧ d.code.size = e.programSize ∧ d.groups = e.maxIndex ∧
      ((e.programSize : Int) < Word.maxValue →
        d.resolveInWords = (e.program.mapError .refused).map fun p => (p.code, p.groups)) ∧
      ((∀ index ∈ e.indices, index ≤ 2 ^ 62) →
        ∀ pc slot : Nat, d.code[pc]? = some (.save slot) → slot ≤ Word.maxUnsigned) := by
  have hattained := e.maxIndex_eq_zero_or_mem
  rw [mem_indices_iff] at hattained
  refine ⟨fun index body hbody => le_maxIndex ((e.mem_indices_iff index).mpr ⟨body, hbody⟩),
    hattained, ?_, ?_, ?_, _, e.draft_eq, ?_, rfl, resolveInWords_of_draft e.draft_eq,
    fun hindices pc slot => slot_le_of_draft e.draft_eq hindices⟩
  · constructor
    · rintro ⟨p, hp⟩
      by_contra hroom
      rw [program_of_no_room (Nat.not_le.mp hroom)] at hp
      cases hp
    · intro hroom
      obtain ⟨p, hp, -⟩ := program_of_room hroom
      exact ⟨p, hp⟩
  · intro p hp
    rcases Nat.lt_or_ge e.programSize e.maxIndex with hnone | hroom
    · rw [program_of_no_room hnone] at hp
      cases hp
    · obtain ⟨p', hp', hsize, hgroups⟩ := program_of_room hroom
      rw [hp'] at hp
      obtain rfl := Except.ok.inj hp
      exact ⟨hsize, hgroups⟩
  · intro error
    rcases Nat.lt_or_ge e.programSize e.maxIndex with hnone | hroom
    · rw [program_of_no_room hnone, Except.error.injEq, eq_comm, and_iff_right hnone]
    · obtain ⟨p, hp, -⟩ := program_of_room hroom
      simp [hp, Nat.not_lt.mpr hroom]
  · simp [length_listing_eq]

/-- One group with an index that fits, and the same group with the next index. -/
example : (group (some 5) (concat [])).maxIndex ≤ (group (some 5) (concat [])).programSize ∧
    (group (some 6) (concat [])).programSize < (group (some 6) (concat [])).maxIndex := by decide

end Expr

end RegexMachine
