import RegexMachine.Proofs.Assembly.Layout

/-!
# Patching gives the layout

`Draft.assemble` does not know the exit of a block while it writes it. What it leaves is an *open*
block together with its holes, and `Fills` says what becomes of that when the holes are patched,
wherever in a draft the block stands. `Draft.assemblesTo` is by induction on the expression: the
open block it appends is filled to the block of `Proofs.Assembly.Layout`, whatever the exit is. The
loop over alternatives in a row is first turned into the recursion that the layout follows
(`Draft.assemble_alternation`).
-/

namespace RegexMachine

open Instruction (relativeTo relativeFrom relativeFrom_append)

namespace Draft

/-- A draft given by its list of instructions. -/
def ofList (code : List (Instruction Label)) (groups : Nat) : Draft := ⟨code.toArray, groups⟩

variable {code : List (Instruction Label)} {groups : Nat}

@[simp] theorem pc_ofList : (ofList code groups).pc = code.length := rfl

@[simp] theorem emit_ofList (i : Instruction Label) :
    (ofList code groups).emit i = ofList (code ++ [i]) groups := by
  simp [ofList, emit]

@[simp] theorem noteGroup_ofList (index : Nat) :
    (ofList code groups).noteGroup index = ofList code (max groups index) := rfl

@[simp] theorem patch_nil (d : Draft) (target : Nat) : d.patch target [] = .ok d := rfl

theorem patch_append (d : Draft) (target : Nat) (holes more : List Hole) :
    d.patch target (holes ++ more) = d.patch target holes >>= fun d => d.patch target more := by
  induction holes generalizing d with
  | nil => rfl
  | cons hole holes ih =>
    rw [List.cons_append, patch, patch]
    split
    · exact ih _
    · rfl

/-! ## Alternatives in a row -/

theorem ok_bind {ε α β : Type} (a : α) (f : α → Except ε β) : (Except.ok a >>= f) = f a := rfl

/-- The exits of earlier alternatives are carried along by the loop. -/
theorem assembleChoices_append (d : Draft) (before exits : List Hole) (first second : Expr) :
    d.assembleChoices (before ++ exits) first second =
      (d.assembleChoices exits first second).map fun (d, holes) => (d, before ++ holes) := by
  induction second generalizing d exits first with
  | alternation f s _ ih =>
    rw [assembleChoices, assembleChoices]
    obtain ⟨d, choice⟩ := d.emitSplit (d.pc + 1) true
    dsimp only
    rcases d.assemble first with e | ⟨d, holes⟩
    · rfl
    dsimp only [ok_bind]
    rcases (d.emit (.jump .hole)).patch (d.emit (.jump .hole)).pc [choice] with e | d
    · rfl
    rw [ok_bind, ok_bind, List.append_assoc before, List.append_assoc before, ih]
  | _ =>
    -- the loop ends here
    rw [assembleChoices, assembleChoices]
    obtain ⟨d, choice⟩ := d.emitSplit (d.pc + 1) true
    dsimp only
    rcases d.assemble first with e | ⟨d, holes⟩
    · rfl
    dsimp only [ok_bind]
    rcases (d.emit (.jump .hole)).patch (d.emit (.jump .hole)).pc [choice] with e | d
    · rfl
    dsimp only [ok_bind]
    rcases d.assemble _ with e | ⟨d, more⟩
    · rfl
    simp [ok_bind, Except.map]

/-- The loop over the alternatives does what a recursion over the tree would do. -/
theorem assemble_alternation (d : Draft) (first second : Expr) :
    d.assemble (.alternation first second) = (do
      let (d, choice) := d.emitSplit (d.pc + 1) true
      let (d, exits) ← d.assemble first
      let exit : Hole := ⟨d.pc, .first⟩
      let d := d.emit (.jump .hole)
      let d ← d.patch d.pc [choice]
      let (d, more) ← d.assemble second
      .ok (d, exits ++ exit :: more)) := by
  rw [assemble, assembleChoices]
  obtain ⟨d, choice⟩ := d.emitSplit (d.pc + 1) true
  dsimp only
  rcases d.assemble first with e | ⟨d, exits⟩
  · rfl
  dsimp only [ok_bind]
  rcases (d.emit (.jump .hole)).patch (d.emit (.jump .hole)).pc [choice] with e | d'
  · rfl
  dsimp only [ok_bind]
  cases second with
  | alternation f s =>
    dsimp only
    rw [List.nil_append, ← List.append_nil (exits ++ _), assembleChoices_append, assemble]
    rcases d'.assembleChoices [] f s with e | ⟨d', more⟩
    · rfl
    simp [ok_bind, Except.map]
  | _ => simp

/-! ## Filling an open block -/

/-- Patching the holes of a block at `entry` to `exit` turns the open block into the closed one. -/
def Fills (entry exit : Nat) (holes : List Hole) (opened closed : List (Instruction Label)) :
    Prop :=
  ∀ (before after : List (Instruction Label)) (groups : Nat), before.length = entry →
    (ofList (before ++ (opened ++ after)) groups).patch exit holes =
      .ok (ofList (before ++ (closed ++ after)) groups)

namespace Fills

variable {entry exit : Nat} {holes more : List Hole}
    {opened middle closed : List (Instruction Label)}

theorem nil (block : List (Instruction Label)) : Fills entry exit [] block block :=
  fun _ _ _ _ => rfl

theorem trans (h : Fills entry exit holes opened middle)
    (h' : Fills entry exit more middle closed) :
    Fills entry exit (holes ++ more) opened closed := by
  intro before after groups hentry
  rw [patch_append, h before after groups hentry]
  exact h' before after groups hentry

/-- What stands behind the block stays. -/
theorem append_right (h : Fills entry exit holes opened closed) (block : List (Instruction Label)) :
    Fills entry exit holes (opened ++ block) (closed ++ block) := by
  intro before after groups hentry
  simpa using h before (block ++ after) groups hentry

/-- What stands before the block stays. -/
theorem append_left {start : Nat} (h : Fills start exit holes opened closed)
    (block : List (Instruction Label)) (hstart : entry + block.length = start) :
    Fills entry exit holes (block ++ opened) (block ++ closed) := by
  intro before after groups hentry
  simpa using h (before ++ block) after groups (by simp [hentry, hstart])

/-- The block at the end of a draft. -/
theorem patch_ofList (h : Fills entry exit holes opened closed) (before : List (Instruction Label))
    (hentry : before.length = entry) (groups : Nat) :
    (ofList (before ++ opened) groups).patch exit holes =
      .ok (ofList (before ++ closed) groups) := by
  simpa using h before [] groups hentry

/-- A single hole. -/
theorem of_fill? {i j : Instruction Label} {operand : Operand}
    (h : i.fill? (.between entry exit) operand = some j) :
    Fills entry exit [⟨entry, operand⟩] [i] [j] := by
  intro before after groups hentry
  subst hentry
  have hat : (ofList (before ++ ([i] ++ after)) groups).code[before.length]? = some i := by
    simp [ofList]
  rw [patch, hat, Option.bind_some, h]
  simp [ofList]

end Fills

/-- The jump that a draft takes over as a hole. -/
theorem fills_jump (entry exit : Nat) :
    Fills entry exit [⟨entry, .first⟩] [.jump .hole] [relativeTo entry (.jump exit)] :=
  .of_fill? rfl

/-- A split with one operand open, as `emitSplit` makes it. -/
def openFork (pc target : Nat) (preferTarget : Bool) : Instruction Label :=
  if preferTarget then .split (.between pc target) .hole else .split .hole (.between pc target)

/-- The hole of such a split. -/
def forkHole (pc : Nat) (preferTarget : Bool) : Hole :=
  ⟨pc, if preferTarget then .second else .first⟩

theorem emitSplit_ofList (target : Nat) (preferTarget : Bool) :
    (ofList code groups).emitSplit target preferTarget =
      (ofList (code ++ [openFork code.length target preferTarget]) groups,
        forkHole code.length preferTarget) := by
  cases preferTarget <;> simp [emitSplit, openFork, forkHole]

theorem fills_fork (entry exit target : Nat) (greedy : Bool) :
    Fills entry exit [forkHole entry greedy] [openFork entry target greedy]
      [relativeTo entry (.fork greedy target exit)] := by
  cases greedy <;> exact .of_fill? rfl

/-! ## Assembling -/

/-- Assembling the expression appends an open block that is filled to its block for every exit. -/
def AssemblesTo (e : Expr) : Prop :=
  ∀ (entry : Nat) (code : List (Instruction Label)) (groups : Nat), code.length = entry →
    ∃ opened holes,
      (ofList code groups).assemble e =
        .ok (ofList (code ++ opened) (max groups e.maxIndex), holes) ∧
      opened.length = e.blockSize ∧
      ∀ exit, Fills entry exit holes opened (relativeFrom entry (e.block entry exit))

namespace AssemblesTo

theorem literal (c : Char) : AssemblesTo (.literal c) := by
  intro entry code groups hentry
  refine ⟨[.char c], [], ?_, rfl, fun exit => .nil _⟩
  simp [assemble, Expr.maxIndex]

/-- The holes of an alternation are those of its parts, and the jump between them. -/
theorem fills_alternation {first second : Expr} {entry other exit : Nat} {exits more : List Hole}
    {opened₁ opened₂ : List (Instruction Label)} (hother : entry + first.blockSize + 2 = other)
    (h₁ : Fills (entry + 1) exit exits opened₁
      (relativeFrom (entry + 1) (first.block (entry + 1) exit)))
    (h₂ : Fills other exit more opened₂ (relativeFrom other (second.block other exit))) :
    Fills entry exit (exits ++ ([⟨entry + 1 + first.blockSize, .first⟩] ++ more))
      (relativeTo entry (.split (entry + 1) other) :: (opened₁ ++ .jump .hole :: opened₂))
      (relativeFrom entry ((first.alternation second).block entry exit)) := by
  let choice := relativeTo entry (.split (entry + 1) other)
  have hclosed : relativeFrom entry ((first.alternation second).block entry exit) =
      choice :: (relativeFrom (entry + 1) (first.block (entry + 1) exit) ++
        relativeTo (entry + 1 + first.blockSize) (.jump exit) ::
          relativeFrom other (second.block other exit)) := by
    have hnext : entry + 1 + first.blockSize + 1 = other := by omega
    simp [Expr.block, relativeFrom, relativeFrom_append, hnext, choice, hother]
  have hexits : Fills entry exit exits _ _ :=
    (h₁.append_right (.jump .hole :: opened₂)).append_left [choice] rfl
  have hjump : Fills entry exit [⟨entry + 1 + first.blockSize, .first⟩] _ _ :=
    ((fills_jump (entry + 1 + first.blockSize) exit).append_right opened₂).append_left
      (choice :: relativeFrom (entry + 1) (first.block (entry + 1) exit)) (by simp; omega)
  have hmore : Fills entry exit more _ _ :=
    h₂.append_left (choice :: (relativeFrom (entry + 1) (first.block (entry + 1) exit) ++
      [relativeTo (entry + 1 + first.blockSize) (.jump exit)])) (by simp; omega)
  rw [hclosed]
  refine hexits.trans (hjump.trans ?_)
  simpa using hmore

theorem alternation {first second : Expr} (ih₁ : AssemblesTo first) (ih₂ : AssemblesTo second) :
    AssemblesTo (.alternation first second) := by
  intro entry code groups hentry
  obtain ⟨other, hother⟩ : ∃ other, entry + first.blockSize + 2 = other := ⟨_, rfl⟩
  obtain ⟨opened₁, exits, hassemble₁, hlength₁, hfills₁⟩ :=
    ih₁ (entry + 1) (code ++ [openFork entry (entry + 1) true]) groups (by simp [hentry])
  have hbar : ∀ i, (code ++ i :: opened₁).length = entry + 1 + first.blockSize := by
    intro i
    simp [hentry, hlength₁]
    omega
  have hafter : ∀ i j, (code ++ i :: (opened₁ ++ [j])).length = other := by
    intro i j
    simp [hentry, hlength₁]
    omega
  -- the split is patched as soon as the first block and its jump are there
  have hpatch := ((fills_fork entry other (entry + 1) true).append_right
    (opened₁ ++ [.jump .hole])).patch_ofList code hentry (max groups first.maxIndex)
  obtain ⟨opened₂, more, hassemble₂, hlength₂, hfills₂⟩ :=
    ih₂ other (code ++ relativeTo entry (.split (entry + 1) other) :: (opened₁ ++ [.jump .hole]))
      (max groups first.maxIndex) (hafter _ _)
  refine ⟨relativeTo entry (.split (entry + 1) other) :: (opened₁ ++ .jump .hole :: opened₂),
    exits ++ ([⟨entry + 1 + first.blockSize, .first⟩] ++ more), ?_, ?_,
    fun exit => fills_alternation hother (hfills₁ exit) (hfills₂ exit)⟩
  · simp only [Instruction.fork, if_true, List.cons_append, List.nil_append] at hpatch
    rw [assemble_alternation]
    simp only [emitSplit_ofList, pc_ofList, hentry, hassemble₁, ok_bind, emit_ofList,
      List.append_assoc, List.cons_append, List.nil_append, hbar, hafter, hpatch, hassemble₂,
      Expr.maxIndex, Nat.max_assoc]
  · simp [Expr.blockSize, hlength₁, hlength₂]
    omega

theorem star {body : Expr} (ih : AssemblesTo body) (greedy : Bool) :
    AssemblesTo (.repetition .star greedy body) := by
  intro entry code groups hentry
  obtain ⟨back, hback⟩ : ∃ back, entry + 1 + body.blockSize = back := ⟨_, rfl⟩
  obtain ⟨opened, holes, hassemble, hlength, hfills⟩ :=
    ih (entry + 1) (code ++ [openFork entry (entry + 1) greedy]) groups (by simp [hentry])
  have hafter : (code ++ openFork entry (entry + 1) greedy :: opened).length = back := by
    simp [hentry, hlength]
    omega
  have hholes : Fills entry back holes _ _ :=
    ((hfills back).append_right [relativeTo back (.jump entry)]).append_left
      [openFork entry (entry + 1) greedy] rfl
  have hpatch := hholes.patch_ofList code hentry (max groups body.maxIndex)
  refine ⟨openFork entry (entry + 1) greedy ::
      (relativeFrom (entry + 1) (body.block (entry + 1) back) ++ [relativeTo back (.jump entry)]),
    [forkHole entry greedy], ?_, ?_, fun exit => ?_⟩
  · simp only [List.cons_append, List.nil_append, relativeTo] at hpatch
    simp only [assemble, emitSplit_ofList, pc_ofList, hentry, hassemble, ok_bind, emit_ofList,
      List.append_assoc, List.cons_append, List.nil_append, hafter, Label.between, hpatch,
      Expr.maxIndex, relativeTo]
  · simp [Expr.blockSize]
  · have hfork := (fills_fork entry exit (entry + 1) greedy).append_right
      (relativeFrom (entry + 1) (body.block (entry + 1) back) ++ [relativeTo back (.jump entry)])
    simpa [Expr.block, relativeFrom, relativeFrom_append, hback] using hfork

theorem plus {body : Expr} (ih : AssemblesTo body) (greedy : Bool) :
    AssemblesTo (.repetition .plus greedy body) := by
  intro entry code groups hentry
  obtain ⟨opened, holes, hassemble, hlength, hfills⟩ := ih entry code groups hentry
  obtain ⟨last, hlast⟩ : ∃ last, entry + body.blockSize = last := ⟨_, rfl⟩
  have hafter : (code ++ opened).length = last := by simp [hentry, hlength, hlast]
  have hafter' : (code ++ relativeFrom entry (body.block entry last)).length = last := by
    simp [hentry, hlast]
  -- the body is left for the split, which is written behind it
  have hpatch := (hfills last).patch_ofList code hentry (max groups body.maxIndex)
  refine ⟨relativeFrom entry (body.block entry last) ++ [openFork last entry greedy],
    [forkHole last greedy], ?_, ?_, fun exit => ?_⟩
  · simp only [assemble, pc_ofList, hentry, hassemble, ok_bind, hafter, hpatch, emitSplit_ofList,
      hafter', List.append_assoc, Expr.maxIndex]
  · simp [Expr.blockSize]
  · have hfork : Fills entry exit [forkHole last greedy] _ _ :=
      (fills_fork last exit entry greedy).append_left
        (relativeFrom entry (body.block entry last)) (by simp [hlast])
    simpa [Expr.block, relativeFrom, relativeFrom_append, hlast] using hfork

theorem question {body : Expr} (ih : AssemblesTo body) (greedy : Bool) :
    AssemblesTo (.repetition .question greedy body) := by
  intro entry code groups hentry
  obtain ⟨opened, holes, hassemble, hlength, hfills⟩ :=
    ih (entry + 1) (code ++ [openFork entry (entry + 1) greedy]) groups (by simp [hentry])
  refine ⟨openFork entry (entry + 1) greedy :: opened, holes ++ [forkHole entry greedy], ?_, ?_,
    fun exit => ?_⟩
  · simp only [assemble, emitSplit_ofList, pc_ofList, hentry, hassemble, ok_bind,
      List.append_assoc, List.cons_append, List.nil_append, Expr.maxIndex]
  · simp [Expr.blockSize, hlength]
  · have hholes : Fills entry exit holes _ _ :=
      (hfills exit).append_left [openFork entry (entry + 1) greedy] rfl
    have hfork := (fills_fork entry exit (entry + 1) greedy).append_right
      (relativeFrom (entry + 1) (body.block (entry + 1) exit))
    exact hholes.trans hfork

theorem group {body : Expr} (ih : AssemblesTo body) (capture : Option Nat) :
    AssemblesTo (.group capture body) := by
  intro entry code groups hentry
  cases capture with
  | none =>
    obtain ⟨opened, holes, hassemble, hlength, hfills⟩ := ih entry code groups hentry
    refine ⟨opened, holes, ?_, by simpa [Expr.blockSize] using hlength, fun exit => ?_⟩
    · simpa [assemble, Expr.maxIndex] using hassemble
    · simpa [Expr.block] using hfills exit
  | some index =>
    obtain ⟨last, hlast⟩ : ∃ last, entry + 1 + body.blockSize = last := ⟨_, rfl⟩
    obtain ⟨opened, holes, hassemble, hlength, hfills⟩ :=
      ih (entry + 1) (code ++ [.save (2 * index)]) (max groups index) (by simp [hentry])
    have hafter : (code ++ .save (2 * index) :: opened).length = last := by
      simp [hentry, hlength]
      omega
    have hholes : Fills entry last holes _ _ :=
      (hfills last).append_left [.save (2 * index)] rfl
    have hpatch := hholes.patch_ofList code hentry (max (max groups index) body.maxIndex)
    refine ⟨.save (2 * index) :: (relativeFrom (entry + 1) (body.block (entry + 1) last) ++
      [.save (2 * index + 1)]), [], ?_, ?_, fun exit => ?_⟩
    · simp only [List.cons_append, List.nil_append, Nat.max_assoc] at hpatch
      simp only [assemble, noteGroup_ofList, emit_ofList, hassemble, ok_bind, pc_ofList,
        List.append_assoc, List.cons_append, List.nil_append, hafter, hpatch, Expr.maxIndex,
        Option.getD_some, Nat.max_assoc]
    · simp [Expr.blockSize]
    · simpa [Expr.block, relativeFrom, relativeFrom_append, relativeTo, hlast] using Fills.nil _

/-- The parts of a concatenation, behind an open block that is left for the first of them. -/
theorem parts {parts : List Expr} (ih : ∀ e ∈ parts, AssemblesTo e) :
    ∀ {start entry : Nat} {code : List (Instruction Label)} {holes : List Hole}
      (opened : List (Instruction Label)) (closed : Nat → List (Instruction Label)) (groups : Nat),
      code.length = start → start + opened.length = entry →
      (∀ exit, (closed exit).length = opened.length) →
      (∀ exit, Fills start exit holes opened (closed exit)) →
      ∃ opened' holes',
        (ofList (code ++ opened) groups).assembleAll holes parts =
          .ok (ofList (code ++ opened') (max groups (Expr.maxIndices parts)), holes') ∧
        opened'.length = opened.length + Expr.blockSizes parts ∧
        ∀ exit, Fills start exit holes' opened'
          (closed (if parts.isEmpty then exit else entry) ++
            relativeFrom entry (Expr.blocks parts entry exit)) := by
  induction parts with
  | nil =>
    intro start entry code holes opened closed groups hstart hentry hlength hfills
    refine ⟨opened, holes, ?_, rfl, fun exit => ?_⟩
    · simp [assembleAll, Expr.maxIndices]
    · simpa [Expr.blocks, relativeFrom] using hfills exit
  | cons e es ihes =>
    intro start entry code holes opened closed groups hstart hentry hlength hfills
    have hpatch := (hfills entry).patch_ofList code hstart groups
    have hclosed : (code ++ closed entry).length = entry := by
      simp [hstart, hlength, hentry]
    obtain ⟨opened₁, holes₁, hassemble₁, hlength₁, hfills₁⟩ :=
      ih e List.mem_cons_self entry (code ++ closed entry) groups hclosed
    obtain ⟨opened₂, holes₂, hassemble₂, hlength₂, hfills₂⟩ :=
      ihes (fun e he => ih e (List.mem_cons_of_mem _ he)) _ _ (max groups e.maxIndex) hclosed rfl
        (fun exit => by simp [hlength₁]) hfills₁
    refine ⟨closed entry ++ opened₂, holes₂, ?_, ?_, fun exit => ?_⟩
    · have hafter : (code ++ opened).length = entry := by simp [hstart, hentry]
      simp only [assembleAll, pc_ofList, hafter, hpatch, ok_bind, hassemble₁, hassemble₂,
        Expr.maxIndices, ← List.append_assoc, ← Nat.max_assoc]
    · simp [hlength₂, hlength₁, hlength, Expr.blockSizes]
    · have hnext : entry + opened₁.length = entry + e.blockSize := by rw [hlength₁]
      have hes : Fills start exit holes₂ _ _ :=
        (hfills₂ exit).append_left (closed entry) (by simp [hlength, hentry])
      simpa [Expr.blocks, relativeFrom_append, hnext] using hes

theorem concat {parts : List Expr} (ih : ∀ e ∈ parts, AssemblesTo e) :
    AssemblesTo (.concat parts) := by
  intro entry code groups hentry
  obtain ⟨opened, holes, hassemble, hlength, hfills⟩ :=
    AssemblesTo.parts ih [] (fun _ => []) groups hentry rfl (fun _ => rfl) fun exit => .nil _
  refine ⟨opened, holes, ?_, ?_, fun exit => ?_⟩
  · simpa [assemble, Expr.maxIndex] using hassemble
  · simpa [Expr.blockSize] using hlength
  · simpa [Expr.block] using hfills exit

end AssemblesTo

theorem assemblesTo (e : Expr) : AssemblesTo e := by
  induction e with
  | literal c => exact .literal c
  | concat parts ih => exact .concat ih
  | alternation first second ih₁ ih₂ => exact .alternation ih₁ ih₂
  | repetition q greedy body ih =>
    cases q with
    | star => exact ih.star greedy
    | plus => exact ih.plus greedy
    | question => exact ih.question greedy
  | group capture body ih => exact ih.group capture

end Draft

namespace Expr

theorem draft_eq (e : Expr) :
    e.draft = .ok ⟨(relativeFrom 0 e.listing).toArray, e.maxIndex⟩ := by
  obtain ⟨opened, holes, hassemble, hlength, hfills⟩ :=
    Draft.assemblesTo e 1 [.save 0] 0 rfl
  have hafter : ([.save 0] ++ opened : List (Instruction Label)).length = 1 + e.blockSize := by
    simp [hlength]
    omega
  have hpatch := (hfills (1 + e.blockSize)).patch_ofList [.save 0] rfl (max 0 e.maxIndex)
  have hempty : Draft.empty.emit (.save 0) = Draft.ofList [.save 0] 0 := rfl
  rw [draft, hempty, hassemble]
  simp only [Draft.ok_bind, Draft.pc_ofList, hafter, hpatch, Draft.emit_ofList]
  simp [Draft.ofList, listing, relativeFrom, relativeFrom_append, relativeTo]

/-- **Patching gives the layout**: no hole is patched twice or missed. The draft of an expression is
its listing, with the exact distance to every target. -/
theorem draft_is_listing (e : Expr) :
    ∃ d, e.draft = .ok d ∧ d.code.toList = relativeFrom 0 e.listing ∧ d.groups = e.maxIndex :=
  ⟨_, e.draft_eq, List.toList_toArray, rfl⟩

example : (alternation (repetition .star false (literal 'a')) (concat [])).listing =
    [.save 0, .split 2 6, .split 6 3, .char 'a', .jump 2, .jump 6, .save 1, .accept] := rfl

end Expr

end RegexMachine
