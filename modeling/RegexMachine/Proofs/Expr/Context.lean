import RegexMachine.Proofs.Assembly.Placement
import RegexMachine.Proofs.Assembly.Slots

/-!
# Expressions in context

A context is an expression with one place left open: the layers around the place, the outermost one
first. What fills the place stands as one block within the block of the whole. Where it begins and
where it is left for depends on nothing but its size (`Context.site`), and so do all instructions
around it (`Context.exists_frame`).
-/

namespace RegexMachine

namespace Expr

/-- One layer around an expression. -/
inductive Layer where
  /-- a concatenation, with the parts before it and those behind it -/
  | part (before after : List Expr)
  /-- an alternation of which it is the first -/
  | first (other : Expr)
  /-- an alternation of which it is the second -/
  | second (other : Expr)
  /-- a repetition -/
  | body (q : Quantifier) (greedy : Bool)
  /-- a group -/
  | inside (capture : Option Nat)

/-- The layers around a place, the outermost one first. -/
abbrev Context : Type := List Layer

/-- Where a block begins and where it is left for. -/
structure Site where
  /-- its first instruction -/
  entry : Nat
  /-- where its holes lead -/
  exit : Nat

namespace Layer

/-- The layer with an expression inside. -/
def fill : Layer → Expr → Expr
  | part before after, e => concat (before ++ e :: after)
  | first other, e => alternation e other
  | second other, e => alternation other e
  | body q greedy, e => repetition q greedy e
  | inside capture, e => group capture e

/-- The size of the block, if the one inside has `n` instructions. -/
def size (n : Nat) : Layer → Nat
  | part before after => blockSizes before + (n + blockSizes after)
  | first other => n + other.blockSize + 2
  | second other => other.blockSize + n + 2
  | body .star _ => n + 2
  | body .plus _ | body .question _ => n + 1
  | inside (some _) => n + 2
  | inside none => n

/-- The site of the block inside, if that has `n` instructions. -/
def site (n : Nat) (s : Site) : Layer → Site
  | part before after =>
    let entry := s.entry + blockSizes before
    ⟨entry, if after.isEmpty then s.exit else entry + n⟩
  | first _ => ⟨s.entry + 1, s.exit⟩
  | second other => ⟨s.entry + other.blockSize + 2, s.exit⟩
  | body .star _ => ⟨s.entry + 1, s.entry + 1 + n⟩
  | body .plus _ => ⟨s.entry, s.entry + n⟩
  | body .question _ => ⟨s.entry + 1, s.exit⟩
  | inside (some _) => ⟨s.entry + 1, s.entry + 1 + n⟩
  | inside none => s

end Layer

namespace Context

/-- The context with an expression in its place. -/
def fill : Context → Expr → Expr
  | [], e => e
  | l :: C, e => l.fill (fill C e)

/-- The size of the block of the whole, if the one in its place has `n` instructions. -/
def size (n : Nat) : Context → Nat
  | [] => n
  | l :: C => l.size (size n C)

/-- The site of the block in the place, if that has `n` instructions. -/
def site (n : Nat) : Site → Context → Site
  | s, [] => s
  | s, l :: C => site n (l.site (size n C) s) C

@[simp] theorem fill_nil (e : Expr) : fill [] e = e := rfl

@[simp] theorem fill_cons (l : Layer) (C : Context) (e : Expr) :
    fill (l :: C) e = l.fill (fill C e) := rfl

end Context

/-! ## Sizes and groups -/

theorem blockSizes_append (before after : List Expr) :
    blockSizes (before ++ after) = blockSizes before + blockSizes after := by
  induction before with
  | nil => simp [blockSizes]
  | cons e es ih => rw [List.cons_append, blockSizes, blockSizes, ih, Nat.add_assoc]

theorem Layer.blockSize_fill (l : Layer) (e : Expr) :
    (l.fill e).blockSize = l.size e.blockSize := by
  cases l with
  | part before after => rw [fill, blockSize, blockSizes_append, blockSizes, size]
  | first other => rw [fill, blockSize, size]
  | second other => rw [fill, blockSize, size]
  | body q greedy => cases q <;> rw [fill, blockSize, size]
  | inside capture => cases capture <;> rw [fill, blockSize, size]

theorem Context.blockSize_fill (C : Context) (e : Expr) :
    (C.fill e).blockSize = C.size e.blockSize := by
  induction C with
  | nil => rfl
  | cons l C ih => rw [fill_cons, Layer.blockSize_fill, ih, size]

theorem indices_fill_congr (C : Context) {e f : Expr} (h : e.indices = f.indices) :
    (C.fill e).indices = (C.fill f).indices := by
  induction C with
  | nil => exact h
  | cons l C ih => cases l <;> simp [Layer.fill, ih]

theorem maxIndex_fill_congr (C : Context) {e f : Expr} (h : e.indices = f.indices) :
    (C.fill e).maxIndex = (C.fill f).maxIndex := by
  have hiff (n : Nat) : (C.fill e).maxIndex ≤ n ↔ (C.fill f).maxIndex ≤ n := by
    rw [maxIndex_le_iff, maxIndex_le_iff, indices_fill_congr C h]
  exact Nat.le_antisymm ((hiff _).mpr (Nat.le_refl _)) ((hiff _).mp (Nat.le_refl _))

/-! ## The block in the place -/

/-- Behind other parts, each of them is left for the next one. -/
theorem blocks_append_cons (before after : List Expr) (e : Expr) (entry exit : Nat) :
    blocks (before ++ e :: after) entry exit =
      blocks before entry (entry + blockSizes before) ++
        blocks (e :: after) (entry + blockSizes before) exit := by
  induction before generalizing entry with
  | nil => simp [blocks, blockSizes]
  | cons e' es ih =>
    have hnext : entry + blockSizes (e' :: es) = entry + e'.blockSize + blockSizes es := by
      rw [blockSizes, Nat.add_assoc]
    rw [List.cons_append, blocks, ih, hnext]
    cases es with
    | nil => simp [blocks, blockSizes]
    | cons e'' es => simp [blocks]

theorem blocks_append (before after : List Expr) (entry exit : Nat) :
    blocks (before ++ after) entry exit =
      blocks before entry (if after.isEmpty then exit else entry + blockSizes before) ++
        blocks after (entry + blockSizes before) exit := by
  cases after with
  | nil => simp [blocks]
  | cons e es => rw [blocks_append_cons, List.isEmpty_cons, if_neg Bool.false_ne_true]

/-- What is around the block inside of a layer. -/
theorem Layer.exists_frame (l : Layer) (n : Nat) (s : Site) :
    ∃ front rear, s.entry + front.length = (l.site n s).entry ∧
      ∀ e : Expr, e.blockSize = n → (l.fill e).block s.entry s.exit =
        front ++ e.block (l.site n s).entry (l.site n s).exit ++ rear := by
  cases l with
  | part before after =>
    have hlength : (blocks before s.entry (s.entry + blockSizes before)).length =
        blockSizes before := length_blocks (fun e _ => length_block e) _ _
    refine ⟨blocks before s.entry (s.entry + blockSizes before),
      blocks after (s.entry + blockSizes before + n) s.exit, by rw [hlength, site], ?_⟩
    rintro e rfl
    rw [fill, block, blocks_append_cons, blocks, site, List.append_assoc]
  | first other =>
    refine ⟨[.split (s.entry + 1) (s.entry + n + 2)],
      .jump s.exit :: other.block (s.entry + n + 2) s.exit, rfl, ?_⟩
    rintro e rfl
    rw [fill, block, site, List.singleton_append]
  | second other =>
    refine ⟨.split (s.entry + 1) (s.entry + other.blockSize + 2) ::
      other.block (s.entry + 1) s.exit ++ [.jump s.exit], [], ?_, ?_⟩
    · simp [site]
      omega
    · rintro e rfl
      simp [fill, block, site]
  | body q greedy =>
    cases q with
    | star =>
      refine ⟨[.fork greedy (s.entry + 1) s.exit], [.jump s.entry], rfl, ?_⟩
      rintro e rfl
      rw [fill, block, site, List.singleton_append]
    | plus =>
      refine ⟨[], [.fork greedy s.entry s.exit], rfl, ?_⟩
      rintro e rfl
      rw [fill, block, site, List.nil_append]
    | question =>
      refine ⟨[.fork greedy (s.entry + 1) s.exit], [], rfl, ?_⟩
      rintro e rfl
      rw [fill, block, site, List.singleton_append, List.append_nil]
  | inside capture =>
    cases capture with
    | none =>
      refine ⟨[], [], rfl, ?_⟩
      rintro e rfl
      rw [fill, block, site, List.nil_append, List.append_nil]
    | some index =>
      refine ⟨[.save (2 * index)], [.save (2 * index + 1)], rfl, ?_⟩
      rintro e rfl
      rw [fill, block, site, List.singleton_append]

/-- **Surroundings**: the instructions around the block in the place of a context. -/
theorem Context.exists_frame (C : Context) (n : Nat) (s : Site) :
    ∃ front rear, s.entry + front.length = (C.site n s).entry ∧
      ∀ e : Expr, e.blockSize = n → (C.fill e).block s.entry s.exit =
        front ++ e.block (C.site n s).entry (C.site n s).exit ++ rear := by
  induction C generalizing s with
  | nil =>
    refine ⟨[], [], rfl, ?_⟩
    rintro e rfl
    rw [fill_nil, site, List.nil_append, List.append_nil]
  | cons l C ih =>
    obtain ⟨front, rear, hlength, hblock⟩ := l.exists_frame (size n C) s
    obtain ⟨front', rear', hlength', hblock'⟩ := ih (l.site (size n C) s)
    refine ⟨front ++ front', rear' ++ rear, ?_, ?_⟩
    · rw [List.length_append, ← Nat.add_assoc, hlength, hlength', site]
    · rintro e rfl
      rw [fill_cons, hblock _ (blockSize_fill C e), hblock' e rfl, site]
      simp only [List.append_assoc]

theorem Layer.holds_fill {p : Program} {l : Layer} {e : Expr} {s : Site}
    (h : p.Holds s.entry ((l.fill e).block s.entry s.exit)) :
    p.Holds (l.site e.blockSize s).entry
      (e.block (l.site e.blockSize s).entry (l.site e.blockSize s).exit) := by
  obtain ⟨front, rear, hlength, hblock⟩ := l.exists_frame e.blockSize s
  rw [hblock e rfl, List.append_assoc, Program.holds_append, Program.holds_append, hlength] at h
  exact h.2.1

end Expr

end RegexMachine
