import RegexMachine.Proofs.Expr.Home
import RegexMachine.Proofs.Expr.Relocation
import RegexMachine.Proofs.Run.Relay
import RegexMachine.Proofs.Run.Rotation
import Mathlib.Logic.Relation

/-!
# Grouping without captures

How an expression is grouped makes no difference as long as the groups do not capture: alternatives
in a row may nest to either side, a concatenation may be part of another one, and a single part may
stand for itself (`Regrouping`). The programs of both forms have the same size, and mostly they are
the same. They differ

* **at the end** — where an empty part is at the end of a concatenation, the parts before it are
  left for the end of the block, from where a jump may lead to the exit (`Program.Relay`);
* **at the start** — where alternatives nest to the other side, two splits do (`Program.Rotation`).

In both cases the machines stay in step, in every context and for loops with empty rounds as well.
-/

namespace RegexMachine

namespace Expr

/-- One change of grouping. -/
inductive Regrouping : Expr → Expr → Prop where
  /-- alternatives in a row nest to the right or to the left -/
  | reassociate (e f g : Expr) :
      Regrouping (alternation (alternation e f) g) (alternation e (alternation f g))
  /-- a concatenation that is part of another one, and may be empty -/
  | flatten (before parts after : List Expr) :
      Regrouping (concat (before ++ concat parts :: after)) (concat (before ++ parts ++ after))
  /-- a single part -/
  | unwrap (e : Expr) : Regrouping (concat [e]) e
  /-- a group that does not capture -/
  | ungroup (e : Expr) : Regrouping (group none e) e

/-- The expressions are the same but for changes of grouping at any places. -/
def SameButGrouping : Expr → Expr → Prop :=
  Relation.EqvGen fun e f =>
    ∃ (C : Context) (x y : Expr), Regrouping x y ∧ e = C.fill x ∧ f = C.fill y

variable {p q : Program} {e f : Expr}

/-! ## Size and groups -/

theorem Regrouping.blockSize_eq (h : Regrouping e f) : e.blockSize = f.blockSize := by
  cases h with
  | reassociate e f g =>
    simp only [blockSize]
    omega
  | flatten before parts after =>
    simp only [blockSize, blockSizes_append, blockSizes]
    omega
  | unwrap e => rw [blockSize, blockSizes, blockSizes, Nat.add_zero]
  | ungroup e => rw [blockSize]

theorem Regrouping.indices_eq (h : Regrouping e f) : e.indices = f.indices := by
  cases h with
  | reassociate e f g => simp
  | flatten before parts after => simp
  | unwrap e => simp
  | ungroup e => simp

/-! ## The same code -/

theorem block_unwrap (e : Expr) (entry exit : Nat) :
    (concat [e]).block entry exit = e.block entry exit := by
  rw [block, blocks, blocks, List.append_nil, List.isEmpty_nil, if_pos rfl]

theorem block_ungroup (e : Expr) (entry exit : Nat) :
    (group none e).block entry exit = e.block entry exit := by
  rw [block]

/-- A concatenation as part of another one, if it has parts or others follow it. -/
theorem block_flatten (before parts after : List Expr) (hmore : (parts ++ after).isEmpty = false)
    (entry exit : Nat) :
    (concat (before ++ concat parts :: after)).block entry exit =
      (concat (before ++ parts ++ after)).block entry exit := by
  rw [block, block, blocks_append_cons, List.append_assoc, blocks_append before (parts ++ after),
    blocks_append parts after, blocks, block, blockSize, hmore, if_neg Bool.false_ne_true]

/-! ## An empty part at the end -/

theorem blockSize_flatten_nil (before : List Expr) :
    (concat (before ++ [concat []])).blockSize = blockSizes before := by
  rw [blockSize, blockSizes_append, blockSizes, blockSize, blockSizes, Nat.add_zero]

theorem block_flatten_nil (before : List Expr) (entry exit : Nat) :
    (concat (before ++ [concat []])).block entry exit =
      (concat before).block entry (entry + blockSizes before) := by
  rw [block, block, blocks_append_cons, blocks, block, blocks, blocks, List.append_nil,
    List.append_nil]

section

variable {C : Context} {before : List Expr}

/-- The end of the block is a relay, unless it is the exit. -/
theorem relay_flatten_nil (hp : (C.fill (concat (before ++ [concat []]))).program = .ok p)
    (hq : (C.fill (concat before)).program = .ok q) {home : Site}
    (hhome : C.home (blockSizes before) = home)
    (hexit : home.exit ≠ home.entry + blockSizes before) :
    p.Relay q (home.entry + blockSizes before) home.exit := by
  have hsize := blockSize_flatten_nil before
  have hholds := holds_home hp
  have hholds' := holds_home hq
  have hends := ends_home hp
  have hends' := ends_home hq
  rw [hsize, hhome, block_flatten_nil] at hholds
  rw [hsize, hhome] at hends
  rw [blockSize, hhome] at hholds' hends'
  have hinside : ∀ i < (concat before).blockSize,
      p.Alike q (Program.Towards (home.entry + blockSizes before) home.exit)
        (home.entry + i) (home.entry + i) :=
    alike_block hholds hholds' (.inr ⟨.inl rfl, .inr rfl⟩) fun _ _ => .inl rfl
  rw [blockSize] at hinside
  refine ⟨hends.resolve_left hexit, hends'.resolve_left hexit, hexit, fun pc _ => ?_,
    size_eq_of_blockSize_eq ?_ hp hq, groups_eq_of_indices_eq ?_ hp hq⟩
  · by_cases hpc : home.entry ≤ pc ∧ pc < home.entry + blockSizes before
    · have halike := hinside (pc - home.entry) (by omega)
      rwa [Nat.add_sub_cancel' hpc.1] at halike
    · apply Program.alike_self
      · apply code_outside _ hp hq
        · rwa [hsize, hhome]
        · rw [hsize, blockSize]
      · exact fun _ _ => ⟨fun t _ => .inl rfl, fun _ => .inl rfl⟩
  · rw [C.blockSize_fill, C.blockSize_fill, hsize, blockSize]
  · simp

end

/-! ## Alternatives in a row -/

/-- Where the first of three alternatives, of `n` instructions, is shifted by one. -/
def Shifted (entry n a b : Nat) : Prop :=
  entry < a ∧ a ≤ entry + n + 1 ∧ b = a + 1 ∨ ¬ (entry < a ∧ a ≤ entry + n + 2) ∧ b = a

/-- The splits and the alternatives, if the alternatives nest to the right. -/
def waysRight (entry : Nat) (e f : Expr) : Program.Ways where
  outer := entry
  inner := entry + e.blockSize + 2
  first := entry + 1
  second := entry + e.blockSize + 2 + 1
  third := entry + e.blockSize + 2 + f.blockSize + 2

/-- The splits and the alternatives, if the alternatives nest to the left. -/
def waysLeft (entry : Nat) (e f : Expr) : Program.Ways where
  outer := entry
  inner := entry + 1
  first := entry + 1 + 1
  second := entry + 1 + e.blockSize + 2
  third := entry + (e.blockSize + f.blockSize + 2) + 2

section

variable {C : Context} {e f g : Expr}

theorem unique_shifted {entry n a b c d : Nat} (hab : Shifted entry n a b)
    (hcd : Shifted entry n c d) : c = a ↔ d = b := by
  rw [Shifted] at hab hcd
  omega

/-- Within the block, the three alternatives do the same in both forms. -/
theorem alike_reassociate {entry exit : Nat}
    (hp : p.Holds entry ((alternation e (alternation f g)).block entry exit))
    (hq : q.Holds entry ((alternation (alternation e f) g).block entry exit))
    (hexit : entry + (e.blockSize + (f.blockSize + g.blockSize + 2) + 2) ≤ exit) {a b : Nat}
    (hab : Shifted entry e.blockSize a b) (hlt : entry < a)
    (hle : a < entry + (e.blockSize + (f.blockSize + g.blockSize + 2) + 2)) :
    p.Alike q (Shifted entry e.blockSize) a b := by
  obtain ⟨-, hfirst, hjump, hrest⟩ := holds_alternation.mp hp
  obtain ⟨-, hsecond, hjump', hthird⟩ := holds_alternation.mp hrest
  obtain ⟨-, hrest', hjump₂', hthird'⟩ := holds_alternation.mp hq
  obtain ⟨-, hfirst', hjump₂, hsecond'⟩ := holds_alternation.mp hrest'
  have hsecond_eq : entry + 1 + e.blockSize + 2 = entry + e.blockSize + 2 + 1 := by omega
  have hthird_eq : entry + (alternation e f).blockSize + 2 =
      entry + e.blockSize + 2 + f.blockSize + 2 := by
    rw [blockSize]
    omega
  have hjump_eq : entry + 1 + (alternation e f).blockSize =
      entry + e.blockSize + 2 + 1 + f.blockSize := by
    rw [blockSize]
    omega
  rw [hsecond_eq] at hsecond'
  rw [hthird_eq] at hthird'
  rw [hjump_eq] at hjump₂'
  have hexit : Shifted entry e.blockSize exit exit := .inr ⟨by omega, rfl⟩
  rcases hab with ⟨-, hend, rfl⟩ | ⟨hsame, rfl⟩
  · obtain ⟨i, rfl⟩ := Nat.exists_eq_add_of_le (Nat.succ_le_of_lt hlt)
    rw [Nat.succ_eq_add_one, Nat.add_right_comm (entry + 1) i]
    rcases Nat.lt_or_ge i e.blockSize with hi | hi
    · exact alike_block hfirst hfirst' hexit (fun i _ => .inl (by omega)) i hi
    · obtain rfl : i = e.blockSize := by omega
      exact .jump hjump hjump₂ hexit
  · rcases Nat.lt_or_ge b (entry + e.blockSize + 2 + f.blockSize + 2) with hb | hb
    · obtain ⟨i, rfl⟩ : ∃ i, b = entry + e.blockSize + 2 + 1 + i :=
        Nat.exists_eq_add_of_le (by omega)
      rcases Nat.lt_or_ge i f.blockSize with hi | hi
      · exact alike_block hsecond hsecond' hexit (fun i _ => .inr (by omega)) i hi
      · obtain rfl : i = f.blockSize := by omega
        exact .jump hjump' hjump₂' hexit
    · obtain ⟨i, rfl⟩ := Nat.exists_eq_add_of_le hb
      exact alike_block hthird hthird' hexit (fun i _ => .inr (by omega)) i (by omega)

/-- The programs of both forms differ in how the two splits nest. -/
theorem rotation_reassociate (hp : (C.fill (alternation e (alternation f g))).program = .ok p)
    (hq : (C.fill (alternation (alternation e f) g)).program = .ok q) {home : Site}
    (hhome : C.home (e.blockSize + (f.blockSize + g.blockSize + 2) + 2) = home) :
    p.Rotation q (Shifted home.entry e.blockSize) (waysRight home.entry e f)
      (waysLeft home.entry e f) := by
  have hright : (alternation e (alternation f g)).blockSize =
      e.blockSize + (f.blockSize + g.blockSize + 2) + 2 := by
    rw [blockSize, blockSize]
  have hleft : (alternation (alternation e f) g).blockSize =
      e.blockSize + (f.blockSize + g.blockSize + 2) + 2 := by
    rw [blockSize, blockSize]
    omega
  have hclosed := closed_home hp
  have hholds := holds_home hp
  have hholds' := holds_home hq
  have hsize : q.size = p.size := size_eq_of_blockSize_eq
    (by rw [C.blockSize_fill, C.blockSize_fill, hright, hleft]) hp hq
  have hgroups : q.groups = p.groups := groups_eq_of_indices_eq (by simp) hp hq
  rw [hright, hhome] at hclosed hholds
  rw [hleft, hhome] at hholds'
  obtain ⟨houter, -, -, hrest⟩ := holds_alternation.mp hholds
  obtain ⟨hinner, -⟩ := holds_alternation.mp hrest
  obtain ⟨houter', hrest', -⟩ := holds_alternation.mp hholds'
  obtain ⟨hinner', -⟩ := holds_alternation.mp hrest'
  have hin := Program.lt_size_of_getElem? hinner
  constructor
  case outer_right => exact houter
  case inner_right => exact hinner
  case outer_left => exact houter'
  case inner_left => exact hinner'
  case unique => exact fun _ _ _ _ => unique_shifted
  case size_eq => exact hsize
  case groups_eq => exact hgroups
  case elsewhere =>
    intro a b hab ha
    by_cases hinside : home.entry ≤ a ∧
        a < home.entry + (e.blockSize + (f.blockSize + g.blockSize + 2) + 2)
    · apply alike_reassociate hholds hholds' hclosed.behind hab
      · exact Nat.lt_of_le_of_ne hinside.1 (Ne.symm ha)
      · exact hinside.2
    · have hgoes {c : Nat} (hc : ¬ (home.entry < c ∧
          c < home.entry + (e.blockSize + (f.blockSize + g.blockSize + 2) + 2))) :
          Shifted home.entry e.blockSize c c := .inr ⟨by omega, rfl⟩
      obtain rfl : b = a := by
        rw [Shifted] at hab
        omega
      apply Program.alike_self
      · apply code_outside (hleft.trans hright.symm) hp hq
        rwa [hright, hhome]
      · intro i hi
        obtain ⟨htargets, hnext⟩ := hclosed.goes_around hi hinside
        exact ⟨fun t ht => hgoes (htargets t ht), fun hfalls => hgoes (hnext hfalls)⟩
  case not_inner_right | not_inner_left =>
    intro a
    simp only [Shifted, waysRight, waysLeft]
    omega
  case inside =>
    intro a b hab
    rw [Shifted] at hab
    omega
  all_goals
    dsimp only [Shifted, waysRight, waysLeft]
    omega

end

/-! ## Everywhere -/

/-- Two expressions of the same size, with the same groups, whose programs find the same. -/
structure Agree (e f : Expr) : Prop where
  /-- the programs have the same size -/
  blockSize_eq : e.blockSize = f.blockSize
  /-- they have the same groups -/
  maxIndex_eq : e.maxIndex = f.maxIndex
  /-- they find the same in every subject -/
  captures_eq : ∀ {p q : Program} (subject : String), e.program = .ok p → f.program = .ok q →
    ((Machine.ofProgram p).captures subject).1 = ((Machine.ofProgram q).captures subject).1

namespace Agree

variable {e f g : Expr}

theorem refl (e : Expr) : e.Agree e where
  blockSize_eq := rfl
  maxIndex_eq := rfl
  captures_eq subject hp hq := by
    rw [hp] at hq
    cases hq
    rfl

theorem symm (h : e.Agree f) : f.Agree e where
  blockSize_eq := h.blockSize_eq.symm
  maxIndex_eq := h.maxIndex_eq.symm
  captures_eq subject hp hq := (h.captures_eq subject hq hp).symm

theorem exists_program_iff (h : e.Agree f) :
    (∃ p, e.program = .ok p) ↔ ∃ q, f.program = .ok q := by
  rw [Expr.exists_program_iff, Expr.exists_program_iff, h.blockSize_eq, h.maxIndex_eq]

theorem trans (h : e.Agree f) (h' : f.Agree g) : e.Agree g where
  blockSize_eq := h.blockSize_eq.trans h'.blockSize_eq
  maxIndex_eq := h.maxIndex_eq.trans h'.maxIndex_eq
  captures_eq subject hp hr := by
    obtain ⟨q, hq⟩ := h.exists_program_iff.mp ⟨_, hp⟩
    exact (h.captures_eq subject hp hq).trans (h'.captures_eq subject hq hr)

end Agree

/-- One change of grouping, in any context. -/
theorem Regrouping.agree {x y : Expr} (h : Regrouping x y) (C : Context) :
    (C.fill x).Agree (C.fill y) where
  blockSize_eq := by rw [C.blockSize_fill, C.blockSize_fill, h.blockSize_eq]
  maxIndex_eq := maxIndex_fill_congr C h.indices_eq
  captures_eq {p q} subject hp hq := by
    have hsame (hblock : y.block (C.home x.blockSize).entry (C.home x.blockSize).exit =
        x.block (C.home x.blockSize).entry (C.home x.blockSize).exit) :
        ((Machine.ofProgram p).captures subject).1 =
          ((Machine.ofProgram q).captures subject).1 := by
      rw [program_eq_of_block_eq h.blockSize_eq h.indices_eq hblock hp hq]
    cases h with
    | reassociate e f g =>
      exact ((rotation_reassociate hq hp rfl).inStep.captures subject).1
    | flatten before parts after =>
      cases hmore : (parts ++ after).isEmpty with
      | false =>
        apply hsame
        exact (block_flatten before parts after hmore _ _).symm
      | true =>
        obtain ⟨rfl, rfl⟩ : parts = [] ∧ after = [] := by simpa using hmore
        rw [List.append_nil, List.append_nil] at hq hsame
        rw [blockSize_flatten_nil] at hsame
        by_cases hexit : (C.home (blockSizes before)).exit =
            (C.home (blockSizes before)).entry + blockSizes before
        · apply hsame
          rw [block_flatten_nil, ← hexit, block]
        · exact ((relay_flatten_nil hp hq rfl hexit).inStep.captures subject).1.symm
    | unwrap =>
      apply hsame
      exact (block_unwrap _ _ _).symm
    | ungroup =>
      apply hsame
      exact (block_ungroup _ _ _).symm

theorem SameButGrouping.agree {e f : Expr} (h : SameButGrouping e f) : e.Agree f := by
  induction h with
  | rel e f h =>
    obtain ⟨C, x, y, hxy, rfl, rfl⟩ := h
    exact hxy.agree C
  | refl e => exact .refl e
  | symm e f _ ih => exact ih.symm
  | trans e f g _ _ ih ih' => exact ih.trans ih'

/-- **Grouping**: two expressions that are the same but for grouping without captures both build or
neither does. Their programs have the same length and find the same, on every subject. -/
theorem captures_sameButGrouping {e f : Expr} (h : SameButGrouping e f) :
    ((∃ p, e.program = .ok p) ↔ ∃ q, f.program = .ok q) ∧
    ∀ p q subject, e.program = .ok p → f.program = .ok q →
      p.size = q.size ∧ ((Machine.ofProgram p).captures subject).1 =
        ((Machine.ofProgram q).captures subject).1 := by
  have hagree := h.agree
  refine ⟨hagree.exists_program_iff, fun p q subject hp hq =>
    ⟨?_, hagree.captures_eq subject hp hq⟩⟩
  exact (size_eq_of_blockSize_eq hagree.blockSize_eq hp hq).symm

theorem Regrouping.sameButGrouping {x y : Expr} (h : Regrouping x y) (C : Context) :
    SameButGrouping (C.fill x) (C.fill y) :=
  .rel _ _ ⟨C, x, y, h, rfl, rfl⟩

/-- A loop with empty rounds, whose alternatives nest to the left, with a group and an empty
part. -/
theorem captures_sameButGrouping_in_rounds : ∃ p q,
    (repetition .star true (alternation (alternation (group none (group (some 1) (literal 'a')))
      (repetition .star true (literal 'b'))) (concat [literal 'c', concat []]))).program = .ok p ∧
    (repetition .star true (alternation (group (some 1) (literal 'a'))
      (alternation (repetition .star true (literal 'b')) (literal 'c')))).program = .ok q ∧
    p.size = q.size ∧
    ((Machine.ofProgram p).captures "acb").1 = ((Machine.ofProgram q).captures "acb").1 := by
  have hungroup := (Regrouping.ungroup (group (some 1) (literal 'a'))).sameButGrouping
    [.body .star true, .first (concat [literal 'c', concat []]),
      .first (repetition .star true (literal 'b'))]
  have hflatten := (Regrouping.flatten [literal 'c'] [] []).sameButGrouping
    [.body .star true, .second (alternation (group (some 1) (literal 'a'))
      (repetition .star true (literal 'b')))]
  have hunwrap := (Regrouping.unwrap (literal 'c')).sameButGrouping
    [.body .star true, .second (alternation (group (some 1) (literal 'a'))
      (repetition .star true (literal 'b')))]
  have hreassociate := (Regrouping.reassociate (group (some 1) (literal 'a'))
    (repetition .star true (literal 'b')) (literal 'c')).sameButGrouping [.body .star true]
  have hlaw := captures_sameButGrouping
    (((hungroup.trans _ _ _ hflatten).trans _ _ _ hunwrap).trans _ _ _ hreassociate)
  obtain ⟨q, hq⟩ := exists_program (e := repetition .star true (alternation
    (group (some 1) (literal 'a'))
    (alternation (repetition .star true (literal 'b')) (literal 'c')))) (by decide)
  obtain ⟨p, hp⟩ := hlaw.1.mpr ⟨q, hq⟩
  exact ⟨p, q, hp, hq, hlaw.2 p q "acb" hp hq⟩

end Expr

end RegexMachine
