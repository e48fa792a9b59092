import RegexMachine.Proofs.Run.Twins

/-!
# Splits in a row

Three ways to go on can be tried in order by two splits, which nest to the right or to the left:

    outer:  split first, inner            outer:  split inner, third
    inner:  split second, third           inner:  split first, second

In the first form the inner split waits on the stack until the first way was followed to its end, in
the second one the second and the third way do so. Control comes to the inner split from the outer
one only, which is marked by then, so the machines of both programs stay in step
(`Rotation.inStep`).
-/

namespace RegexMachine

namespace Program

/-- Where two splits in a row stand, and the three ways to which they lead. -/
structure Ways where
  /-- the split to which control comes first -/
  outer : Nat
  /-- the split to which that one leads -/
  inner : Nat
  /-- the way that is preferred to the others -/
  first : Nat
  /-- the way after it -/
  second : Nat
  /-- the last way -/
  third : Nat

variable {p q : Program} {Goes : Nat → Nat → Prop} {v w : Ways} {waiting : Bool}
  {list list' : ThreadList} {stack stack' : List Thread}

/-- Two programs that differ in how two splits nest, to the right in `p` and to the left in `q`.
Places of the programs correspond by `Goes`, those of the inner splits to none. -/
structure Rotation (p q : Program) (Goes : Nat → Nat → Prop) (v w : Ways) : Prop where
  /-- in `p` the outer split leads to the first way -/
  outer_right : p.code[v.outer]? = some (.split v.first v.inner)
  /-- and the inner one to the second and the third way -/
  inner_right : p.code[v.inner]? = some (.split v.second v.third)
  /-- in `q` the outer split leads to the third way -/
  outer_left : q.code[w.outer]? = some (.split w.inner w.third)
  /-- and the inner one to the first and the second way -/
  inner_left : q.code[w.inner]? = some (.split w.first w.second)
  /-- the outer splits correspond -/
  outer : Goes v.outer w.outer
  /-- so do the first ways -/
  first : Goes v.first w.first
  /-- the second ways -/
  second : Goes v.second w.second
  /-- the third ways -/
  third : Goes v.third w.third
  /-- and the places where the programs start -/
  start : Goes 0 0
  /-- nothing corresponds to the inner split of `p` -/
  not_inner_right : ∀ b, ¬ Goes v.inner b
  /-- nor to that of `q` -/
  not_inner_left : ∀ a, ¬ Goes a w.inner
  /-- every place corresponds to no more than one -/
  unique : ∀ a b c d, Goes a b → Goes c d → (c = a ↔ d = b)
  /-- and is in its program if the other one is -/
  inside : ∀ a b, Goes a b → (b < p.size ↔ a < p.size)
  /-- apart from the outer splits, the instructions are the same -/
  elsewhere : ∀ a b, Goes a b → a ≠ v.outer → p.Alike q Goes a b
  /-- the programs have the same size -/
  size_eq : q.size = p.size
  /-- they have the same groups -/
  groups_eq : q.groups = p.groups

/-- The stacks of both machines. If the inner split is `waiting`, the other stack has two of the
ways in its place. -/
inductive Stacks (Goes : Nat → Nat → Prop) (v w : Ways) :
    (waiting : Bool) → List Thread → List Thread → Prop where
  /-- no threads are left -/
  | nil : Stacks Goes v w false [] []
  /-- threads that stand beside each other are next -/
  | cons {waiting : Bool} {t t' : Thread} {stack stack' : List Thread} (ht : t.Beside Goes t')
      (hstack : Stacks Goes v w waiting stack stack') :
      Stacks Goes v w waiting (t :: stack) (t' :: stack')
  /-- the inner split of the one program is next, and two of the ways in the other one -/
  | inner {s : Slots} {stack stack' : List Thread} (hstack : Stacks Goes v w false stack stack') :
      Stacks Goes v w true (⟨v.inner, s⟩ :: stack) (⟨w.second, s⟩ :: ⟨w.third, s⟩ :: stack')

theorem Stacks.append {onward onward' : List Thread}
    (honward : List.Forall₂ (Thread.Beside Goes) onward onward')
    (h : Stacks Goes v w waiting stack stack') :
    Stacks Goes v w waiting (onward ++ stack) (onward' ++ stack') := by
  induction honward with
  | nil => exact h
  | cons ht _ ih => exact .cons ht ih

/-- Lists and stacks of both machines while threads are followed. -/
structure Rotating (p q : Program) (Goes : Nat → Nat → Prop) (v w : Ways) (list : ThreadList)
    (stack : List Thread) (list' : ThreadList) (stack' : List Thread) : Prop where
  /-- the lists have the same threads, and the same marks at places that correspond -/
  matched : p.Matched q Goes Goes list list'
  /-- an inner split is waiting only if it was not done before -/
  beside : ∃ waiting, Stacks Goes v w waiting stack stack' ∧
    (waiting = true → list.isFresh v.inner = true ∧ list.isFresh v.outer = false)
  /-- no thread comes to the inner split before one comes to the outer one -/
  unopened : list.isFresh v.outer = true →
    list.isFresh v.inner = true ∧ list'.isFresh w.inner = true

namespace Rotation

variable (h : p.Rotation q Goes v w)

include h

theorem ne_inner {a b : Nat} (hab : Goes a b) : a ≠ v.inner := by
  rintro rfl
  exact h.not_inner_right b hab

theorem ne_inner' {a b : Nat} (hab : Goes a b) : b ≠ w.inner := by
  rintro rfl
  exact h.not_inner_left a hab

/-- A mark at corresponding places does not open the inner splits. -/
theorem unopened_mark {a b : Nat} (hab : Goes a b)
    (hun : list.isFresh v.outer = true →
      list.isFresh v.inner = true ∧ list'.isFresh w.inner = true) :
    (list.mark a).isFresh v.outer = true →
      (list.mark a).isFresh v.inner = true ∧ (list'.mark b).isFresh w.inner = true := by
  intro houter
  rw [ThreadList.isFresh_mark, Bool.and_eq_true] at houter
  obtain ⟨hinner, hinner'⟩ := hun houter.1
  rw [ThreadList.isFresh_mark, ThreadList.isFresh_mark, hinner, hinner',
    bne_iff_ne.mpr (h.ne_inner hab).symm, bne_iff_ne.mpr (h.ne_inner' hab).symm]
  exact ⟨rfl, rfl⟩

/-- Nor does it end the waiting of one. -/
theorem waiting_mark {a b : Nat} (hab : Goes a b)
    (hwait : waiting = true → list.isFresh v.inner = true ∧ list.isFresh v.outer = false) :
    waiting = true →
      (list.mark a).isFresh v.inner = true ∧ (list.mark a).isFresh v.outer = false := by
  intro htrue
  obtain ⟨hinner, houter⟩ := hwait htrue
  rw [ThreadList.isFresh_mark, ThreadList.isFresh_mark, hinner, houter,
    bne_iff_ne.mpr (h.ne_inner hab).symm]
  exact ⟨rfl, rfl⟩

/-- The second machine makes both splits at once. -/
theorem follow_outer_left (offset : Nat) {s : Slots} (houter : list.isFresh w.outer = true)
    (hinner : list.isFresh w.inner = true) :
    q.follow offset list (⟨w.outer, s⟩ :: stack) =
      q.follow offset ((list.mark w.outer).mark w.inner)
        (⟨w.first, s⟩ :: ⟨w.second, s⟩ :: ⟨w.third, s⟩ :: stack) := by
  have hne : w.inner ≠ w.outer := (h.ne_inner' h.outer).symm
  have hinner' : (list.mark w.outer).isFresh w.inner = true := by
    rw [ThreadList.isFresh_mark, hinner, bne_iff_ne.mpr hne]
    rfl
  rw [Program.follow, dif_pos houter]
  simp only [Program.expand, h.outer_left, List.cons_append, List.nil_append]
  rw [Program.follow, dif_pos hinner']
  simp only [Program.expand, h.inner_left, List.cons_append, List.nil_append]

/-- At the outer splits: the first machine leaves the inner one for later, the second makes both. -/
theorem rotating_outer {s : Slots} (hmatched : p.Matched q Goes Goes list list')
    (hstack : Stacks Goes v w false stack stack') (hinner : list.isFresh v.inner = true) :
    p.Rotating q Goes v w (list.mark v.outer) (⟨v.first, s⟩ :: ⟨v.inner, s⟩ :: stack)
      ((list'.mark w.outer).mark w.inner)
      (⟨w.first, s⟩ :: ⟨w.second, s⟩ :: ⟨w.third, s⟩ :: stack') := by
  have houter : (list.mark v.outer).isFresh v.outer = false := by
    rw [ThreadList.isFresh_mark, bne_self_eq_false, Bool.and_false]
  have hwaiting : (list.mark v.outer).isFresh v.inner = true := by
    rw [ThreadList.isFresh_mark, hinner, bne_iff_ne.mpr (h.ne_inner h.outer).symm]
    rfl
  refine ⟨?_, ⟨true, .cons ⟨rfl, h.first⟩ (.inner hstack), fun _ => ⟨hwaiting, houter⟩⟩, ?_⟩
  · apply Matched.mark_right
    · exact hmatched.mark fun c d => h.unique _ _ c d h.outer
    · exact fun c d hcd => h.ne_inner' hcd
  · intro hagain
    rw [houter] at hagain
    cases hagain

/-- At an inner split that was waiting, only the first machine makes a step. -/
theorem rotating_inner {s : Slots} (hmatched : p.Matched q Goes Goes list list')
    (hstack : Stacks Goes v w false stack stack') (houter : list.isFresh v.outer = false) :
    p.Rotating q Goes v w (list.mark v.inner) (⟨v.second, s⟩ :: ⟨v.third, s⟩ :: stack) list'
      (⟨w.second, s⟩ :: ⟨w.third, s⟩ :: stack') := by
  refine ⟨hmatched.mark_left fun c d hcd => h.ne_inner hcd,
    ⟨false, .cons ⟨rfl, h.second⟩ (.cons ⟨rfl, h.third⟩ hstack), by simp⟩, ?_⟩
  intro hagain
  rw [ThreadList.isFresh_mark, houter, Bool.false_and] at hagain
  cases hagain

/-- **Following** keeps the lists in step. -/
theorem follow (offset : Nat) (hr : p.Rotating q Goes v w list stack list' stack') :
    p.Rotating q Goes v w (p.follow offset list stack) [] (q.follow offset list' stack') [] := by
  induction list, stack using Program.follow.induct p offset generalizing list' stack' with
  | case1 list =>
    obtain ⟨waiting, hstacks, -⟩ := hr.beside
    cases hstacks
    rwa [Program.follow, Program.follow]
  | case2 list t stack hfresh hexpand ih =>
    obtain ⟨waiting, hstacks, hwait⟩ := hr.beside
    cases hstacks with
    | @cons _ _ t' _ stack' ht hstack =>
      obtain ⟨b, s⟩ := t'
      obtain ⟨rfl, hplace⟩ := ht
      have houter : t.pc ≠ v.outer := by
        intro houter
        simp [Program.expand, houter, h.outer_right] at hexpand
      have halike := h.elsewhere t.pc b hplace houter
      have hfresh' : list'.isFresh b = true := (hr.matched.marks t.pc b hplace).trans hfresh
      rw [Program.follow, dif_pos hfresh, hexpand, Program.follow, dif_pos hfresh',
        halike.expand_eq_none hexpand]
      apply ih
      exact ⟨(hr.matched.mark fun c d => h.unique _ _ c d hplace).park halike,
        ⟨waiting, hstack, h.waiting_mark hplace hwait⟩, h.unopened_mark hplace hr.unopened⟩
    | inner hstack => simp [Program.expand, h.inner_right] at hexpand
  | case3 list t stack hfresh onward hexpand ih =>
    obtain ⟨waiting, hstacks, hwait⟩ := hr.beside
    rw [Program.follow, dif_pos hfresh, hexpand]
    cases hstacks with
    | @cons _ _ t' _ stack' ht hstack =>
      obtain ⟨b, s⟩ := t'
      obtain ⟨rfl, hplace⟩ := ht
      have hfresh' : list'.isFresh b = true := (hr.matched.marks t.pc b hplace).trans hfresh
      by_cases houter : t.pc = v.outer
      · obtain rfl : b = w.outer :=
          (h.unique _ _ _ _ (houter ▸ hplace) h.outer).mp rfl |>.symm
        obtain rfl : onward = [⟨v.first, t.slots⟩, ⟨v.inner, t.slots⟩] := by
          simpa [Program.expand, houter, h.outer_right] using hexpand.symm
        obtain ⟨hinner, hinner'⟩ := hr.unopened (houter ▸ hfresh)
        cases waiting with
        | true =>
          rw [← houter, hfresh] at hwait
          cases (hwait rfl).2
        | false =>
          rw [h.follow_outer_left offset hfresh' hinner']
          apply ih
          rw [houter]
          exact h.rotating_outer hr.matched hstack hinner
      · obtain ⟨onward', hexpand', honward⟩ :=
          (h.elsewhere t.pc b hplace houter).expand_eq_some hexpand
        rw [Program.follow, dif_pos hfresh', hexpand']
        apply ih
        exact ⟨hr.matched.mark fun c d => h.unique _ _ c d hplace,
          ⟨waiting, hstack.append honward, h.waiting_mark hplace hwait⟩,
          h.unopened_mark hplace hr.unopened⟩
    | @inner s _ stack' hstack =>
      obtain rfl : onward = [⟨v.second, s⟩, ⟨v.third, s⟩] := by
        simpa [Program.expand, h.inner_right] using hexpand.symm
      apply ih
      exact h.rotating_inner hr.matched hstack (hwait rfl).2
  | case4 list t stack hlate ih =>
    obtain ⟨waiting, hstacks, hwait⟩ := hr.beside
    cases hstacks with
    | @cons _ _ t' _ stack' ht hstack =>
      have hlate' : ¬ list'.isFresh t'.pc = true := by
        rwa [hr.matched.marks t.pc t'.pc ht.place]
      rw [Program.follow, dif_neg hlate, Program.follow, dif_neg hlate']
      apply ih
      exact ⟨hr.matched, ⟨waiting, hstack, hwait⟩, hr.unopened⟩
    | inner hstack => exact absurd (hwait rfl).1 hlate

/-- The machines of both programs stay in step. -/
theorem inStep : p.InStep q Goes Goes fun list list' => p.Rotating q Goes v w list [] list' [] where
  slots_eq := congrArg slotsFor h.groups_eq
  start := h.start
  matched hr := hr.matched
  blank hlist hlist' := by
    have hin : v.inner < p.size := lt_size_of_getElem? h.inner_right
    have hin' : w.inner < q.size := lt_size_of_getElem? h.inner_left
    exact ⟨.of_blank h.size_eq h.inside hlist hlist', ⟨false, .nil, by simp⟩,
      fun _ => ⟨hlist.fresh _ hin, hlist'.fresh _ hin'⟩⟩
  follow offset a b s hr hab := by
    apply h.follow
    exact ⟨hr.matched, ⟨false, .cons ⟨rfl, hab⟩ .nil, by simp⟩, hr.unopened⟩

end Rotation

end Program

end RegexMachine
