/-!
# Byte offsets

Positions in a text count the bytes of its UTF-8 form. An offset is usable as the end of a cut only
where it falls between two characters, so cutting a text by offsets may fail.
-/

namespace RegexMachine.Text

/-- Number of bytes of the UTF-8 form of a text. -/
def byteSize : List Char → Nat
  | [] => 0
  | c :: cs => c.utf8Size + byteSize cs

@[simp] theorem byteSize_nil : byteSize [] = 0 := rfl

@[simp] theorem byteSize_cons (c : Char) (cs : List Char) :
    byteSize (c :: cs) = c.utf8Size + byteSize cs := rfl

@[simp] theorem byteSize_append (cs ds : List Char) :
    byteSize (cs ++ ds) = byteSize cs + byteSize ds := by
  induction cs with
  | nil => simp
  | cons c cs ih => simp only [List.cons_append, byteSize_cons, ih, Nat.add_assoc]

/-- Cuts a text after its first `n` bytes. There is no such cut inside a character or behind the end
of the text. -/
def cut? : List Char → Nat → Option (List Char × List Char)
  | cs, 0 => some ([], cs)
  | [], _ + 1 => none
  | c :: cs, n + 1 =>
    if c.utf8Size ≤ n + 1 then
      (cut? cs (n + 1 - c.utf8Size)).map fun (front, back) => (c :: front, back)
    else none

/-- A cut divides a text where its front part ends. -/
theorem cut?_eq_some_iff {cs front back : List Char} {n : Nat} :
    cut? cs n = some (front, back) ↔ cs = front ++ back ∧ byteSize front = n := by
  induction cs, n using cut?.induct generalizing front with
  | case1 cs =>
    cases front with
    | nil => simp [cut?, eq_comm]
    | cons c front =>
      have hc := c.utf8Size_pos
      simp [cut?]
      omega
  | case2 n => cases front <;> simp [cut?]
  | case3 c cs n hle ih =>
    rw [cut?, if_pos hle]
    cases front with
    | nil => simp
    | cons d front =>
      have hsize : byteSize front = n + 1 - c.utf8Size ↔ c.utf8Size + byteSize front = n + 1 := by
        omega
      simp only [Option.map_eq_some_iff, Prod.exists, Prod.mk.injEq, List.cons.injEq,
        List.cons_append, byteSize_cons]
      constructor
      · rintro ⟨front', back', hcut, ⟨rfl, rfl⟩, rfl⟩
        obtain ⟨rfl, hn⟩ := ih.mp hcut
        exact ⟨⟨rfl, rfl⟩, hsize.mp hn⟩
      · rintro ⟨⟨rfl, rfl⟩, hn⟩
        exact ⟨front, back, ih.mpr ⟨rfl, hsize.mpr hn⟩, ⟨rfl, rfl⟩, rfl⟩
  | case4 c cs n hlt =>
    rw [cut?, if_neg hlt]
    cases front with
    | nil => simp
    | cons d front =>
      simp only [reduceCtorEq, List.cons_append, List.cons.injEq, byteSize_cons, false_iff, not_and]
      rintro ⟨rfl, rfl⟩
      omega

@[simp] theorem cut?_append (front back : List Char) :
    cut? (front ++ back) (byteSize front) = some (front, back) :=
  cut?_eq_some_iff.mpr ⟨rfl, rfl⟩

/-- A text may be cut at a byte offset: it falls between two characters, or at an end of the
text. -/
def IsBoundary (s : String) (offset : Nat) : Prop :=
  ∃ front back, s.toList = front ++ back ∧ byteSize front = offset

theorem isBoundary_iff {s : String} {offset : Nat} :
    IsBoundary s offset ↔ (cut? s.toList offset).isSome = true := by
  simp only [IsBoundary, Option.isSome_iff_exists, Prod.exists, cut?_eq_some_iff]

instance (s : String) (offset : Nat) : Decidable (IsBoundary s offset) :=
  decidable_of_iff _ isBoundary_iff.symm

example : IsBoundary "aé" 1 ∧ ¬ IsBoundary "aé" 2 := by decide

/-- The part of a text from byte `start` up to byte `stop`; there is none if the offsets are out of
order or one of them does not fall between two characters. -/
def slice? (s : String) (start stop : Nat) : Option String :=
  if start ≤ stop then
    (cut? s.toList start).bind fun (_, back) =>
      (cut? back (stop - start)).map fun (front, _) => String.ofList front
  else none

theorem slice?_eq_some_iff {s t : String} {start stop : Nat} :
    slice? s start stop = some t ↔
      ∃ front back, s.toList = front ++ (t.toList ++ back) ∧ byteSize front = start ∧
        byteSize (front ++ t.toList) = stop := by
  rw [slice?]
  split
  · rename_i hle
    simp only [Option.bind_eq_some_iff, Option.map_eq_some_iff, Prod.exists, cut?_eq_some_iff]
    constructor
    · rintro ⟨front, _, ⟨hs, hstart⟩, w, back, ⟨rfl, hsize⟩, rfl⟩
      refine ⟨front, back, by rwa [String.toList_ofList], hstart, ?_⟩
      rw [byteSize_append, String.toList_ofList]
      omega
    · rintro ⟨front, back, hs, hstart, hstop⟩
      rw [byteSize_append] at hstop
      exact ⟨front, _, ⟨hs, hstart⟩, t.toList, back, ⟨rfl, by omega⟩, String.ofList_toList⟩
  · rename_i hlt
    simp only [reduceCtorEq, false_iff]
    rintro ⟨front, back, -, hstart, hstop⟩
    rw [byteSize_append] at hstop
    omega

/-- The front part of a text. -/
theorem slice?_zero {s : String} {front back : List Char} (hs : s.toList = front ++ back) :
    slice? s 0 (byteSize front) = some (String.ofList front) :=
  slice?_eq_some_iff.mpr ⟨[], back, by simpa using hs, rfl, by simp⟩

end RegexMachine.Text
