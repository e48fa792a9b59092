import RegexMachine.Proofs.Source.Lines

/-!
# The grammar of paths

What `isPath` accepts, said without cutting a text into pieces: identifiers with double colons
between them, and possibly one more in front (`isPath_iff_grammar`). Cutting and joining undo each
other:

* **joining** the segments of a text gives back the text, whatever the text is (`joined_segments`);
* **cutting** gives back the words that were joined, if none of them has a colon
  (`segments_joined`).

Of three colons in a row the first two are cut off and the third one is left in a word. So what
counts are the **runs** of colons, which are as long as they can be: in a path each of them has two
colons.
-/

namespace RegexMachine.Source

/-! ## Identifiers -/

/-- An ASCII letter. -/
def IsLetter (c : Char) : Prop := ('a' ≤ c ∧ c ≤ 'z') ∨ ('A' ≤ c ∧ c ≤ 'Z')

/-- An ASCII digit. -/
def IsDigit (c : Char) : Prop := '0' ≤ c ∧ c ≤ '9'

/-- ASCII letters, digits and underscores. -/
structure Identifier (name : String) : Prop where
  /-- there is at least one character -/
  nonempty : name ≠ ""
  /-- nothing else is in the name -/
  chars : ∀ c ∈ name.toList, IsLetter c ∨ IsDigit c ∨ c = '_'
  /-- a digit does not come first -/
  head : ∀ c, name.toList.head? = some c → ¬ IsDigit c
  /-- there is more than an underscore -/
  not_blank : name ≠ "_"

theorem isUpper_iff (c : Char) : c.isUpper = true ↔ 'A' ≤ c ∧ c ≤ 'Z' := decide_eq_true_iff

theorem isLower_iff (c : Char) : c.isLower = true ↔ 'a' ≤ c ∧ c ≤ 'z' := by
  show (decide ('a' ≤ c) && decide (c ≤ 'z')) = true ↔ _
  rw [Bool.and_eq_true, decide_eq_true_eq, decide_eq_true_eq]

theorem isDigit_iff (c : Char) : c.isDigit = true ↔ IsDigit c := by
  show (decide ('0' ≤ c) && decide (c ≤ '9')) = true ↔ _
  rw [Bool.and_eq_true, decide_eq_true_eq, decide_eq_true_eq, IsDigit]

theorem isAlpha_iff (c : Char) : c.isAlpha = true ↔ IsLetter c := by
  show (c.isUpper || c.isLower) = true ↔ _
  rw [Bool.or_eq_true, isUpper_iff, isLower_iff, or_comm, IsLetter]

theorem IsLetter.not_isDigit {c : Char} (h : IsLetter c) : ¬ IsDigit c := by
  simp only [IsLetter, IsDigit, Char.le_def, UInt32.le_iff_toNat_le] at h ⊢
  have hnine : '9'.val.toNat < 'A'.val.toNat := by decide
  have hlower : '9'.val.toNat < 'a'.val.toNat := by decide
  omega

theorem isWordChar_iff (c : Char) :
    isWordChar c = true ↔ IsLetter c ∨ IsDigit c ∨ c = '_' := by
  rw [isWordChar, Bool.or_eq_true, decide_eq_true_eq, Char.isAlphanum, Bool.or_eq_true,
    isAlpha_iff, isDigit_iff]
  tauto

theorem isWordStart_iff (c : Char) :
    isWordStart c = true ↔ isWordChar c = true ∧ ¬ IsDigit c := by
  rw [isWordStart, Bool.or_eq_true, decide_eq_true_eq, isAlpha_iff, isWordChar_iff]
  constructor
  · rintro (rfl | hletter)
    · exact ⟨.inr (.inr rfl), fun hdigit => absurd hdigit.2 (by decide)⟩
    · exact ⟨.inl hletter, hletter.not_isDigit⟩
  · rintro ⟨hletter | hdigit | hblank, hnot⟩
    · exact .inr hletter
    · exact absurd hdigit hnot
    · exact .inl hblank

/-- The check of a name is what it should be. -/
theorem isIdentifier_iff (name : String) : isIdentifier name = true ↔ Identifier name := by
  obtain ⟨cs, rfl⟩ : ∃ cs, name = String.ofList cs := ⟨_, String.ofList_toList.symm⟩
  rw [isIdentifier, String.toList_ofList, isWord.eq_def]
  constructor
  · intro h
    split at h
    case h_1 => cases h
    case h_2 => cases h
    case h_3 c cs hblank =>
      rw [Bool.and_eq_true, isWordStart_iff, List.all_eq_true] at h
      obtain ⟨⟨hchar, hdigit⟩, hrest⟩ := h
      refine ⟨?_, ?_, ?_, ?_⟩
      · simp
      · rw [String.toList_ofList, List.forall_mem_cons]
        exact ⟨(isWordChar_iff c).mp hchar, fun d hd => (isWordChar_iff d).mp (hrest d hd)⟩
      · simpa using hdigit
      · intro heq
        have hlist := congrArg String.toList heq
        rw [String.toList_ofList] at hlist
        injection hlist with hc hcs
        exact hblank hc hcs
  · rintro ⟨hnonempty, hchars, hhead, hblank⟩
    rw [String.toList_ofList] at hchars hhead
    split
    case h_1 => exact absurd rfl hnonempty
    case h_2 => exact absurd rfl hblank
    case h_3 c cs _ =>
      rw [List.forall_mem_cons] at hchars
      rw [Bool.and_eq_true, isWordStart_iff, List.all_eq_true]
      exact ⟨⟨(isWordChar_iff c).mpr hchars.1, hhead c rfl⟩,
        fun d hd => (isWordChar_iff d).mpr (hchars.2 d hd)⟩

theorem Identifier.colon_not_mem {name : String} (h : Identifier name) : ':' ∉ name.toList :=
  colon_not_mem_of_isWord ((isIdentifier_iff name).mpr h)

/-! ## Cutting and joining -/

/-- Words with double colons between them. -/
def joined (words : List (List Char)) : List Char := [':', ':'].intercalate words

@[simp] theorem joined_singleton (word : List Char) : joined [word] = word :=
  List.intercalate_singleton

theorem joined_cons {words : List (List Char)} (word : List Char) (hwords : words ≠ []) :
    joined (word :: words) = word ++ ':' :: ':' :: joined words := by
  obtain ⟨next, words, rfl⟩ := List.exists_cons_of_ne_nil hwords
  rw [joined, List.intercalate_cons_cons, List.append_assoc]
  rfl

theorem joined_append {words more : List (List Char)} (hwords : words ≠ []) (hmore : more ≠ []) :
    joined (words ++ more) = joined words ++ "::".toList ++ joined more := by
  induction words with
  | nil => exact absurd rfl hwords
  | cons word words ih =>
    rcases eq_or_ne words [] with rfl | hrest
    · rw [List.singleton_append, joined_cons word hmore, joined_singleton, List.append_assoc]
      rfl
    · rw [List.cons_append, joined_cons word (List.append_ne_nil_of_left_ne_nil hrest _), ih hrest,
        joined_cons word hrest]
      simp

theorem segments_ne_nil (cs : List Char) : segments cs ≠ [] := by
  rw [segments.eq_def]
  split
  · exact List.cons_ne_nil _ _
  · exact List.cons_ne_nil _ _
  · split <;> exact List.cons_ne_nil _ _

/-- A character that does not begin a double colon belongs to the first segment. -/
theorem segments_cons {c : Char} {cs : List Char} (h : ∀ rest, c = ':' → cs ≠ ':' :: rest) :
    segments (c :: cs) = (segments cs).modifyHead (c :: ·) := by
  rw [segments.eq_3 c cs fun rest hc hcs => h rest hc hcs]
  cases hsegments : segments cs with
  | nil => exact absurd hsegments (segments_ne_nil cs)
  | cons piece pieces => rfl

theorem joined_modifyHead (c : Char) {words : List (List Char)} (hwords : words ≠ []) :
    joined (words.modifyHead (c :: ·)) = c :: joined words := by
  obtain ⟨word, words, rfl⟩ := List.exists_cons_of_ne_nil hwords
  rw [List.modifyHead_cons]
  rcases eq_or_ne words [] with rfl | hrest
  · rw [joined_singleton, joined_singleton]
  · rw [joined_cons _ hrest, joined_cons _ hrest, List.cons_append]

/-- **Joining**: nothing is lost when a text is cut. -/
theorem joined_segments (cs : List Char) : joined (segments cs) = cs := by
  induction cs using segments.induct with
  | case1 => rw [segments, joined_singleton]
  | case2 cs ih => rw [segments, joined_cons _ (segments_ne_nil cs), ih, List.nil_append]
  | case3 c cs hcolons hnone ih => exact absurd hnone (segments_ne_nil cs)
  | case4 c cs hcolons piece pieces hpieces ih =>
    rw [segments_cons hcolons, joined_modifyHead c (segments_ne_nil cs), ih]

theorem segments_append {word : List Char} (h : ':' ∉ word) (cs : List Char) :
    segments (word ++ cs) = (segments cs).modifyHead (word ++ ·) := by
  induction word with
  | nil => exact (List.modifyHead_id ▸ rfl)
  | cons c word ih =>
    rw [List.mem_cons, not_or] at h
    rw [List.cons_append, segments_cons fun _ hc => absurd hc.symm h.1, ih h.2,
      List.modifyHead_modifyHead]
    rfl

/-- **Cutting**: words without colons come back. -/
theorem segments_joined {words : List (List Char)} (hwords : words ≠ [])
    (h : ∀ word ∈ words, ':' ∉ word) : segments (joined words) = words := by
  induction words with
  | nil => exact absurd rfl hwords
  | cons word words ih =>
    rw [List.forall_mem_cons] at h
    rcases eq_or_ne words [] with rfl | hrest
    · rw [joined_singleton, ← List.append_nil word, segments_append h.1]
      rfl
    · rw [joined_cons word hrest, segments_append h.1, segments, ih hrest h.2,
        List.modifyHead_cons, List.append_nil]

/-- A double colon cuts a text. -/
theorem one_lt_length_segments (front rear : List Char) :
    1 < (segments (front ++ ':' :: ':' :: rear)).length := by
  have hcut (cs : List Char) : 1 < (segments (':' :: ':' :: cs)).length := by
    rw [segments, List.length_cons]
    exact Nat.succ_lt_succ (List.length_pos_of_ne_nil (segments_ne_nil cs))
  induction front with
  | nil => exact hcut rear
  | cons c front ih =>
    rw [List.cons_append]
    by_cases hcolons : ∃ rest, c = ':' ∧ front ++ ':' :: ':' :: rear = ':' :: rest
    · obtain ⟨rest, rfl, hrest⟩ := hcolons
      rw [hrest]
      exact hcut rest
    · rw [segments_cons fun rest hc hcs => hcolons ⟨rest, hc, hcs⟩, List.length_modifyHead]
      exact ih

/-! ## The grammar -/

/-- A path is identifiers, at least one, with double colons between them and possibly one in
front. -/
def IsPath (s : String) : Prop :=
  ∃ words : List String, words ≠ [] ∧ (∀ word ∈ words, Identifier word) ∧
    (s = "::".intercalate words ∨ s = "::" ++ "::".intercalate words)

theorem toList_intercalate (words : List String) :
    ("::".intercalate words).toList = joined (words.map String.toList) :=
  String.toList_intercalate

theorem segments_intercalate {words : List String} (hwords : words ≠ [])
    (h : ∀ word ∈ words, Identifier word) :
    segments ("::".intercalate words).toList = words.map String.toList := by
  rw [toList_intercalate, segments_joined (by simpa using hwords)]
  rw [List.forall_mem_map]
  exact fun word hword => (h word hword).colon_not_mem

/-- Identifiers are all that may stand between double colons. -/
theorem all_isWord_iff {cs : List Char} : (segments cs).all isWord = true ↔
    ∃ words : List String, words ≠ [] ∧ (∀ word ∈ words, Identifier word) ∧
      cs = ("::".intercalate words).toList := by
  rw [List.all_eq_true]
  constructor
  · intro h
    refine ⟨(segments cs).map String.ofList, by simpa using segments_ne_nil cs, ?_, ?_⟩
    · rw [List.forall_mem_map]
      intro word hword
      rw [← isIdentifier_iff, isIdentifier, String.toList_ofList]
      exact h word hword
    · rw [toList_intercalate, List.map_map]
      simp [Function.comp_def, joined_segments]
  · rintro ⟨words, hwords, hidentifier, rfl⟩
    rw [segments_intercalate hwords hidentifier, List.forall_mem_map]
    exact fun word hword => (isIdentifier_iff word).mpr (hidentifier word hword)

/-- No path begins like one with a double colon in front, behind that double colon. -/
theorem dropRoot_intercalate {words : List String} (hwords : words ≠ [])
    (h : ∀ word ∈ words, Identifier word) :
    dropRoot ("::".intercalate words).toList = ("::".intercalate words).toList := by
  obtain ⟨word, words, rfl⟩ := List.exists_cons_of_ne_nil hwords
  rw [dropRoot.eq_def]
  split
  case h_2 => rfl
  case h_1 cs hcs =>
    have hsegments := segments_intercalate hwords h
    rw [hcs, segments, List.map_cons] at hsegments
    injection hsegments with hword
    have hnonempty := (h word List.mem_cons_self).nonempty
    exact absurd (String.toList_eq_nil_iff.mp hword.symm) hnonempty

theorem isPath_iff (s : String) : isPath s = true ↔ IsPath s := by
  rw [isPath, all_isWord_iff]
  constructor
  · rintro ⟨words, hwords, hidentifier, hrest⟩
    refine ⟨words, hwords, hidentifier, ?_⟩
    rw [dropRoot.eq_def] at hrest
    split at hrest
    case h_1 cs hcs =>
      right
      rw [← String.toList_inj, hcs, hrest]
      simp
    case h_2 => exact .inl (String.toList_inj.mp hrest)
  · rintro ⟨words, hwords, hidentifier, rfl | rfl⟩
    · exact ⟨words, hwords, hidentifier, dropRoot_intercalate hwords hidentifier⟩
    · refine ⟨words, hwords, hidentifier, ?_⟩
      rw [String.toList_append]
      rfl

/-! ## Runs of colons -/

/-- So many colons follow each other, with none before or behind them. -/
def ColonRun (cs : List Char) (n : Nat) : Prop :=
  0 < n ∧ ∃ before after, cs = before ++ List.replicate n ':' ++ after ∧
    before.getLast? ≠ some ':' ∧ after.head? ≠ some ':'

theorem eq_two_of_replicate {n : Nat} {after rest : List Char}
    (heq : List.replicate n ':' ++ after = ':' :: ':' :: rest) (hafter : after.head? ≠ some ':')
    (hrest : rest.head? ≠ some ':') : n = 2 := by
  match n, heq with
  | 0, heq =>
    rw [List.replicate_zero, List.nil_append] at heq
    exact absurd (congrArg List.head? heq) hafter
  | 1, heq =>
    injection heq with _ heq
    exact absurd (congrArg List.head? heq) hafter
  | 2, _ => rfl
  | n + 3, heq =>
    injection heq with _ heq
    injection heq with _ heq
    exact absurd (congrArg List.head? heq).symm hrest

/-- A text made of words without colons. Only the first word may be empty, for a double colon in
front. -/
structure Woven (word : List Char) (words : List (List Char)) : Prop where
  /-- the first word has no colon -/
  first : ':' ∉ word
  /-- the other words have none -/
  colon : ∀ w ∈ words, ':' ∉ w
  /-- they are not empty -/
  nonempty : ∀ w ∈ words, w ≠ []

namespace Woven

variable {word next : List Char} {words : List (List Char)}

theorem tail (h : Woven word (next :: words)) : Woven next words where
  first := h.colon next List.mem_cons_self
  colon w hw := h.colon w (List.mem_cons_of_mem _ hw)
  nonempty w hw := h.nonempty w (List.mem_cons_of_mem _ hw)

theorem head?_joined (h : Woven word (next :: words)) : ∃ c, c ≠ ':' ∧
    (joined (next :: words)).head? = some c := by
  obtain ⟨c, cs, rfl⟩ := List.exists_cons_of_ne_nil (h.nonempty next List.mem_cons_self)
  refine ⟨c, ?_, ?_⟩
  · rintro rfl
    exact h.tail.first List.mem_cons_self
  · rcases eq_or_ne words [] with rfl | hwords
    · rw [joined_singleton, List.head?_cons]
    · rw [joined_cons _ hwords, List.cons_append, List.head?_cons]

/-- Every run of colons is between two words. -/
theorem eq_two_of_colonRun (h : Woven word words) {n : Nat}
    (hrun : ColonRun (joined (word :: words)) n) :
    n = 2 := by
  obtain ⟨hpos, before, after, heq, hbefore, hafter⟩ := hrun
  rw [List.append_assoc] at heq
  obtain ⟨n, rfl⟩ : ∃ k, n = k + 1 := Nat.exists_eq_add_one.mpr hpos
  induction words generalizing word before with
  | nil =>
    rw [joined_singleton] at heq
    exact absurd (by simp [heq, List.replicate_succ]) h.first
  | cons next words ih =>
    obtain ⟨c, hc, hhead⟩ := h.head?_joined
    have hrest : (joined (next :: words)).head? ≠ some ':' := by simpa [hhead] using hc
    rw [joined_cons _ (List.cons_ne_nil _ _), List.append_eq_append_iff] at heq
    rcases heq with ⟨front, rfl, heq⟩ | ⟨front, rfl, heq⟩
    · -- the run begins behind the first word
      match front, heq with
      | [], heq => exact eq_two_of_replicate heq.symm hafter hrest
      | [d], heq =>
        injection heq with hd
        simp [← hd] at hbefore
      | d :: d' :: front, heq =>
        injection heq with hd heq
        injection heq with hd' heq
        refine ih h.tail front (fun hlast => hbefore ?_) heq
        simp [List.getLast?_append, List.getLast?_cons, hlast]
    · -- it cannot begin within the first word
      cases front with
      | nil => exact eq_two_of_replicate heq hafter hrest
      | cons d front =>
        injection heq with hd
        exact absurd (by simp [← hd]) h.first

theorem getLast?_joined (h : Woven word words) : (joined (word :: words)).getLast? ≠ some ':' := by
  induction words generalizing word with
  | nil =>
    rw [joined_singleton]
    exact fun hlast => h.first (List.mem_of_getLast? hlast)
  | cons next words ih =>
    obtain ⟨c, -, hhead⟩ := h.head?_joined
    have hne : joined (next :: words) ≠ [] := by
      intro hnil
      rw [hnil] at hhead
      cases hhead
    rw [joined_cons _ (List.cons_ne_nil _ _), List.append_cons, List.append_cons,
      List.getLast?_append_of_ne_nil _ hne]
    exact ih h.tail

end Woven

/-- The words of a path, with an empty one in front for a double colon there. -/
theorem IsPath.exists_woven {s : String} (h : IsPath s) :
    ∃ word words, Woven word words ∧ s.toList = joined (word :: words) := by
  obtain ⟨words, hwords, hidentifier, hs⟩ := h
  have hcolon : ∀ w ∈ words.map String.toList, ':' ∉ w := by
    rw [List.forall_mem_map]
    exact fun word hword => (hidentifier word hword).colon_not_mem
  have hnonempty : ∀ w ∈ words.map String.toList, w ≠ [] := by
    rw [List.forall_mem_map]
    exact fun word hword hnil =>
      (hidentifier word hword).nonempty (String.toList_eq_nil_iff.mp hnil)
  rcases hs with rfl | rfl
  · obtain ⟨word, words, rfl⟩ := List.exists_cons_of_ne_nil hwords
    rw [List.map_cons, List.forall_mem_cons] at hcolon hnonempty
    exact ⟨_, _, ⟨hcolon.1, hcolon.2, hnonempty.2⟩, toList_intercalate _⟩
  · refine ⟨[], _, ⟨List.not_mem_nil, hcolon, hnonempty⟩, ?_⟩
    rw [joined_cons _ (by simpa using hwords), ← toList_intercalate, String.toList_append]
    rfl

/-- **The grammar of paths**: what is accepted is identifiers with double colons between them, and
possibly one in front. So no run of colons in it is longer or shorter, and it does not end in a
colon. -/
theorem isPath_iff_grammar (s : String) :
    (isPath s = true ↔ ∃ words : List String, words ≠ [] ∧ (∀ word ∈ words, Identifier word) ∧
      (s = "::".intercalate words ∨ s = "::" ++ "::".intercalate words)) ∧
    (∀ n, ColonRun s.toList n → n ≠ 2 → isPath s = false) ∧
    (s.toList.getLast? = some ':' → isPath s = false) := by
  refine ⟨isPath_iff s, fun n hrun hn => ?_, fun hlast => ?_⟩
  · rw [Bool.eq_false_iff]
    intro hpath
    obtain ⟨word, words, hwoven, hs⟩ := ((isPath_iff s).mp hpath).exists_woven
    rw [hs] at hrun
    exact hn (hwoven.eq_two_of_colonRun hrun)
  · rw [Bool.eq_false_iff]
    intro hpath
    obtain ⟨word, words, hwoven, hs⟩ := ((isPath_iff s).mp hpath).exists_woven
    rw [hs] at hlast
    exact hwoven.getLast?_joined hlast

/-- Of three colons the last one is left in a word, of four a word without characters is left. -/
example : isPath "::a::b_2" = true ∧ isPath "a:::b" = false ∧ isPath "a::::b" = false ∧
    isPath ":::a" = false := by decide

end RegexMachine.Source
