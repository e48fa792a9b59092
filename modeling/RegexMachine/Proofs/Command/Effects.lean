import RegexMachine.Command.Generate
import RegexMachine.Proofs.Pattern.Compilation

/-!
# What the command does to files

A run of the command is all or nothing. Either it fails and leaves all files alone, or the module is
at the place that the path names and every other file is as before (`run_all_or_nothing`).

* **the checks** — the two names and the pattern are checked before anything is written
  (`Arguments.Checked`);
* **the place** — a path may name a device instead of a file. What is written there is not kept in
  any file, and shows in the standard output if that is the device.
-/

namespace RegexMachine.Command

/-! ## Files -/

namespace Folder

/-- The content of the file at a location, if there is one. -/
def content? (folder : Folder) (place : Location) : Option String :=
  (folder.files.find? (·.1 = place)).map (·.2)

section

variable {place other : Location} {content : String}

theorem find?_replace_self {files : List (Location × String)}
    (h : files.any (·.1 = place) = true) :
    (files.map fun file => if file.1 = place then (place, content) else file).find?
      (·.1 = place) = some (place, content) := by
  induction files with
  | nil => cases h
  | cons file files ih =>
    rw [List.map_cons, List.find?_cons]
    by_cases hfile : file.1 = place
    · simp [hfile]
    · rw [List.any_cons, decide_eq_false hfile, Bool.false_or] at h
      rw [if_neg hfile, decide_eq_false hfile]
      exact ih h

theorem find?_replace_of_ne (files : List (Location × String)) (hne : other ≠ place) :
    (files.map fun file => if file.1 = place then (place, content) else file).find?
      (·.1 = other) = files.find? (·.1 = other) := by
  induction files with
  | nil => rfl
  | cons file files ih =>
    rw [List.map_cons, List.find?_cons, List.find?_cons, ih]
    by_cases hfile : file.1 = place
    · rw [if_pos hfile, hfile, decide_eq_false hne.symm]
    · rw [if_neg hfile]

/-- The file that is written has its new content. -/
theorem content?_write_self (folder : Folder) :
    (folder.write place content).content? place = some content := by
  rw [content?, write]
  by_cases hfile : folder.hasFile place = true
  · rw [if_pos hfile, find?_replace_self hfile]
    rfl
  · have hnone : folder.files.find? (·.1 = place) = none := by
      rw [List.find?_eq_none]
      intro file hmem htrue
      exact hfile (List.any_eq_true.mpr ⟨file, hmem, htrue⟩)
    rw [if_neg hfile, List.find?_append, hnone]
    simp

/-- **Frame**: every other file has the content that it had. -/
theorem content?_write_of_ne (folder : Folder) (hne : other ≠ place) :
    (folder.write place content).content? other = folder.content? other := by
  rw [content?, write]
  by_cases hfile : folder.hasFile place = true
  · rw [if_pos hfile, find?_replace_of_ne _ hne]
    rfl
  · have hnew : [(place, content)].find? (·.1 = other) = none := by
      simpa using hne.symm
    rw [if_neg hfile, List.find?_append, hnew, Option.or_none]
    rfl

end

end Folder

/-! ## The checks -/

/-- The names and the pattern are in order, and this is what the pattern compiles to. -/
structure Arguments.Checked (a : Arguments) (regex : Regex) : Prop where
  /-- the function has an identifier -/
  function : Source.isIdentifier a.names.function = true
  /-- the library has a path -/
  runtime : Source.isPath a.names.runtime = true
  /-- the pattern has a program -/
  pattern : Regex.compile a.pattern = .ok regex

namespace Arguments

variable {a : Arguments} {regex : Regex}

theorem Checked.unique {other : Regex} (h : a.Checked regex) (h' : a.Checked other) :
    regex = other := by
  have hsame := h'.pattern
  rw [h.pattern] at hsame
  exact Except.ok.inj hsame

/-- What is planned for arguments that were checked: the disassembly if it is asked for, the path,
and the text of the module. -/
def planned (a : Arguments) (regex : Regex) : Plan where
  stdout := if a.dump then regex.program.disassembly else ""
  out := a.out.getD (defaultOut a.names)
  source := Source.moduleText a.pattern regex.program a.names

theorem Checked.plan_eq (h : a.Checked regex) : a.plan = .ok (a.planned regex) := by
  rw [plan, h.function, h.runtime, h.pattern]
  rfl

theorem exists_checked {plan : Plan} (h : a.plan = .ok plan) :
    ∃ regex, a.Checked regex ∧ a.planned regex = plan := by
  rw [Arguments.plan] at h
  cases hfunction : Source.isIdentifier a.names.function with
  | false =>
    rw [hfunction] at h
    cases h
  | true =>
    cases hruntime : Source.isPath a.names.runtime with
    | false =>
      rw [hfunction, hruntime] at h
      cases h
    | true =>
      cases hpattern : Regex.compile a.pattern with
      | error e =>
        rw [hfunction, hruntime, hpattern] at h
        cases h
      | ok regex =>
        rw [hfunction, hruntime, hpattern] at h
        exact ⟨regex, ⟨hfunction, hruntime, hpattern⟩, Except.ok.inj h⟩

end Arguments

/-! ## A run -/

variable {args : List String} {folder : Folder} {a : Arguments} {regex : Regex} {place : Location}

/-- The arguments pass the checks, and their path leads to a place where a file can be created. -/
structure Aims (args : List String) (folder : Folder) (a : Arguments) (regex : Regex)
    (place : Location) : Prop where
  /-- the arguments make sense -/
  parse : Arguments.parse args = .ok a
  /-- the names and the pattern are in order -/
  checked : a.Checked regex
  /-- the path can be opened -/
  locate : folder.locate (a.out.getD (defaultOut a.names)) = .ok place

theorem Aims.unique {a' : Arguments} {regex' : Regex} {place' : Location}
    (h : Aims args folder a regex place) (h' : Aims args folder a' regex' place') :
    a = a' ∧ regex = regex' ∧ place = place' := by
  obtain rfl := Except.ok.inj (h.parse.symm.trans h'.parse)
  exact ⟨rfl, h.checked.unique h'.checked, Except.ok.inj (h.locate.symm.trans h'.locate)⟩

/-- What a run may lead to. -/
inductive Leads (args : List String) (folder : Folder) : Outcome → Prop where
  /-- the arguments are refused -/
  | refused (h : ∀ a regex, Arguments.parse args = .ok a → ¬ a.Checked regex) {exit : Nat}
      (hexit : exit ≠ 0) (stderr : String) : Leads args folder ⟨exit, "", stderr, folder⟩
  /-- the file cannot be created -/
  | uncreatable {a : Arguments} {regex : Regex} (hparse : Arguments.parse args = .ok a)
      (hchecked : a.Checked regex) (hlocate : ∀ place, ¬ Aims args folder a regex place)
      (stderr : String) : Leads args folder ⟨1, (a.planned regex).stdout, stderr, folder⟩
  /-- the module is written -/
  | written {a : Arguments} {regex : Regex} {place : Location}
      (haims : Aims args folder a regex place) :
      Leads args folder ((a.planned regex).carryOut folder place)

/-- **A run** ends in one of three ways. -/
theorem leads_run (args : List String) (folder : Folder) : Leads args folder (run args folder) := by
  rw [run]
  cases hparse : Arguments.parse args with
  | error e =>
    refine .refused ?_ (Nat.succ_ne_zero 1) _
    intro a regex h
    rw [hparse] at h
    cases h
  | ok a =>
    cases hplan : a.plan with
    | error failure =>
      simp only [hplan]
      refine .refused ?_ Nat.one_ne_zero _
      intro a' regex h hchecked
      obtain rfl := Except.ok.inj (hparse.symm.trans h)
      rw [hchecked.plan_eq] at hplan
      cases hplan
    | ok plan =>
      obtain ⟨regex, hchecked, rfl⟩ := Arguments.exists_checked hplan
      cases hlocate : folder.locate (a.planned regex).out with
      | error e =>
        simp only [hplan, hlocate]
        refine .uncreatable hparse hchecked ?_ _
        intro place haims
        have hok := haims.locate
        rw [Arguments.planned] at hlocate
        rw [hlocate] at hok
        cases hok
      | ok place =>
        simp only [hplan, hlocate]
        exact .written ⟨hparse, hchecked, hlocate⟩

/-- All or nothing. -/
structure AllOrNothing (args : List String) (folder : Folder) (outcome : Outcome) : Prop where
  /-- a run that fails leaves all files alone -/
  failed : outcome.exit ≠ 0 → outcome.folder = folder
  /-- a run that succeeds has passed all checks, and leaves all files alone but the one that the
  path names, which has the text of the module, unless there is a device -/
  succeeded : outcome.exit = 0 → ∃ a regex place, Aims args folder a regex place ∧
    (folder.device? place = none → outcome.folder.content? place =
      some (Source.moduleText a.pattern regex.program a.names)) ∧
    ∀ other, other ≠ place ∨ folder.device? place ≠ none →
      outcome.folder.content? other = folder.content? other
  /-- a run that passes all checks succeeds, if there is room for what is written -/
  succeeds : ∀ a regex place, Aims args folder a regex place →
    folder.device? place ≠ some .full → outcome.exit = 0
  /-- the standard output is the disassembly if it is asked for -/
  shown : ∀ a regex, Arguments.parse args = .ok a → a.Checked regex →
    (∀ place, Aims args folder a regex place → folder.device? place ≠ some .output) →
    outcome.stdout = if a.dump then regex.program.disassembly else ""
  /-- followed by the text of the module if the path names the standard output -/
  printed : ∀ a regex place, Aims args folder a regex place → folder.device? place = some .output →
    outcome.stdout = (if a.dump then regex.program.disassembly else "") ++
      Source.moduleText a.pattern regex.program a.names
  /-- a run that does not pass the checks of the names and the pattern says nothing there -/
  silent : (∀ a regex, Arguments.parse args = .ok a → ¬ a.Checked regex) → outcome.stdout = ""

section

variable (plan : Plan) (folder : Folder) (place : Location)

theorem carryOut_exit_eq_zero_iff :
    (plan.carryOut folder place).exit = 0 ↔ folder.device? place ≠ some .full := by
  rw [Plan.carryOut]
  rcases folder.device? place with _ | _ | _ | _ | _ <;> simp

theorem carryOut_folder (h : folder.device? place = none) :
    (plan.carryOut folder place).folder = folder.write place plan.source := by
  rw [Plan.carryOut, h]

theorem carryOut_folder_of_device (h : folder.device? place ≠ none) :
    (plan.carryOut folder place).folder = folder := by
  rw [Plan.carryOut]
  rcases hdevice : folder.device? place with _ | _ | _ | _ | _
  · exact absurd hdevice h
  all_goals rfl

theorem carryOut_stdout (h : folder.device? place ≠ some .output) :
    (plan.carryOut folder place).stdout = plan.stdout := by
  rw [Plan.carryOut]
  rcases hdevice : folder.device? place with _ | _ | _ | _ | _
  case some.output => exact absurd hdevice h
  all_goals rfl

theorem carryOut_stdout_of_output (h : folder.device? place = some .output) :
    (plan.carryOut folder place).stdout = plan.stdout ++ plan.source := by
  rw [Plan.carryOut, h]

end

theorem Leads.allOrNothing {outcome : Outcome} (h : Leads args folder outcome) :
    AllOrNothing args folder outcome := by
  cases h with
  | refused h hexit stderr =>
    constructor
    case failed => exact fun _ => rfl
    case succeeded => exact fun hzero => absurd hzero hexit
    case succeeds => exact fun a regex place haims => absurd haims.checked (h a regex haims.parse)
    case shown => exact fun a regex hparse hchecked => absurd hchecked (h a regex hparse)
    case printed => exact fun a regex place haims => absurd haims.checked (h a regex haims.parse)
    case silent => exact fun _ => rfl
  | @uncreatable a regex hparse hchecked hlocate stderr =>
    have hsame {a' : Arguments} {regex' : Regex} (hparse' : Arguments.parse args = .ok a')
        (hchecked' : a'.Checked regex') : a' = a ∧ regex' = regex := by
      obtain rfl := Except.ok.inj (hparse'.symm.trans hparse)
      exact ⟨rfl, hchecked'.unique hchecked⟩
    constructor
    case failed => exact fun _ => rfl
    case succeeded => exact fun hzero => absurd hzero Nat.one_ne_zero
    case succeeds =>
      intro a' regex' place haims
      obtain ⟨rfl, rfl⟩ := hsame haims.parse haims.checked
      exact absurd haims (hlocate place)
    case shown =>
      intro a' regex' hparse' hchecked' _
      obtain ⟨rfl, rfl⟩ := hsame hparse' hchecked'
      rfl
    case printed =>
      intro a' regex' place haims
      obtain ⟨rfl, rfl⟩ := hsame haims.parse haims.checked
      exact absurd haims (hlocate place)
    case silent => exact fun hnone => absurd hchecked (hnone a regex hparse)
  | @written a regex place haims =>
    constructor
    case failed =>
      intro hexit
      apply carryOut_folder_of_device
      intro hnone
      apply hexit
      rw [carryOut_exit_eq_zero_iff, hnone]
      exact Option.some_ne_none _ |>.symm
    case succeeded =>
      intro _
      refine ⟨a, regex, place, haims, ?_, ?_⟩
      · intro hnone
        rw [carryOut_folder _ _ _ hnone, Folder.content?_write_self, Arguments.planned]
      · intro other hother
        by_cases hnone : folder.device? place = none
        · rw [carryOut_folder _ _ _ hnone]
          exact Folder.content?_write_of_ne folder (hother.resolve_right (not_not_intro hnone))
        · rw [carryOut_folder_of_device _ _ _ hnone]
    case succeeds =>
      intro a' regex' place' haims' hroom
      obtain ⟨rfl, rfl, rfl⟩ := haims.unique haims'
      exact (carryOut_exit_eq_zero_iff _ _ _).mpr hroom
    case shown =>
      intro a' regex' hparse' hchecked' hplace
      obtain rfl := Except.ok.inj (hparse'.symm.trans haims.parse)
      obtain rfl := hchecked'.unique haims.checked
      rw [carryOut_stdout _ _ _ (hplace place haims), Arguments.planned]
    case printed =>
      intro a' regex' place' haims' hdevice
      obtain ⟨rfl, rfl, rfl⟩ := haims.unique haims'
      rw [carryOut_stdout_of_output _ _ _ hdevice, Arguments.planned]
    case silent => exact fun hnone => absurd haims.checked (hnone a regex haims.parse)

/-- **All or nothing**: for any arguments and files. -/
theorem run_all_or_nothing (args : List String) (folder : Folder) :
    AllOrNothing args folder (run args folder) :=
  (leads_run args folder).allOrNothing

/-! ## Devices -/

theorem moduleText_ne_empty (pattern : String) (p : Program) (names : Source.Names) :
    Source.moduleText pattern p names ≠ "" := by
  intro hempty
  have htext := congrArg String.toList hempty
  simp [Source.moduleText, Source.moduleLines, Source.headLines] at htext

/-- What is written to a device that takes it is in no file. -/
theorem run_to_device (haims : Aims args folder a regex place) {device : Device}
    (hdevice : folder.device? place = some device) (hroom : device ≠ .full) :
    (run args folder).exit = 0 ∧
      ∀ other, (run args folder).folder.content? other = folder.content? other := by
  obtain ⟨-, hsucceeded, hsucceeds, -, -, -⟩ := (leads_run args folder).allOrNothing
  have hexit : (run args folder).exit = 0 := by
    apply hsucceeds a regex place haims
    rw [hdevice]
    exact fun hfull => hroom (Option.some.inj hfull)
  refine ⟨hexit, fun other => ?_⟩
  obtain ⟨a', regex', place', haims', -, hother⟩ := hsucceeded hexit
  obtain ⟨-, -, rfl⟩ := haims.unique haims'
  apply hother
  right
  rw [hdevice]
  exact Option.some_ne_none device

/-- If the path names the standard output, that is not empty without `--dump`, and no file has the
text of the module. -/
theorem run_to_standard_output :
    (∃ a regex, Arguments.parse ["-p", "a", "--out", "/dev/stdout"] = .ok a ∧ a.Checked regex ∧
      a.dump = false) ∧
    (run ["-p", "a", "--out", "/dev/stdout"] { files := [] }).exit = 0 ∧
    (run ["-p", "a", "--out", "/dev/stdout"] { files := [] }).stdout ≠ "" ∧
    ∀ place, (run ["-p", "a", "--out", "/dev/stdout"] { files := [] }).folder.content? place =
      none := by
  have hparse : Arguments.parse ["-p", "a", "--out", "/dev/stdout"] =
      .ok ⟨"a", Source.Names.standard, some "/dev/stdout", false⟩ := rfl
  have hliteral : Expr.parse "a" = .ok (.literal 'a') := rfl
  obtain ⟨p, hpattern, -⟩ := Regex.compile_of_parse hliteral
  have hchecked : Arguments.Checked ⟨"a", Source.Names.standard, some "/dev/stdout", false⟩
      ⟨"a", p⟩ := ⟨by decide, by decide, hpattern⟩
  have haims : Aims ["-p", "a", "--out", "/dev/stdout"] { files := [] } _ _
      ["/", "dev", "stdout"] :=
    ⟨hparse, hchecked, rfl⟩
  have hdevice : ({ files := [] } : Folder).device? ["/", "dev", "stdout"] = some .output := by
    decide
  obtain ⟨hexit, hfiles⟩ := run_to_device haims hdevice (by decide)
  obtain ⟨-, -, -, -, hprinted, -⟩ :=
    (leads_run ["-p", "a", "--out", "/dev/stdout"] { files := [] }).allOrNothing
  refine ⟨⟨_, _, hparse, hchecked, rfl⟩, hexit, ?_, hfiles⟩
  rw [hprinted _ _ _ haims hdevice]
  intro hempty
  exact moduleText_ne_empty _ _ _ (String.append_eq_empty_iff.mp hempty).2

end RegexMachine.Command
