import MethodPatch.CommandLine.Run
import MethodPatch.Proofs.Files.Write
import MethodPatch.Proofs.Plan.LocatedAnchors

set_option autoImplicit false

namespace MethodPatch

/-- Only what stands can be scanned. -/
theorem Scan.resolve?_ne_none {files : FileSystem} {input : String} {scan : Scan}
    (scanned : Scan.ofInput files input = .ok scan) : files.resolve? input ≠ none := by
  intro nothing
  have unread : files.contentOf? input = none := by simp only [FileSystem.contentOf?, nothing]
  simp only [ofInput, nothing, unread] at scanned
  split at scanned
  · cases scanned
  · cases scanned

theorem PatchPlan.resolve?_ne_none {files : FileSystem} {path : String} {plan : PatchPlan}
    (loaded : PatchPlan.load files path = .ok plan) : files.resolve? path ≠ none := by
  intro nothing
  have unread : files.contentOf? path = none := by simp only [FileSystem.contentOf?, nothing]
  simp only [load, unread] at loaded
  cases loaded

namespace CommandLine

namespace Arguments

/-- The file that the report goes to, if it is not printed. -/
def reportFile? (arguments : Arguments) : Option String :=
  arguments.output.filter fun path => !Path.isStandardOutput path

/-- The files that are written, in order. -/
def writtenFiles (arguments : Arguments) : List String :=
  arguments.reportFile?.toList ++ arguments.classes.toList

end Arguments

/-- How a run comes to an end before everything is worked out: at the first of its steps that
fails. -/
inductive Stops (arguments : Arguments) (files : FileSystem) : Failure → Prop where
  | noInput (missing : files.resolve? arguments.input = none) :
      Stops arguments files (.inputNotFound arguments.input)
  | noPlan (input : files.resolve? arguments.input ≠ none)
      (missing : files.resolve? arguments.plan = none) :
      Stops arguments files (.planNotFound arguments.plan)
  | badPlan {failure : Failure} (input : files.resolve? arguments.input ≠ none)
      (plan : files.resolve? arguments.plan ≠ none)
      (refused : PatchPlan.load files arguments.plan = .error failure) :
      Stops arguments files failure
  | badInput {failure : Failure} {plan : PatchPlan}
      (input : files.resolve? arguments.input ≠ none)
      (loaded : PatchPlan.load files arguments.plan = .ok plan)
      (refused : Scan.ofInput files arguments.input = .error failure) :
      Stops arguments files failure
  | badOverride {failure : Failure} {plan : PatchPlan} {scan : Scan}
      (loaded : PatchPlan.load files arguments.plan = .ok plan)
      (scanned : Scan.ofInput files arguments.input = .ok scan)
      (refused : plan.applyOverrides scan.classes = .error failure) :
      Stops arguments files failure
  | badAnchor {failure : Failure} {plan : PatchPlan} {scan : Scan}
      {outcomes : List OverrideOutcome} {classes : List Class}
      (loaded : PatchPlan.load files arguments.plan = .ok plan)
      (scanned : Scan.ofInput files arguments.input = .ok scan)
      (applied : plan.applyOverrides scan.classes = .ok (outcomes, classes))
      (refused : plan.locateAnchors classes = .error failure) :
      Stops arguments files failure

/-- What a run works out before it writes anything. -/
structure Workings where
  plan : PatchPlan
  scan : Scan
  outcomes : List OverrideOutcome
  classes : List Class
  located : LocatedAnchors

namespace Workings

/-- These are the workings of a run. -/
structure IsOf (workings : Workings) (arguments : Arguments) (files : FileSystem) : Prop where
  loaded : PatchPlan.load files arguments.plan = .ok workings.plan
  scanned : Scan.ofInput files arguments.input = .ok workings.scan
  applied : workings.plan.applyOverrides workings.scan.classes =
    .ok (workings.outcomes, workings.classes)
  located : workings.plan.locateAnchors workings.classes = .ok workings.located

def delivery (workings : Workings) (words : List String) : Delivery :=
  ⟨(Report.ofRun words workings.scan.artifacts workings.outcomes workings.located.hits).pretty ++
      "\n",
    (Json.ofList Class.toJson workings.classes).pretty, workings.located.missing,
    ⟨workings.scan.classes.length, workings.located.hits.length, workings.outcomes.length⟩⟩

/-- The workings with no anchor required. -/
def relaxed (workings : Workings) : Workings :=
  { workings with plan := workings.plan.relaxed, located := ⟨workings.located.hits, []⟩ }

variable {workings : Workings} {arguments : Arguments} {files : FileSystem}

/-- The anchors that are missed are the required ones that nothing was found for. -/
theorem IsOf.missing_eq (made : workings.IsOf arguments files) :
    workings.located.missing = workings.plan.unmet workings.located.hits := by
  have valid := PatchPlan.isValid_of_load made.loaded
  have located := valid.locateAnchors_eq workings.classes
  rw [valid.missing_eq_unmet] at located
  rw [Except.ok.inj (made.located.symm.trans located)]

/-- With the plan relaxed and the input as it was, a run finds the same and misses nothing. -/
theorem IsOf.relaxed (made : workings.IsOf arguments files) {other : FileSystem}
    (loaded : PatchPlan.load other arguments.plan = .ok workings.plan.relaxed)
    (scanned : Scan.ofInput other arguments.input = .ok workings.scan) :
    workings.relaxed.IsOf arguments other where
  loaded := loaded
  scanned := scanned
  applied := made.applied
  located := by
    have valid := PatchPlan.isValid_of_load made.loaded
    have located := made.located.symm.trans (valid.locateAnchors_eq workings.classes)
    rw [Workings.relaxed, valid.locateAnchors_relaxed, Except.ok.inj located]

end Workings

theorem Delivery.outputs_eq (delivery : Delivery) (arguments : Arguments) :
    delivery.outputs arguments = ⟨arguments.reportFile?, delivery.report⟩ ::
      arguments.classes.toList.map fun path => ⟨some path, delivery.classes⟩ := rfl

theorem Delivery.paths_outputs (delivery : Delivery) (arguments : Arguments) :
    (delivery.outputs arguments).filterMap (·.path) = arguments.writtenFiles := by
  rw [outputs_eq, Arguments.writtenFiles]
  cases arguments.reportFile? with
  | none => cases arguments.classes <;> rfl
  | some path => cases arguments.classes <;> rfl

section Preparation

variable {arguments : Arguments} {files : FileSystem}

/-- With both files in place, the steps follow each other. -/
theorem prepare_of_standing (words : List String) (input : files.resolve? arguments.input ≠ none)
    (plan : files.resolve? arguments.plan ≠ none) :
    prepare words arguments files =
      (PatchPlan.load files arguments.plan).bind fun plan =>
        (Scan.ofInput files arguments.input).bind fun scan =>
          (plan.applyOverrides scan.classes).bind fun (outcomes, classes) =>
            (plan.locateAnchors classes).bind fun located =>
              .ok ((Workings.mk plan scan outcomes classes located).delivery words) := by
  rw [← Option.isSome_iff_ne_none, ← Option.isNone_eq_false_iff] at input plan
  simp only [prepare, input, plan, Bool.false_eq_true, if_false]
  rfl

theorem prepare_of_stops (words : List String) {failure : Failure}
    (stops : Stops arguments files failure) : prepare words arguments files = .error failure := by
  cases stops with
  | noInput missing =>
      rw [prepare, missing]
      rfl
  | noPlan input missing =>
      rw [← Option.isSome_iff_ne_none, ← Option.isNone_eq_false_iff] at input
      rw [prepare, input, missing]
      rfl
  | badPlan input plan refused =>
      rw [prepare_of_standing words input plan, refused]
      rfl
  | badInput input loaded refused =>
      rw [prepare_of_standing words input (PatchPlan.resolve?_ne_none loaded), loaded, refused]
      rfl
  | badOverride loaded scanned refused =>
      rw [prepare_of_standing words (Scan.resolve?_ne_none scanned)
        (PatchPlan.resolve?_ne_none loaded), loaded, scanned]
      simp only [Except.bind, refused]
  | badAnchor loaded scanned applied refused =>
      rw [prepare_of_standing words (Scan.resolve?_ne_none scanned)
        (PatchPlan.resolve?_ne_none loaded), loaded, scanned]
      simp only [Except.bind, applied, refused]

theorem Workings.IsOf.prepare_eq {workings : Workings} (made : workings.IsOf arguments files)
    (words : List String) : prepare words arguments files = .ok (workings.delivery words) := by
  rw [prepare_of_standing words (Scan.resolve?_ne_none made.scanned)
    (PatchPlan.resolve?_ne_none made.loaded), made.loaded, made.scanned]
  simp only [Except.bind, made.applied, made.located]

/-- A run that is not stopped works everything out. -/
theorem exists_isOf (goesOn : ∀ failure, ¬Stops arguments files failure) :
    ∃ workings : Workings, workings.IsOf arguments files := by
  have input : files.resolve? arguments.input ≠ none := fun missing =>
    goesOn _ (.noInput missing)
  have standing : files.resolve? arguments.plan ≠ none := fun missing =>
    goesOn _ (.noPlan input missing)
  cases loaded : PatchPlan.load files arguments.plan with
  | error failure => exact absurd (.badPlan input standing loaded) (goesOn failure)
  | ok plan =>
      cases scanned : Scan.ofInput files arguments.input with
      | error failure => exact absurd (.badInput input loaded scanned) (goesOn failure)
      | ok scan =>
          cases applied : plan.applyOverrides scan.classes with
          | error failure => exact absurd (.badOverride loaded scanned applied) (goesOn failure)
          | ok result =>
              obtain ⟨outcomes, classes⟩ := result
              cases located : plan.locateAnchors classes with
              | error failure =>
                  exact absurd (.badAnchor loaded scanned applied located) (goesOn failure)
              | ok anchors =>
                  exact ⟨⟨plan, scan, outcomes, classes, anchors⟩, loaded, scanned, applied,
                    located⟩

end Preparation

namespace Outcome

/-- Two runs have printed the same, and written the same to these files. -/
structure Alike (paths : List String) (first second : Outcome) : Prop where
  printed : first.printed = second.printed
  workingDirectory : first.files.workingDirectory = second.files.workingDirectory
  content : ∀ path ∈ paths, ∃ content,
    first.files.contentOf? path = some content ∧ second.files.contentOf? path = some content

variable {paths : List String} {first second : Outcome}

/-- Both runs write the next file. What it takes the place of, it takes the place of in both. -/
theorem Alike.write (alike : Alike paths first second) {path : String} {content : List UInt8}
    {after afterSecond : FileSystem} (written : first.files.Written path content after)
    (writtenSecond : second.files.Written path content afterSecond)
    (opens : first.files.Opens path) (opensSecond : second.files.Opens path) :
    Alike (path :: paths) { first with files := after }
      { second with files := afterSecond } := by
  have here := FileSystem.trail?_alike alike.workingDirectory opens.isSome_trail?
    opensSecond.isSome_trail?
  refine ⟨alike.printed, ?_, List.forall_mem_cons.mpr ⟨⟨content, ?_, ?_⟩, ?_⟩⟩
  · rw [written.workingDirectory, writtenSecond.workingDirectory, alike.workingDirectory]
  · rw [written.contentOf?, if_pos rfl]
  · rw [writtenSecond.contentOf?, if_pos rfl]
  · intro other member
    obtain ⟨earlier, read, readSecond⟩ := alike.content other member
    have there := FileSystem.trail?_alike alike.workingDirectory
      (FileSystem.isSome_trail?_of_contentOf? read)
      (FileSystem.isSome_trail?_of_contentOf? readSecond)
    rw [written.contentOf?, writtenSecond.contentOf?, here, there, read, readSecond]
    split
    · exact ⟨content, rfl, rfl⟩
    · exact ⟨earlier, rfl, rfl⟩

/-- Runs that go on to write the same outputs stay alike, as long as no file is closed to them. -/
theorem Alike.writeAll (alike : Alike paths first second) (outputs : List Output)
    (opens : ∀ path ∈ outputs.filterMap (·.path),
      first.files.Opens path ∧ second.files.Opens path) :
    (first.writeAll outputs).result = first.result ∧
      (second.writeAll outputs).result = second.result ∧
      Alike ((outputs.filterMap (·.path)).reverse ++ paths) (first.writeAll outputs)
        (second.writeAll outputs) := by
  induction outputs generalizing first second paths with
  | nil => exact ⟨rfl, rfl, alike⟩
  | cons output rest ih =>
      obtain ⟨path | path, text⟩ := output
      · have printed : Alike paths { first with printed := first.printed ++ text }
            { second with printed := second.printed ++ text } :=
          ⟨congrArg (· ++ text) alike.printed, alike.workingDirectory, alike.content⟩
        exact ih printed opens
      · have named : (⟨some path, text⟩ :: rest : List Output).filterMap (·.path) =
            path :: rest.filterMap (·.path) := rfl
        rw [named, List.forall_mem_cons] at opens
        obtain ⟨⟨open_, openSecond⟩, later⟩ := opens
        obtain ⟨after, success, written⟩ := open_.exists_written (Text.bytes text)
        obtain ⟨afterSecond, successSecond, writtenSecond⟩ :=
          openSecond.exists_written (Text.bytes text)
        have next := ih (alike.write written writtenSecond open_ openSecond) fun path member =>
          ⟨(written.opens_iff path).mpr (later path member).1,
            (writtenSecond.opens_iff path).mpr (later path member).2⟩
        rw [named, List.reverse_cons, List.append_assoc]
        simp only [Outcome.writeAll, success, successSecond]
        exact next

end Outcome

section Run

variable {arguments : Arguments} {files : FileSystem} {workings : Workings}

namespace Workings.IsOf

theorem run_eq (made : workings.IsOf arguments files) (words : List String) :
    run words arguments files =
      Outcome.writeAll ⟨(workings.delivery words).conclusion, "", files⟩
        ((workings.delivery words).outputs arguments) := by
  rw [run, made.prepare_eq]

/-- Where the file for the report is closed, nothing is written, the classes included. -/
theorem run_of_closed (made : workings.IsOf arguments files) (words : List String)
    {path : String} (report : arguments.reportFile? = some path) (closed : ¬files.Opens path) :
    run words arguments files = ⟨.error (.unopened path), "", files⟩ := by
  rw [made.run_eq, Delivery.outputs_eq, report, Outcome.writeAll,
    FileSystem.write?_of_not_opens closed]

/-- Two runs with the same to write, and with files that open, write it alike; each then ends as its
own workings say. -/
theorem run_alike (made : workings.IsOf arguments files) (words : List String)
    {others : Workings} {other : FileSystem} (madeOther : others.IsOf arguments other)
    (same : (others.delivery words).outputs arguments = (workings.delivery words).outputs arguments)
    (origin : other.workingDirectory = files.workingDirectory)
    (opens : ∀ path ∈ arguments.writtenFiles, files.Opens path)
    (opensOther : ∀ path ∈ arguments.writtenFiles, other.Opens path) :
    (run words arguments files).result = (workings.delivery words).conclusion ∧
      (run words arguments other).result = (others.delivery words).conclusion ∧
      Outcome.Alike arguments.writtenFiles (run words arguments files)
        (run words arguments other) := by
  have start : Outcome.Alike [] ⟨(workings.delivery words).conclusion, "", files⟩
      ⟨(others.delivery words).conclusion, "", other⟩ :=
    ⟨rfl, origin.symm, fun _ member => absurd member List.not_mem_nil⟩
  have paths := (workings.delivery words).paths_outputs arguments
  obtain ⟨result, resultOther, alike⟩ :=
    start.writeAll ((workings.delivery words).outputs arguments) fun path member =>
      ⟨opens path (paths ▸ member), opensOther path (paths ▸ member)⟩
  rw [paths, List.append_nil] at alike
  rw [made.run_eq, madeOther.run_eq, same]
  exact ⟨result, resultOther, alike.printed, alike.workingDirectory, fun path member =>
    alike.content path (List.mem_reverse.mpr member)⟩

theorem conclusion_eq (made : workings.IsOf arguments files) (words : List String) :
    (workings.delivery words).conclusion =
      if workings.plan.unmet workings.located.hits = [] then .ok ()
      else .error (.anchorsNotFound (workings.plan.unmet workings.located.hits)) := by
  rw [← made.missing_eq, Delivery.conclusion, Workings.delivery]
  simp only [List.isEmpty_iff]

end Workings.IsOf

end Run

/-- A run whose steps do not all succeed writes and prints nothing, and one that cannot open the
file for its report does not write the classes either. Any other run that can open its files ends in
the ids of the required anchors that nothing was found for, if there are any; and it prints and
writes what the run of the plan with no anchor required prints and writes. -/
theorem requirement_decides_result (words : List String) (arguments : Arguments)
    (files : FileSystem) :
    (∀ failure, Stops arguments files failure →
      run words arguments files = ⟨.error failure, "", files⟩) ∧
    ((∀ failure, ¬Stops arguments files failure) →
      ∃ workings : Workings, workings.IsOf arguments files) ∧
    ∀ workings : Workings, workings.IsOf arguments files →
      (∀ path, arguments.reportFile? = some path → ¬files.Opens path →
        run words arguments files = ⟨.error (.unopened path), "", files⟩) ∧
      ((∀ path ∈ arguments.writtenFiles, files.Opens path) →
        let missing := workings.plan.unmet workings.located.hits
        (run words arguments files).result =
          (if missing = [] then .ok () else .error (.anchorsNotFound missing)) ∧
        ∀ other : FileSystem, other.workingDirectory = files.workingDirectory →
          PatchPlan.load other arguments.plan = .ok workings.plan.relaxed →
          Scan.ofInput other arguments.input = .ok workings.scan →
          (∀ path ∈ arguments.writtenFiles, other.Opens path) →
          (run words arguments other).result = .ok () ∧
            (run words arguments other).printed = (run words arguments files).printed ∧
            ∀ path ∈ arguments.writtenFiles, ∃ content,
              (run words arguments files).files.contentOf? path = some content ∧
                (run words arguments other).files.contentOf? path = some content) := by
  refine ⟨fun failure stops => ?_, exists_isOf, fun workings made =>
    ⟨fun path report closed => made.run_of_closed words report closed,
      fun opens => ⟨?_, fun other origin loaded scanned opensOther => ?_⟩⟩⟩
  · rw [run, prepare_of_stops words stops]
  · exact (made.run_alike words made rfl rfl opens opens).1.trans (made.conclusion_eq words)
  · obtain ⟨_, result, alike⟩ :=
      made.run_alike words (made.relaxed loaded scanned) rfl origin opens opensOther
    exact ⟨result, alike.printed.symm, alike.content⟩

/-- A cast is found and a call is not, in files that are new. -/
theorem requirement_decides_result_call :
    let dump := "[\"H\",null,false,[[\"m\",\"()V\",[],[],[[3,192,\x7b\"check_cast\":\"B\"\x7d]]]]]"
    let request (id required kind : String) : String :=
      "[\"" ++ id ++ "\",\"H\",\"m\",null,\"all\"," ++ required ++ ",[[],[\"" ++ kind ++ "\"]]]"
    let plan (required : String) : String :=
      "[[" ++ request "a" required "type_cast" ++ "," ++ request "b" required "method_call" ++ "]]"
    let files (required : String) : FileSystem :=
      ⟨.directory [("w", .directory [("in", .directory [("a.json", .file (Text.bytes dump))]),
        ("p", .file (Text.bytes (plan required)))])], ["w"]⟩
    let arguments : Arguments := ⟨"in", "p", some "r", some "./c", false, false⟩
    (run [] arguments (files "true")).result = .error (.anchorsNotFound ["b"]) ∧
      (run [] arguments (files "false")).result = .ok () ∧
      ∀ path ∈ ["r", "./c"], ∃ content,
        (run [] arguments (files "true")).files.contentOf? path = some content ∧
          (run [] arguments (files "false")).files.contentOf? path = some content := by
  intro dump request plan files arguments
  let cast : Instruction := ⟨3, 192, .checkCast "B"⟩
  let owner : Class :=
    ⟨"H", none, false, [⟨"m", "()V", .packagePrivate, [], [cast], [], []⟩], 0⟩
  let asked (id : String) (kind : ExpressionKind) : AnchorRequest :=
    ⟨id, "H", "m", none, .all, true, ⟨[], some (.ofKind kind)⟩⟩
  let workings : Workings :=
    ⟨⟨[asked "a" .typeCast, asked "b" .methodCall], []⟩, ⟨[⟨"in/a.json", 65, false⟩], [owner]⟩, [],
      [owner], ⟨[⟨"a", "H", "m", "()V", ⟨3, none, .typeCast⟩⟩], ["b"]⟩⟩
  have loaded : PatchPlan.load (files "true") "p" = .ok workings.plan := by decide +kernel
  have relaxed : PatchPlan.load (files "false") "p" = .ok workings.plan.relaxed := by
    decide +kernel
  have scanned : Scan.ofInput (files "true") "in" = .ok workings.scan := by decide +kernel
  have rescanned : Scan.ofInput (files "false") "in" = .ok workings.scan := by decide +kernel
  have applied : workings.plan.applyOverrides workings.scan.classes =
      .ok (workings.outcomes, workings.classes) := by decide +kernel
  have located : workings.plan.locateAnchors workings.classes = .ok workings.located := by
    decide +kernel
  have opens : ∀ path ∈ arguments.writtenFiles, (files "true").Opens path := by decide +kernel
  have reopens : ∀ path ∈ arguments.writtenFiles, (files "false").Opens path := by
    decide +kernel
  obtain ⟨-, -, runs⟩ := requirement_decides_result [] arguments (files "true")
  obtain ⟨result, alike⟩ := (runs workings ⟨loaded, scanned, applied, located⟩).2 opens
  obtain ⟨finished, -, written⟩ := alike (files "false") rfl relaxed rescanned reopens
  exact ⟨result, finished, written⟩

end CommandLine

end MethodPatch
