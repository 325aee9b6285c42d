import MethodPatch.CommandLine.Arguments
import MethodPatch.Json.Writer
import MethodPatch.Plan.Load
import MethodPatch.Report

set_option autoImplicit false

namespace MethodPatch.CommandLine

/-- How many classes were scanned, anchors found and methods made overridable. -/
structure Counts where
  classes : Nat
  anchors : Nat
  rewrites : Nat
deriving DecidableEq, Repr

/-- All that a run has to deliver. -/
structure Delivery where
  report : String
  classes : String
  /-- The ids of required anchors that were not found. -/
  missing : List String
  counts : Counts
deriving DecidableEq, Repr

/-- Works out the delivery. `words` is the command line that the report tells of. -/
def prepare (words : List String) (arguments : Arguments) (files : FileSystem) :
    Except Failure Delivery := do
  if (files.resolve? arguments.input).isNone then .error (.inputNotFound arguments.input)
  if (files.resolve? arguments.plan).isNone then .error (.planNotFound arguments.plan)
  let plan ← PatchPlan.load files arguments.plan
  let scan ← Scan.ofInput files arguments.input
  let (outcomes, classes) ← plan.applyOverrides scan.classes
  let located ← plan.locateAnchors classes
  return ⟨(Report.ofRun words scan.artifacts outcomes located.hits).pretty ++ "\n",
    (Json.ofList Class.toJson classes).pretty, located.missing,
    ⟨scan.classes.length, located.hits.length, outcomes.length⟩⟩

/-- A text and the file it is for; without a file it is printed. -/
structure Output where
  path : Option String
  text : String
deriving DecidableEq, Repr

/-- What is written, in order. -/
def Delivery.outputs (delivery : Delivery) (arguments : Arguments) : List Output :=
  ⟨arguments.output.filter fun path => !Path.isStandardOutput path, delivery.report⟩ ::
    arguments.classes.toList.map fun path => ⟨some path, delivery.classes⟩

/-- The line about the time taken, where one is asked for. -/
def Delivery.timing? (delivery : Delivery) (arguments : Arguments) (milliseconds : Nat) :
    Option String :=
  if arguments.timing && !arguments.quiet then
    some ("timing: total_ms=" ++ toString milliseconds ++
      " classes=" ++ toString delivery.counts.classes ++
      " anchors=" ++ toString delivery.counts.anchors ++
      " rewrites=" ++ toString delivery.counts.rewrites)
  else none

/-- How the run ends once everything is written. -/
def Delivery.conclusion (delivery : Delivery) : Except Failure Unit :=
  if delivery.missing.isEmpty then .ok () else .error (.anchorsNotFound delivery.missing)

/-- Where a run leaves off: how it ended, what it printed, and the files after it. -/
structure Outcome where
  result : Except Failure Unit
  printed : String
  files : FileSystem

/-- Writes outputs in order, up to the first whose file cannot be written. -/
def Outcome.writeAll (outcome : Outcome) : List Output → Outcome
  | [] => outcome
  | ⟨none, text⟩ :: rest => { outcome with printed := outcome.printed ++ text }.writeAll rest
  | ⟨some path, text⟩ :: rest =>
      match outcome.files.write? path (Text.bytes text) with
      | some files => { outcome with files := files }.writeAll rest
      | none => { outcome with result := .error (.unopened path) }

/-- Runs the program. Everything is worked out before anything is written. -/
def run (words : List String) (arguments : Arguments) (files : FileSystem) : Outcome :=
  match prepare words arguments files with
  | .error failure => ⟨.error failure, "", files⟩
  | .ok delivery =>
      Outcome.writeAll ⟨delivery.conclusion, "", files⟩ (delivery.outputs arguments)

end MethodPatch.CommandLine
