import MethodPatch.Dump.Scan
import MethodPatch.Plan.Anchors
import MethodPatch.Plan.Overrides

set_option autoImplicit false

namespace MethodPatch.Report

open Json

/-- The name that the program gives itself. -/
def toolName : String := "patchpoint"

def schema : String := "https://schemastore.azurewebsites.net/schemas/json/sarif-2.1.0.json"

def overrideRule : String := "OVERRIDABLE"

def message (text : String) : Json := ofMembers [("text", ofText text)]

/-- One result about a method, under the rule that it falls under. -/
def result (rule text methodText : String) : Json :=
  ofMembers
    [("locations", .array [ofMembers
      [("logicalLocations", .array [ofMembers
        [("kind", ofText "function"), ("name", ofText methodText)]])]]),
     ("message", message text), ("ruleId", ofText rule)]

def ofOutcome (outcome : OverrideOutcome) : Json :=
  let method := outcome.method.text
  result overrideRule
    ("Made " ++ method ++ " overridable; " ++ toString outcome.callSites ++
      " call sites now dispatch virtually") method

def ofHit (hit : AnchorHit) : Json :=
  let line :=
    match hit.anchor.line with
    | some line => " (line " ++ toString line.toNat ++ ")"
    | none => ""
  result hit.id
    ("Patch anchor " ++ hit.id ++ ": " ++ hit.anchor.kind.label ++ " at offset " ++
      toString hit.anchor.offset.toNat ++ line)
    (MethodKey.text ⟨hit.className, hit.methodName, hit.descriptor⟩)

def ofArtifact (artifact : Artifact) : Json :=
  ofMembers
    ([("length", ofNat artifact.size),
      ("location", ofMembers [("uri", ofText artifact.path)])] ++
      if artifact.isInput then [("roles", .array [ofText "analysisTarget"])] else [])

/-- How the program was called, with its own name for the command. -/
def invocation (arguments : List String) : Json :=
  ofMembers
    [("arguments", ofList ofText arguments),
     ("commandLine", ofText (" ".intercalate arguments)), ("executionSuccessful", ofFlag true)]

/-- The report of a run: first what was made overridable, then the anchors. The keys of every object
stand in alphabetical order. -/
def ofRun (arguments : List String) (artifacts : List Artifact)
    (outcomes : List OverrideOutcome) (hits : List AnchorHit) : Json :=
  let tool := ofMembers [("driver", ofMembers [("name", ofText toolName)])]
  let described :=
    if artifacts.isEmpty then [] else [("artifacts", ofList ofArtifact artifacts)]
  let run := ofMembers
    (described ++
      [("invocations", .array [invocation arguments]),
       ("results", .array (outcomes.map ofOutcome ++ hits.map ofHit)), ("tool", tool)])
  ofMembers [("$schema", ofText schema), ("runs", .array [run]), ("version", ofText "2.1.0")]

end MethodPatch.Report
