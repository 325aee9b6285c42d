import MethodPatch.Failure
import MethodPatch.Files.System
import MethodPatch.Json.Reader
import MethodPatch.Plan.Format

set_option autoImplicit false

namespace MethodPatch.PatchPlan

def load (files : FileSystem) (path : String) : Except Failure PatchPlan :=
  match files.contentOf? path with
  | none => .error (.unreadable path)
  | some content =>
      match (Json.readFile? content).bind ofJson? with
      | none => .error (.malformed path)
      | some plan =>
          match plan.validate with
          | .error fault => .error (.invalidPlan path fault)
          | .ok () => .ok plan

end MethodPatch.PatchPlan
