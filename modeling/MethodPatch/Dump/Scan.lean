import MethodPatch.Dump.Format
import MethodPatch.Failure
import MethodPatch.Files.System
import MethodPatch.Json.Reader
import MethodPatch.Text

set_option autoImplicit false

namespace MethodPatch

/-- A file to be scanned, under the path it is reached by. -/
structure DumpFile where
  path : String
  /-- Its bytes; nothing where it cannot be opened. -/
  content : Option (List UInt8)
deriving DecidableEq, Repr

/-- What is read from a dump file of some size. -/
structure Dump where
  path : String
  size : Nat
  classes : List Class
deriving DecidableEq, Repr

namespace DumpFile

def isDump (path : String) : Bool := Path.extension? path == some "json"

def read (file : DumpFile) : Except Failure Dump :=
  match file.content with
  | none => .error (.unreadable file.path)
  | some content =>
      match (Json.readFile? content).bind dumpOfJson? with
      | some classes => .ok ⟨file.path, content.length, classes⟩
      | none => .error (.malformed file.path)

/-- A file among others is scanned if it is named as a dump. -/
def ofEntry (path : String) (content : Option (List UInt8)) : List DumpFile :=
  if isDump path then [⟨path, content⟩] else []

end DumpFile

namespace FileTree

/-- Listings in the order of their paths, one after another. -/
def inPathOrder (listings : List (String × List DumpFile)) : List DumpFile :=
  (listings.mergeSort fun first second => Text.atMost first.1 second.1).flatMap (·.2)

mutual

/-- The dump files of what stands at a path, in the order in which they are scanned. What lies too
deep for its path to be used cannot be opened, and passes for a file. -/
def dumpFiles (path : String) : FileTree → List DumpFile
  | .file content => DumpFile.ofEntry path (if Path.isUsable path then some content else none)
  | .directory entries =>
      if Path.isUsable path then inPathOrder (entryDumpFiles path entries)
      else DumpFile.ofEntry path none

/-- The dump files of each entry of a directory, with the path of the entry. -/
def entryDumpFiles (directory : String) :
    List (String × FileTree) → List (String × List DumpFile)
  | [] => []
  | (name, entry) :: rest =>
      (Path.join directory name, dumpFiles (Path.join directory name) entry) ::
        entryDumpFiles directory rest

end

end FileTree

/-- A scanned file. -/
structure Artifact where
  path : String
  size : Nat
  isInput : Bool
deriving DecidableEq, Repr

structure Scan where
  artifacts : List Artifact
  classes : List Class
deriving DecidableEq, Repr

namespace Scan

/-- Reads files in order, up to the first that does not hold a dump. Each class is told the position
of its file. -/
def ofFiles (isInput : Bool) (files : List DumpFile) : Except Failure Scan :=
  match files.mapM DumpFile.read with
  | .error failure => .error failure
  | .ok dumps =>
      .ok ⟨dumps.map fun dump => ⟨dump.path, dump.size, isInput⟩,
        dumps.zipIdx.flatMap fun (dump, position) =>
          dump.classes.map fun owner => { owner with artifact := position }⟩

/-- Scans a directory, or a file that is named as a dump. -/
def ofInput (files : FileSystem) (input : String) : Except Failure Scan :=
  match files.resolve? input with
  | some (.directory entries) => ofFiles false ((FileTree.directory entries).dumpFiles input)
  | _ =>
      if DumpFile.isDump input then ofFiles true [⟨input, files.contentOf? input⟩]
      else .error (.unsupportedInput input)

end Scan

end MethodPatch
