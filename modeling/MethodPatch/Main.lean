import MethodPatch.CommandLine.Run

set_option autoImplicit false

namespace MethodPatch.CommandLine

/-- What stands at a path: a file with its content, a directory without its entries, or nothing. -/
def readEntry (path : String) : IO (Option FileTree) := do
  try
    let content ← IO.FS.readBinFile path
    return some (.file content.data.toList)
  catch error =>
    match error with
    | .inappropriateType none _ _ => return some (.directory [])
    | _ => return none

/-- Puts an entry at a path, with directories on the whole way to it. -/
def placed (files : FileSystem) (path : String) (entry : FileTree) : FileSystem :=
  let start := files.origin path
  let trails := (Path.parts path).foldl
    (fun trails part => trails ++ [Path.step (trails.getLast?.getD start) part]) [start]
  let standing := trails.foldl FileTree.putDirectory files.root
  match entry with
  | .directory _ => { files with root := standing }
  | .file _ => { files with root := standing.put (trails.getLast?.getD start) entry }

/-- The lines of standard input that are not empty. -/
partial def listedPaths (input : IO.FS.Stream) (paths : List String) : IO (List String) := do
  let line ← input.getLine
  if line.isEmpty then return paths.reverse
  let path := String.ofList (line.toList.filter (· != '\n'))
  listedPaths input (if path.isEmpty then paths else path :: paths)

/-- The part of the file system that a run looks at. A directory cannot be listed from here: when
the input is one, the paths of the files below it are taken from standard input, one a line. -/
def snapshot (arguments : Arguments) : IO FileSystem := do
  let workingDirectory := (Path.parts (toString (← IO.currentDir))).filter (· != "")
  let input ← readEntry arguments.input
  let below ←
    match input with
    | some (.directory _) => listedPaths (← IO.getStdin) []
    | _ => pure []
  let mut files := FileSystem.ofWorkingDirectory workingDirectory
  for path in arguments.input :: arguments.plan :: below do
    match ← readEntry path with
    | some entry => files := placed files path entry
    | none => pure ()
  return files

/-- Tells a failure, its causes below it. -/
def tell (failure : Failure) : IO UInt32 := do
  let words := failure.chain.map fun cause =>
    match cause with
    | .text message => message
    | .jsonError => "not the JSON that is expected here"
    | .fileError => "the file cannot be used"
  IO.eprintln ("Error: " ++ "\n  caused by: ".intercalate words)
  return 1

/-- Writes outputs in order; gives the path of the first that cannot be written. -/
def deliver : List Output → IO (Option String)
  | [] => return none
  | ⟨none, text⟩ :: rest => do
      IO.print text
      deliver rest
  | ⟨some path, text⟩ :: rest => do
      let isWritten ←
        try
          IO.FS.writeFile path text
          pure true
        catch _ => pure false
      if isWritten then deliver rest else return some path

def perform (words : List String) (arguments : Arguments) : IO UInt32 := do
  let started ← IO.monoMsNow
  let files ← snapshot arguments
  match prepare (Report.toolName :: words) arguments files with
  | .error failure => tell failure
  | .ok delivery =>
      match ← deliver (delivery.outputs arguments) with
      | some path => tell (.unopened path)
      | none =>
          if let some line := delivery.timing? arguments ((← IO.monoMsNow) - started) then
            IO.eprintln line
          match delivery.conclusion with
          | .ok () => return 0
          | .error failure => tell failure

def usage : String :=
  "Usage: " ++ Report.toolName ++
    " --input PATH --plan PATH [--output PATH] [--rewritten PATH] [--quiet] [--timing]"

/-- Answers a command line with the exit status. -/
def answer (words : List String) : IO UInt32 := do
  match Request.of words with
  | .help =>
      IO.println usage
      return 0
  | .version =>
      IO.println (Report.toolName ++ " 0.1.0")
      return 0
  | .rejected =>
      IO.eprintln usage
      return 2
  | .run arguments => perform words arguments

end MethodPatch.CommandLine

def main (words : List String) : IO UInt32 := MethodPatch.CommandLine.answer words
