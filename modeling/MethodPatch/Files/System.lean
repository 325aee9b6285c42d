import MethodPatch.Files.Path
import MethodPatch.Files.Tree

set_option autoImplicit false

namespace MethodPatch

structure FileSystem where
  root : FileTree
  /-- The names that lead from the root to the working directory. -/
  workingDirectory : List String

namespace FileSystem

/-- An empty working directory, with nothing beside the way to it. -/
def ofWorkingDirectory (trail : List String) : FileSystem :=
  ⟨(FileTree.directory []).putDirectory trail, trail⟩

/-- Where a path begins. -/
def origin (files : FileSystem) (path : String) : List String :=
  if Path.isAbsolute path then [] else files.workingDirectory

/-- Follows the parts of a path on from a trail. Every part has to start out from a directory that
stands; what the last part leads to need not stand yet. -/
def follow (root : FileTree) (trail : List String) : List String → Option (List String)
  | [] => some trail
  | part :: rest =>
      if root.isDirectoryAt trail then follow root (Path.step trail part) rest else none

/-- The names that lead from the root to what a path names. -/
def trail? (files : FileSystem) (path : String) : Option (List String) :=
  if Path.isUsable path then follow files.root (files.origin path) (Path.parts path) else none

/-- What a path names. -/
def resolve? (files : FileSystem) (path : String) : Option FileTree :=
  match files.trail? path with
  | some trail => files.root.at? trail
  | none => none

/-- The bytes of the file that a path names; a directory has none. -/
def contentOf? (files : FileSystem) (path : String) : Option (List UInt8) :=
  match files.resolve? path with
  | some (.file content) => some content
  | _ => none

/-- Writes a file. It is made if nothing of its name stands in the directory, and cannot take the
place of a directory. -/
def write? (files : FileSystem) (path : String) (content : List UInt8) : Option FileSystem :=
  match files.trail? path with
  | none => none
  | some trail =>
      if files.root.isDirectoryAt trail then none
      else some { files with root := files.root.put trail (.file content) }

/-- A path leads through a changed tree as before if every directory is still one. -/
theorem follow_of_directories (before after : FileTree) (trail destination : List String)
    (parts : List String)
    (kept : ∀ other, before.isDirectoryAt other = true → after.isDirectoryAt other = true)
    (led : follow before trail parts = some destination) :
    follow after trail parts = some destination := by
  induction parts generalizing trail with
  | nil => exact led
  | cons part rest hypothesis =>
      cases standing : before.isDirectoryAt trail with
      | false => simp [follow, standing] at led
      | true =>
          rw [follow, if_pos (kept trail standing)]
          exact hypothesis _ (by simpa [follow, standing] using led)

/-- A file is read back as it was written. -/
theorem contentOf?_of_write? (files after : FileSystem) (path : String) (content : List UInt8)
    (written : files.write? path content = some after) :
    after.contentOf? path = some content := by
  cases led : files.trail? path with
  | none => simp [write?, led] at written
  | some trail =>
      cases occupied : files.root.isDirectoryAt trail with
      | true => simp [write?, led, occupied] at written
      | false =>
          have result : { files with root := files.root.put trail (.file content) } = after := by
            simpa [write?, led, occupied] using written
          subst result
          have usable : Path.isUsable path = true := by
            cases test : Path.isUsable path with
            | true => rfl
            | false => simp [trail?, test] at led
          have again : follow (files.root.put trail (.file content)) (files.origin path)
              (Path.parts path) = some trail :=
            follow_of_directories files.root _ _ trail _
              (fun other standing =>
                FileTree.isDirectoryAt_put files.root trail other _ standing occupied)
              (by simpa [trail?, usable] using led)
          simp only [origin] at again
          simp [contentOf?, resolve?, trail?, usable, origin, again]

end FileSystem

end MethodPatch
