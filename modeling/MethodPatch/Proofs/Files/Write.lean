import MethodPatch.Files.System
import MethodPatch.Proofs.Files.Names

set_option autoImplicit false

namespace MethodPatch

namespace FileTree

/-- The bytes of a file; a directory has none. -/
def content? : FileTree → Option (List UInt8)
  | .file content => some content
  | .directory _ => none

/-- What can be told of a place: that nothing stands there, that a directory does, or a file with
its bytes. -/
def viewAt (tree : FileTree) (trail : List String) : Option (Option (List UInt8)) :=
  (tree.at? trail).map content?

theorem isDirectoryAt_iff (tree : FileTree) (trail : List String) :
    tree.isDirectoryAt trail = true ↔ tree.viewAt trail = some none := by
  unfold isDirectoryAt viewAt
  rcases tree.at? trail with _ | ⟨_ | _⟩ <;> simp [content?]

theorem isDirectoryAt_of_viewAt {first second : FileTree} {trail : List String}
    (same : first.viewAt trail = second.viewAt trail) :
    first.isDirectoryAt trail = second.isDirectoryAt trail := by
  rw [Bool.eq_iff_iff, isDirectoryAt_iff, isDirectoryAt_iff, same]

theorem viewAt_cons (entries : List (String × FileTree)) (name : String) (rest : List String) :
    (FileTree.directory entries).viewAt (name :: rest) =
      (entries.lookup name).bind (·.viewAt rest) := by
  rw [viewAt, at?]
  cases entries.lookup name <;> rfl

theorem isDirectoryAt_cons (entries : List (String × FileTree)) (name : String)
    (rest : List String) :
    (FileTree.directory entries).isDirectoryAt (name :: rest) =
      (entries.lookup name).any (·.isDirectoryAt rest) := by
  rw [isDirectoryAt, at?]
  cases entries.lookup name <;> rfl

theorem isDirectoryAt_file (content : List UInt8) (trail : List String) :
    (FileTree.file content).isDirectoryAt trail = false := by
  cases trail <;> rfl

/-- The way to a directory leads through directories. -/
theorem isDirectoryAt_of_append (tree : FileTree) (trail rest : List String)
    (standing : tree.isDirectoryAt (trail ++ rest) = true) : tree.isDirectoryAt trail = true := by
  induction trail generalizing tree with
  | nil =>
      cases tree with
      | file content =>
          rw [isDirectoryAt_file] at standing
          cases standing
      | directory _ => rfl
  | cons name trail ih =>
      cases tree with
      | file content =>
          rw [isDirectoryAt_file] at standing
          cases standing
      | directory entries =>
          rw [List.cons_append, isDirectoryAt_cons, Option.any_eq_true] at standing
          obtain ⟨below, found, standing⟩ := standing
          rw [isDirectoryAt_cons, found, Option.any_some]
          exact ih below standing

theorem isDirectoryAt_dropLast (tree : FileTree) {trail : List String}
    (standing : tree.isDirectoryAt trail = true) : tree.isDirectoryAt trail.dropLast = true := by
  rcases List.eq_nil_or_concat trail with rfl | ⟨front, last, rfl⟩
  · exact standing
  · rw [List.concat_eq_append] at standing ⊢
    rw [List.dropLast_concat]
    exact tree.isDirectoryAt_of_append front [last] standing

/-- Where no directory stands, nothing is seen further down. -/
theorem viewAt_of_free {tree : FileTree} {trail : List String} (any : trail ≠ [])
    (free : tree.isDirectoryAt [] = false) : tree.viewAt trail = none := by
  obtain ⟨name, rest, rfl⟩ := List.exists_cons_of_ne_nil any
  cases tree with
  | file _ => rfl
  | directory _ => cases free

/-- A file that is put into a standing directory is seen at its own place and nowhere else. -/
theorem viewAt_put (tree : FileTree) (trail : List String) (content : List UInt8)
    (standing : tree.isDirectoryAt trail.dropLast = true) (free : tree.isDirectoryAt trail = false)
    (other : List String) :
    (tree.put trail (.file content)).viewAt other =
      if other = trail then some (some content) else tree.viewAt other := by
  by_cases same : other = trail
  · rw [if_pos same, same, viewAt, at?_put, Option.map_some, content?]
  rw [if_neg same]
  induction trail generalizing tree other with
  | nil =>
      rw [List.dropLast_nil, free] at standing
      cases standing
  | cons name rest ih =>
      cases tree with
      | file content =>
          rw [isDirectoryAt_file] at standing
          cases standing
      | directory entries =>
          cases other with
          | nil => rfl
          | cons first others =>
              rw [put, viewAt_cons, viewAt_cons]
              by_cases here : first = name
              · subst here
                have apart : others ≠ rest := fun equal => same (equal ▸ rfl)
                rw [lookup_assign, Option.bind_some]
                cases rest with
                | nil =>
                    -- The file is put here, in place of nothing or of another file.
                    rw [put, viewAt_of_free apart rfl]
                    cases found : entries.lookup first with
                    | none => rfl
                    | some below =>
                        rw [isDirectoryAt_cons, found, Option.any_some] at free
                        exact (viewAt_of_free apart free).symm
                | cons next further =>
                    rw [List.dropLast_cons_cons, isDirectoryAt_cons, Option.any_eq_true] at standing
                    obtain ⟨below, found, standing⟩ := standing
                    rw [isDirectoryAt_cons, found, Option.any_some] at free
                    rw [found, Option.getD_some, Option.bind_some]
                    exact ih below standing free others apart
              · rw [lookup_assign_of_ne _ _ _ _ here]

end FileTree

namespace FileSystem

theorem follow_congr {first second : FileTree}
    (alike : ∀ trail, first.isDirectoryAt trail = second.isDirectoryAt trail)
    (trail parts : List String) : follow first trail parts = follow second trail parts := by
  induction parts generalizing trail with
  | nil => rfl
  | cons part rest ih => rw [follow, follow, alike, ih]

/-- Where a path leads is told by its parts alone, if it leads anywhere. -/
theorem eq_of_follow {root : FileTree} {trail destination parts : List String}
    (led : follow root trail parts = some destination) :
    destination = parts.foldl Path.step trail := by
  induction parts generalizing trail with
  | nil => exact (Option.some.inj led).symm
  | cons part rest ih =>
      rw [follow] at led
      split at led
      · exact ih led
      · cases led

/-- One part of a path leads from a directory to another, or else to an entry of it. -/
theorem isDirectoryAt_dropLast_step {root : FileTree} {trail : List String} (part : String)
    (standing : root.isDirectoryAt trail = true)
    (free : root.isDirectoryAt (Path.step trail part) = false) :
    root.isDirectoryAt (Path.step trail part).dropLast = true := by
  rw [Path.step] at free ⊢
  split at free
  · rw [standing] at free
    cases free
  · rename_i named
    rw [if_neg named]
    split at free
    · rw [root.isDirectoryAt_dropLast standing] at free
      cases free
    · rename_i downwards
      rw [if_neg downwards, List.dropLast_concat]
      exact standing

/-- What a path leads to, and is no directory, is an entry of a directory. -/
theorem isDirectoryAt_dropLast_of_follow {root : FileTree} {trail destination parts : List String}
    (led : follow root trail parts = some destination) (any : parts ≠ [])
    (free : root.isDirectoryAt destination = false) :
    root.isDirectoryAt destination.dropLast = true := by
  induction parts generalizing trail with
  | nil => exact absurd rfl any
  | cons part rest ih =>
      rw [follow] at led
      split at led
      · rename_i standing
        cases rest with
        | nil =>
            obtain rfl := Option.some.inj led
            exact isDirectoryAt_dropLast_step part standing free
        | cons next further => exact ih led (List.cons_ne_nil next further)
      · cases led

/-- A file can be opened for writing: the way to it stands, and no directory stands in its place. -/
def Opens (files : FileSystem) (path : String) : Prop :=
  ∃ trail, files.trail? path = some trail ∧ files.root.isDirectoryAt trail = false

theorem opens_iff_any (files : FileSystem) (path : String) :
    (files.trail? path).any (fun trail => !files.root.isDirectoryAt trail) = true ↔
      files.Opens path := by
  simp only [Option.any_eq_true, Bool.not_eq_true', Opens]

instance (files : FileSystem) (path : String) : Decidable (files.Opens path) :=
  decidable_of_iff _ (files.opens_iff_any path)

theorem write?_of_not_opens {files : FileSystem} {path : String} (closed : ¬files.Opens path)
    (content : List UInt8) : files.write? path content = none := by
  cases led : files.trail? path with
  | none => simp only [write?, led]
  | some trail =>
      cases occupied : files.root.isDirectoryAt trail with
      | false => exact absurd ⟨trail, led, occupied⟩ closed
      | true => simp only [write?, led, occupied, if_true]

theorem trail?_eq_some {files : FileSystem} {path : String} {trail : List String}
    (led : files.trail? path = some trail) :
    follow files.root (files.origin path) (Path.parts path) = some trail := by
  rw [trail?] at led
  split at led
  · exact led
  · cases led

/-- File systems with one working directory do not lead a path to different places. -/
theorem trail?_alike {first second : FileSystem} {path : String}
    (origin : first.workingDirectory = second.workingDirectory)
    (led : (first.trail? path).isSome) (ledOther : (second.trail? path).isSome) :
    first.trail? path = second.trail? path := by
  obtain ⟨trail, led⟩ := Option.isSome_iff_exists.mp led
  obtain ⟨other, ledOther⟩ := Option.isSome_iff_exists.mp ledOther
  have start : first.origin path = second.origin path := by
    rw [FileSystem.origin, FileSystem.origin, origin]
  rw [led, ledOther, eq_of_follow (trail?_eq_some led), eq_of_follow (trail?_eq_some ledOther),
    start]

theorem isSome_trail?_of_contentOf? {files : FileSystem} {path : String} {content : List UInt8}
    (read : files.contentOf? path = some content) : (files.trail? path).isSome := by
  cases led : files.trail? path with
  | none => simp only [contentOf?, resolve?, led, reduceCtorEq] at read
  | some trail => rfl

theorem Opens.isSome_trail? {files : FileSystem} {path : String} (opens : files.Opens path) :
    (files.trail? path).isSome := by
  obtain ⟨trail, led, _⟩ := opens
  rw [led]
  rfl

/-- After a file is written, its place shows it, and every other place is as it was. -/
structure Written (before : FileSystem) (path : String) (content : List UInt8)
    (after : FileSystem) : Prop where
  workingDirectory : after.workingDirectory = before.workingDirectory
  trail? : ∀ other, after.trail? other = before.trail? other
  isDirectoryAt : ∀ trail, after.root.isDirectoryAt trail = before.root.isDirectoryAt trail
  contentOf? : ∀ other, after.contentOf? other =
    if before.trail? other = before.trail? path then some content else before.contentOf? other

theorem contentOf?_eq (files : FileSystem) (path : String) :
    files.contentOf? path = (files.trail? path).bind fun trail => (files.root.viewAt trail).join := by
  cases led : files.trail? path with
  | none => simp only [contentOf?, resolve?, led, Option.bind_none]
  | some trail =>
      simp only [contentOf?, resolve?, led, Option.bind_some, FileTree.viewAt]
      rcases files.root.at? trail with _ | ⟨_ | _⟩ <;> rfl

/-- A file that can be opened is written. -/
theorem Opens.exists_written {files : FileSystem} {path : String} (opens : files.Opens path)
    (content : List UInt8) :
    ∃ after, files.write? path content = some after ∧ files.Written path content after := by
  obtain ⟨trail, led, free⟩ := opens
  refine ⟨{ files with root := files.root.put trail (.file content) }, ?_, ?_⟩
  · rw [write?, led]
    simp only [free, Bool.false_eq_true, if_false]
  have standing := isDirectoryAt_dropLast_of_follow (trail?_eq_some led) (Path.parts_ne_nil path) free
  have view := files.root.viewAt_put trail content standing free
  have directories (other : List String) :
      (files.root.put trail (.file content)).isDirectoryAt other =
        files.root.isDirectoryAt other := by
    by_cases here : other = trail
    · rw [here, free, Bool.eq_false_iff, Ne, FileTree.isDirectoryAt_iff, view, if_pos rfl]
      simp
    · exact FileTree.isDirectoryAt_of_viewAt ((view other).trans (if_neg here))
  have trails (other : String) :
      FileSystem.trail? { files with root := files.root.put trail (.file content) } other =
        files.trail? other := by
    unfold trail?
    rw [follow_congr directories]
    rfl
  refine ⟨rfl, trails, directories, fun other => ?_⟩
  rw [contentOf?_eq, contentOf?_eq, trails]
  cases ledOther : files.trail? other with
  | none => rw [led, if_neg (by simp)]; rfl
  | some place =>
      simp only [Option.bind_some, view, led, Option.some.injEq]
      split <;> rfl

namespace Written

variable {before after : FileSystem} {path : String} {content : List UInt8}

theorem opens_iff (written : before.Written path content after) (other : String) :
    after.Opens other ↔ before.Opens other := by
  simp only [Opens, written.trail?, written.isDirectoryAt]

end Written

end FileSystem

end MethodPatch
