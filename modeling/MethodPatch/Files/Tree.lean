set_option autoImplicit false

namespace MethodPatch

inductive FileTree where
  | file (content : List UInt8)
  | directory (entries : List (String × FileTree))

namespace FileTree

/-- What stands where a list of names leads, from the top down. -/
def at? : FileTree → List String → Option FileTree
  | tree, [] => some tree
  | .file _, _ :: _ => none
  | .directory entries, name :: rest =>
      match entries.lookup name with
      | some entry => entry.at? rest
      | none => none

def isDirectoryAt (tree : FileTree) (trail : List String) : Bool :=
  match tree.at? trail with
  | some (.directory _) => true
  | _ => false

/-- Gives an entry of this name, in place of one that stands already. -/
def assign (name : String) (entry : FileTree) : List (String × FileTree) → List (String × FileTree)
  | [] => [(name, entry)]
  | (other, standing) :: rest =>
      if other = name then (name, entry) :: rest else (other, standing) :: assign name entry rest

/-- Puts an entry where a list of names leads, with the directories on the way to it. -/
def put : FileTree → List String → FileTree → FileTree
  | _, [], entry => entry
  | .file _, name :: rest, entry => .directory [(name, put (.directory []) rest entry)]
  | .directory entries, name :: rest, entry =>
      let standing := (entries.lookup name).getD (.directory [])
      .directory (assign name (put standing rest entry) entries)

/-- Puts an empty directory where a list of names leads, unless something stands there. -/
def putDirectory (tree : FileTree) (trail : List String) : FileTree :=
  if (tree.at? trail).isSome then tree else tree.put trail (.directory [])

theorem lookup_assign (name : String) (entry : FileTree) (entries : List (String × FileTree)) :
    (assign name entry entries).lookup name = some entry := by
  induction entries with
  | nil => simp [assign]
  | cons first rest hypothesis =>
      obtain ⟨other, standing⟩ := first
      by_cases same : other = name
      · simp [assign, same]
      · have different : (name == other) = false := by
          simpa using fun equal : name = other => same equal.symm
        simp only [assign, if_neg same, List.lookup_cons, different, hypothesis]

theorem lookup_assign_of_ne (name other : String) (entry : FileTree)
    (entries : List (String × FileTree)) (different : other ≠ name) :
    (assign name entry entries).lookup other = entries.lookup other := by
  induction entries with
  | nil => simp [assign, different]
  | cons first rest hypothesis =>
      obtain ⟨present, standing⟩ := first
      by_cases same : present = name
      · subst same
        have apart : (other == present) = false := by simpa using different
        simp [assign, List.lookup_cons, apart]
      · simp only [assign, if_neg same, List.lookup_cons, hypothesis]

/-- What is put where some names lead stands there. -/
@[simp] theorem at?_put (tree : FileTree) (trail : List String) (entry : FileTree) :
    (tree.put trail entry).at? trail = some entry := by
  induction trail generalizing tree with
  | nil => cases tree <;> simp [put, at?]
  | cons name rest hypothesis =>
      cases tree with
      | file _ => simp [put, at?, hypothesis]
      | directory entries => simp [put, at?, lookup_assign, hypothesis]

/-- A directory stays one when something is put where no directory stands. -/
theorem isDirectoryAt_put (tree : FileTree) (trail other : List String) (entry : FileTree)
    (standing : tree.isDirectoryAt other = true) (free : tree.isDirectoryAt trail = false) :
    (tree.put trail entry).isDirectoryAt other = true := by
  induction trail generalizing tree other with
  | nil =>
      cases tree with
      | file _ => cases other <;> simp [isDirectoryAt, at?] at standing
      | directory _ => simp [isDirectoryAt, at?] at free
  | cons name rest hypothesis =>
      cases tree with
      | file _ => cases other <;> simp [isDirectoryAt, at?] at standing
      | directory entries =>
          cases other with
          | nil => simp [isDirectoryAt, at?, put]
          | cons first others =>
              by_cases same : first = name
              · subst same
                cases found : entries.lookup first with
                | none => simp [isDirectoryAt, at?, found] at standing
                | some below =>
                    have kept := hypothesis below others
                      (by simpa [isDirectoryAt, at?, found] using standing)
                      (by simpa [isDirectoryAt, at?, found] using free)
                    simpa [isDirectoryAt, at?, put, lookup_assign, found] using kept
              · simpa [isDirectoryAt, at?, put, lookup_assign_of_ne _ _ _ _ same] using standing

end FileTree

end MethodPatch
