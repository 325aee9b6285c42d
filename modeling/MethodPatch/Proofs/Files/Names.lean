import MethodPatch.Files.Path

set_option autoImplicit false

namespace MethodPatch

namespace Path

/-- What an entry of a directory can be called. -/
def IsName (name : String) : Prop :=
  name ≠ "" ∧ name ≠ "." ∧ name ≠ ".." ∧ '/' ∉ name.toList

instance (name : String) : Decidable (IsName name) :=
  inferInstanceAs (Decidable (_ ∧ _ ∧ _ ∧ _))

/-- The path of what some names lead to, from a directory down. -/
def descend (directory : String) (trail : List String) : String :=
  trail.foldl join directory

@[simp] theorem descend_nil (directory : String) : descend directory [] = directory := rfl

@[simp] theorem descend_cons (directory name : String) (trail : List String) :
    descend directory (name :: trail) = descend (join directory name) trail := rfl

theorem descend_append (directory : String) (trail rest : List String) :
    descend directory (trail ++ rest) = descend (descend directory trail) rest :=
  List.foldl_append

theorem parts_ne_nil (path : String) : parts path ≠ [] := by
  rw [parts, Ne, List.map_eq_nil_iff]
  exact List.splitOn_ne_nil '/' path.toList

/-- The path of an entry, letter by letter. -/
theorem toList_join (directory name : String) :
    (join directory name).toList = name.toList ∨
      ∃ front, (join directory name).toList = front ++ '/' :: name.toList := by
  unfold join
  split
  · exact Or.inl rfl
  · rename_i last
    obtain ⟨front, letters⟩ := List.getLast?_eq_some_iff.mp last
    refine Or.inr ⟨front, ?_⟩
    rw [String.toList_append, letters, List.append_assoc, List.singleton_append]
  · refine Or.inr ⟨directory.toList, ?_⟩
    rw [String.toList_append, String.toList_append, List.append_assoc]
    rfl

/-- The last part of the path of an entry is its name. -/
theorem parts_join (directory : String) {name : String} (named : IsName name) :
    ∃ front, parts (join directory name) = front ++ [name] := by
  have single : (name.toList.splitOn '/').map String.ofList = [name] := by
    rw [List.splitOn_eq_singleton named.2.2.2, List.map_singleton, String.ofList_toList]
  rcases toList_join directory name with letters | ⟨front, letters⟩
  · exact ⟨[], by rw [parts, letters, single, List.nil_append]⟩
  · exact ⟨(front.splitOn '/').map String.ofList, by
      rw [parts, letters, List.splitOn_append_cons_self, List.map_append, single]⟩

theorem fileName?_join (directory : String) {name : String} (named : IsName name) :
    fileName? (join directory name) = some name := by
  obtain ⟨front, parts⟩ := parts_join directory named
  obtain ⟨notEmpty, notHere, notUp, _⟩ := named
  have kept : [name].filter (fun part => part != "" && part != ".") = [name] := by
    rw [List.filter_cons_of_pos (by simp [notEmpty, notHere]), List.filter_nil]
  rw [fileName?, parts, List.filter_append, kept, List.getLast?_concat, Option.filter_some,
    if_pos (by simp [notUp])]

theorem join_injective {directory first second : String}
    (same : join directory first = join directory second) : first = second := by
  have letters := congrArg String.toList same
  unfold join at letters
  split at letters
  · exact String.toList_inj.mp letters
  · rw [String.toList_append, String.toList_append] at letters
    exact String.toList_inj.mp (List.append_cancel_left letters)
  · simp only [String.toList_append] at letters
    exact String.toList_inj.mp (List.append_cancel_left letters)

/-- The extension of a name is what stands after its last dot, if anything stands before that
dot. -/
theorem extension?_eq_some_iff {path name extension : String} (last : fileName? path = some name)
    (plain : '.' ∉ extension.toList) :
    extension? path = some extension ↔ ∃ stem, stem ≠ "" ∧ name = stem ++ "." ++ extension := by
  simp only [extension?, last]
  constructor
  · intro ends
    split at ends
    · cases ends
    · cases ends
    · rename_i notEmpty notSingle
      have divided := List.takeWhile_append_dropWhile (p := (· != '.')) (l := name.toList.reverse)
      have stops := List.head?_dropWhile_not (· != '.') name.toList.reverse
      rcases tail : name.toList.reverse.dropWhile (· != '.') with _ | ⟨dot, _ | ⟨letter, rest⟩⟩
      · exact absurd tail notEmpty
      · exact absurd tail (notSingle dot)
      rw [tail] at divided stops
      have isDot : dot = '.' := by simpa using stops
      have ending : extension.toList = (name.toList.reverse.takeWhile (· != '.')).reverse := by
        rw [← Option.some.inj ends, String.toList_ofList]
      refine ⟨String.ofList (letter :: rest).reverse, ?_, String.toList_inj.mp ?_⟩
      · intro empty
        simpa using congrArg String.toList empty
      · calc
          name.toList = (name.toList.reverse.takeWhile (· != '.') ++
              dot :: letter :: rest).reverse := by rw [divided, List.reverse_reverse]
          _ = (letter :: rest).reverse ++ ".".toList ++ extension.toList := by
            rw [List.reverse_append, List.reverse_cons, ending, isDot]
            rfl
          _ = (String.ofList (letter :: rest).reverse ++ "." ++ extension).toList := by
            simp only [String.toList_append, String.toList_ofList]
  · rintro ⟨stem, notEmpty, rfl⟩
    obtain ⟨letter, rest, stemLetters⟩ : ∃ letter rest, stem.toList.reverse = letter :: rest := by
      apply List.exists_cons_of_ne_nil
      rw [List.reverse_ne_nil_iff, Ne, String.toList_eq_nil_iff]
      exact notEmpty
    have backwards : (stem ++ "." ++ extension).toList.reverse =
        extension.toList.reverse ++ '.' :: letter :: rest := by
      rw [String.toList_append, String.toList_append, List.reverse_append, List.reverse_append,
        stemLetters]
      rfl
    have through : ∀ sign ∈ extension.toList.reverse, (sign != '.') = true := by
      intro sign member
      rw [bne_iff_ne]
      rintro rfl
      exact plain (List.mem_reverse.mp member)
    rw [backwards, List.dropWhile_append_of_pos through, List.takeWhile_append_of_pos through]
    simp

end Path

end MethodPatch
