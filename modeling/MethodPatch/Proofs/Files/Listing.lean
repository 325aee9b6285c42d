import MethodPatch.Files.Tree
import MethodPatch.Proofs.Files.Names
import MethodPatch.Proofs.Text
import Mathlib.Data.List.Nodup

set_option autoImplicit false

namespace MethodPatch.FileTree

/-- What stands at a path can be read through: the names of entries are names, each belongs to one
entry, and every path that leads to something can be used. -/
inductive Readable : String → FileTree → Prop where
  | file {path : String} {content : List UInt8} (usable : Path.isUsable path = true) :
      Readable path (.file content)
  | directory {path : String} {entries : List (String × FileTree)}
      (usable : Path.isUsable path = true) (distinct : (entries.map (·.1)).Nodup)
      (named : ∀ entry ∈ entries, Path.IsName entry.1)
      (below : ∀ entry ∈ entries, Readable (Path.join path entry.1) entry.2) :
      Readable path (.directory entries)

/-- The same tree with the entries of its directories listed in other orders. -/
inductive Relisted : FileTree → FileTree → Prop where
  | refl (tree : FileTree) : Relisted tree tree
  | trans {first second third : FileTree} (one : Relisted first second)
      (other : Relisted second third) : Relisted first third
  | perm {entries others : List (String × FileTree)} (reordered : entries.Perm others) :
      Relisted (.directory entries) (.directory others)
  | within {entry other : FileTree} (front : List (String × FileTree)) (name : String)
      (back : List (String × FileTree)) (relisted : Relisted entry other) :
      Relisted (.directory (front ++ (name, entry) :: back))
        (.directory (front ++ (name, other) :: back))

theorem Relisted.exists_directory {entries : List (String × FileTree)} {listed : FileTree}
    (relisted : (FileTree.directory entries).Relisted listed) :
    ∃ others, listed = .directory others := by
  generalize start : FileTree.directory entries = tree at relisted
  induction relisted generalizing entries with
  | refl _ => exact ⟨entries, start.symm⟩
  | trans _ _ one other =>
      obtain ⟨others, rfl⟩ := one start
      exact other rfl
  | @perm _ others _ => exact ⟨others, rfl⟩
  | within front name back _ _ => exact ⟨_, rfl⟩

/-- One place comes before another in the walk through a directory: where the ways to them part, the
path of the first comes before that of the second. -/
def Precedes (directory : String) (first second : List String) : Prop :=
  ∃ common name other rest others,
    first = common ++ name :: rest ∧ second = common ++ other :: others ∧
      Text.Before (Path.descend directory (common ++ [name]))
        (Path.descend directory (common ++ [other]))

theorem precedes_of_before {directory name other : String} (rest others : List String)
    (before : Text.Before (Path.join directory name) (Path.join directory other)) :
    Precedes directory (name :: rest) (other :: others) :=
  ⟨[], name, other, rest, others, rfl, rfl, before⟩

theorem Precedes.cons {directory name : String} {first second : List String}
    (precedes : Precedes (Path.join directory name) first second) :
    Precedes directory (name :: first) (name :: second) := by
  obtain ⟨common, one, other, rest, others, rfl, rfl, before⟩ := precedes
  exact ⟨name :: common, one, other, rest, others, rfl, rfl, before⟩

theorem Precedes.ne {directory : String} {first second : List String}
    (precedes : Precedes directory first second) : first ≠ second := by
  obtain ⟨common, name, other, rest, others, rfl, rfl, before⟩ := precedes
  intro same
  obtain ⟨rfl, _⟩ := List.cons.inj (List.append_cancel_left same)
  exact before.2 rfl

/-- The entries of a directory in the order of their paths. -/
def inOrder (directory : String) (entries : List (String × FileTree)) :
    List (String × FileTree) :=
  entries.mergeSort fun first second =>
    Text.atMost (Path.join directory first.1) (Path.join directory second.1)

section Order

variable {directory : String} {entries others : List (String × FileTree)}

theorem inOrder_perm (directory : String) (entries : List (String × FileTree)) :
    (inOrder directory entries).Perm entries :=
  List.mergeSort_perm entries _

theorem inOrder_atMost (directory : String) (entries : List (String × FileTree)) :
    (inOrder directory entries).Pairwise fun first second =>
      Text.atMost (Path.join directory first.1) (Path.join directory second.1) = true := by
  apply List.pairwise_mergeSort
  · intro first second third
    exact Text.atMost_trans
  · intro first second
    rw [Bool.or_eq_true]
    exact Text.atMost_total _ _

/-- Entries with names of their own come one before the other. -/
theorem inOrder_before (distinct : (entries.map (·.1)).Nodup) :
    (inOrder directory entries).Pairwise fun first second =>
      Text.Before (Path.join directory first.1) (Path.join directory second.1) := by
  have names : ((inOrder directory entries).map (·.1)).Nodup :=
    ((inOrder_perm directory entries).map (·.1)).nodup_iff.mpr distinct
  have apart := List.pairwise_map.mp names
  refine ((inOrder_atMost directory entries).and apart).imp fun ⟨atMost, different⟩ => ⟨atMost, ?_⟩
  exact fun same => different (Path.join_injective same)

/-- There is one order for them to come in. -/
theorem inOrder_eq_of_perm {sorted : List (String × FileTree)}
    (distinct : (entries.map (·.1)).Nodup) (reordered : entries.Perm sorted)
    (ordered : sorted.Pairwise fun first second =>
      Text.Before (Path.join directory first.1) (Path.join directory second.1)) :
    inOrder directory entries = sorted := by
  refine ((inOrder_perm directory entries).trans reordered).eq_of_pairwise ?_
    (inOrder_before distinct) ordered
  intro first second _ _ before after
  exact (before.asymm after).elim

theorem inOrder_congr (distinct : (entries.map (·.1)).Nodup) (reordered : entries.Perm others) :
    inOrder directory entries = inOrder directory others :=
  inOrder_eq_of_perm distinct (reordered.trans (inOrder_perm directory others).symm)
    (inOrder_before ((reordered.map (·.1)).nodup_iff.mp distinct))

end Order

/-- Among entries with names of their own, looking up a name finds the entry of that name. -/
theorem lookup_eq_some_iff_mem {entries : List (String × FileTree)}
    (distinct : (entries.map (·.1)).Nodup) (name : String) (entry : FileTree) :
    entries.lookup name = some entry ↔ (name, entry) ∈ entries := by
  rw [List.lookup_eq_some_iff]
  constructor
  · rintro ⟨front, back, rfl, _⟩
    exact List.mem_append_right _ List.mem_cons_self
  · intro member
    obtain ⟨front, back, rfl⟩ := List.append_of_mem member
    refine ⟨front, back, rfl, fun other earlier => ?_⟩
    rw [List.map_append, List.map_cons, List.nodup_middle, List.nodup_cons] at distinct
    rw [bne_iff_ne]
    intro same
    exact distinct.1 (List.mem_append_left _ (List.mem_map.mpr ⟨other, earlier, same.symm⟩))

/-- The way to what stands in a directory leads through one of its entries. -/
theorem at?_cons_eq_some_iff {entries : List (String × FileTree)}
    (distinct : (entries.map (·.1)).Nodup) {name : String} {rest : List String}
    {standing : FileTree} :
    (FileTree.directory entries).at? (name :: rest) = some standing ↔
      ∃ entry, (name, entry) ∈ entries ∧ entry.at? rest = some standing := by
  simp only [← lookup_eq_some_iff_mem distinct]
  rw [at?]
  cases entries.lookup name with
  | none => simp only [reduceCtorEq, false_and, exists_false]
  | some entry => simp only [Option.some.injEq, exists_eq_left']

namespace Readable

variable {path : String} {tree : FileTree}

/-- The last step to what stands in a directory takes a name. -/
theorem isName (readable : tree.Readable path) {front : List String} {name : String}
    {standing : FileTree} (found : tree.at? (front ++ [name]) = some standing) :
    Path.IsName name := by
  induction readable generalizing front with
  | file _ => cases front <;> cases found
  | directory _ distinct named _ ih =>
      cases front with
      | nil =>
          obtain ⟨entry, member, _⟩ := (at?_cons_eq_some_iff distinct).mp found
          exact named _ member
      | cons first rest =>
          obtain ⟨entry, member, below⟩ := (at?_cons_eq_some_iff distinct).mp found
          exact ih _ member below

/-- A readable tree is readable however it is listed. -/
theorem relisted {listed : FileTree} (relisted : tree.Relisted listed)
    (readable : tree.Readable path) : listed.Readable path := by
  induction relisted generalizing path with
  | refl _ => exact readable
  | trans _ _ one other => exact other (one readable)
  | perm reordered =>
      cases readable with
      | directory usable distinct named below =>
          exact .directory usable ((reordered.map (·.1)).nodup_iff.mp distinct)
            (fun entry member => named entry (reordered.mem_iff.mpr member))
            fun entry member => below entry (reordered.mem_iff.mpr member)
  | within front name back _ ih =>
      cases readable with
      | directory usable distinct named below =>
          rw [List.map_append, List.map_cons] at distinct
          rw [List.forall_mem_append, List.forall_mem_cons] at named below
          refine .directory usable ?_ ?_ ?_
          · rw [List.map_append, List.map_cons]
            exact distinct
          · rw [List.forall_mem_append, List.forall_mem_cons]
            exact named
          · rw [List.forall_mem_append, List.forall_mem_cons]
            exact ⟨below.1, ih below.2.1, below.2.2⟩

end Readable

end MethodPatch.FileTree
