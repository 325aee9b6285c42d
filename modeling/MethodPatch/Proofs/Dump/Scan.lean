import MethodPatch.Dump.Scan
import MethodPatch.Proofs.Files.Listing

set_option autoImplicit false

namespace MethodPatch

namespace DumpFile

/-- Files are called dumps by their extension, which comes after a name. -/
theorem isDump_join_iff (directory : String) {name : String} (named : Path.IsName name) :
    isDump (Path.join directory name) = true ↔ ∃ stem, stem ≠ "" ∧ name = stem ++ ".json" := by
  rw [isDump, beq_iff_eq,
    Path.extension?_eq_some_iff (Path.fileName?_join directory named) (by decide)]
  simp only [String.append_assoc]
  rfl

/-- The classes that the content of a dump file stands for. -/
def classes? (content : List UInt8) : Option (List Class) :=
  (Json.readFile? content).bind dumpOfJson?

/-- The file at the end of some names, as it is scanned. -/
def atEnd (directory : String) (dump : List String × List UInt8) : DumpFile :=
  ⟨Path.descend directory dump.1, some dump.2⟩

end DumpFile

namespace FileTree

theorem entryDumpFiles_eq (directory : String) (entries : List (String × FileTree)) :
    entryDumpFiles directory entries = entries.map fun entry =>
      (Path.join directory entry.1, dumpFiles (Path.join directory entry.1) entry.2) := by
  induction entries with
  | nil => rfl
  | cons entry rest ih =>
      obtain ⟨name, entry⟩ := entry
      rw [entryDumpFiles, ih, List.map_cons]

/-- A directory is scanned entry by entry, in the order of their paths. -/
theorem dumpFiles_directory {path : String} (usable : Path.isUsable path = true)
    (entries : List (String × FileTree)) :
    dumpFiles path (.directory entries) = (inOrder path entries).flatMap fun entry =>
      dumpFiles (Path.join path entry.1) entry.2 := by
  let listing (entry : String × FileTree) : String × List DumpFile :=
    (Path.join path entry.1, dumpFiles (Path.join path entry.1) entry.2)
  have sorted : (entries.map listing).mergeSort (fun first second =>
      Text.atMost first.1 second.1) = (inOrder path entries).map listing := by
    symm
    apply List.map_mergeSort
    intros
    rfl
  rw [dumpFiles, if_pos usable, inPathOrder, entryDumpFiles_eq, sorted, List.flatMap_map]

/-- The order in which directories list their entries makes no difference. -/
theorem dumpFiles_relisted {path : String} {tree listed : FileTree}
    (relisted : tree.Relisted listed) (readable : tree.Readable path) :
    listed.dumpFiles path = tree.dumpFiles path := by
  induction relisted generalizing path with
  | refl _ => rfl
  | trans one _ ihOne ihOther =>
      rw [ihOther (readable.relisted one), ihOne readable]
  | perm reordered =>
      cases readable with
      | directory usable distinct _ _ =>
          rw [dumpFiles_directory usable, dumpFiles_directory usable,
            inOrder_congr distinct reordered]
  | within front name back _ ih =>
      cases readable with
      | directory usable _ _ below =>
          have same := ih (below _ (List.mem_append_right _ List.mem_cons_self))
          rw [dumpFiles, dumpFiles, entryDumpFiles_eq, entryDumpFiles_eq, List.map_append,
            List.map_append, List.map_cons, List.map_cons, same]

/-- These are the dumps below a directory, each by the names that lead to it and with its content,
in the order of the walk. -/
structure Lists (tree : FileTree) (path : String) (dumps : List (List String × List UInt8)) :
    Prop where
  scanned : tree.dumpFiles path = dumps.map (DumpFile.atEnd path)
  mem_iff : ∀ trail content, (trail, content) ∈ dumps ↔
    tree.at? trail = some (.file content) ∧ DumpFile.isDump (Path.descend path trail) = true
  ordered : dumps.Pairwise fun first second => Precedes path first.1 second.1

theorem exists_lists_file {path : String} (content : List UInt8)
    (usable : Path.isUsable path = true) : ∃ dumps, (FileTree.file content).Lists path dumps := by
  cases dump : DumpFile.isDump path with
  | true =>
      refine ⟨[([], content)], ?_, fun trail other => ?_, List.pairwise_singleton _ _⟩
      · rw [dumpFiles, DumpFile.ofEntry, if_pos dump, if_pos usable]
        rfl
      · cases trail with
        | nil => simp [at?, dump, eq_comm]
        | cons name rest => simp [at?]
  | false =>
      refine ⟨[], ?_, fun trail other => ?_, List.Pairwise.nil⟩
      · rw [dumpFiles, DumpFile.ofEntry, dump]
        rfl
      · cases trail with
        | nil => simp [dump]
        | cons name rest => simp [at?]

/-- The dumps below a directory are those below its entries, one entry after another. -/
theorem lists_directory {path : String} {entries : List (String × FileTree)}
    (usable : Path.isUsable path = true) (distinct : (entries.map (·.1)).Nodup)
    (below : String × FileTree → List (List String × List UInt8))
    (lists : ∀ entry ∈ entries, entry.2.Lists (Path.join path entry.1) (below entry)) :
    (FileTree.directory entries).Lists path ((inOrder path entries).flatMap fun entry =>
      (below entry).map fun dump => (entry.1 :: dump.1, dump.2)) := by
  have among {entry : String × FileTree} (member : entry ∈ inOrder path entries) :
      entry ∈ entries := (inOrder_perm path entries).mem_iff.mp member
  refine ⟨?_, fun trail content => ?_, ?_⟩
  · rw [dumpFiles_directory usable, List.map_flatMap]
    refine List.flatMap_congr fun entry member => ?_
    rw [(lists entry (among member)).scanned, List.map_map]
    rfl
  · rw [List.mem_flatMap]
    constructor
    · rintro ⟨⟨name, entry⟩, member, inside⟩
      obtain ⟨⟨rest, other⟩, found, same⟩ := List.mem_map.mp inside
      obtain ⟨rfl, rfl⟩ := Prod.mk.inj same
      obtain ⟨standing, dump⟩ := ((lists _ (among member)).mem_iff rest other).mp found
      exact ⟨(at?_cons_eq_some_iff distinct).mpr ⟨entry, among member, standing⟩, dump⟩
    · rintro ⟨standing, dump⟩
      cases trail with
      | nil => cases standing
      | cons name rest =>
          obtain ⟨entry, member, standing⟩ := (at?_cons_eq_some_iff distinct).mp standing
          have found := ((lists _ member).mem_iff rest content).mpr ⟨standing, dump⟩
          exact ⟨(name, entry), (inOrder_perm path entries).mem_iff.mpr member,
            List.mem_map_of_mem found⟩
  · rw [List.pairwise_flatMap]
    constructor
    · intro entry member
      rw [List.pairwise_map]
      exact (lists entry (among member)).ordered.imp fun precedes => precedes.cons
    · refine (inOrder_before distinct).imp fun before first member second later => ?_
      obtain ⟨_, _, rfl⟩ := List.mem_map.mp member
      obtain ⟨_, _, rfl⟩ := List.mem_map.mp later
      exact precedes_of_before _ _ before

/-- Below a directory, the names of files decide which are dumps. -/
theorem Readable.isDump_iff {path : String} {entries : List (String × FileTree)}
    (readable : (FileTree.directory entries).Readable path) {trail : List String}
    {content : List UInt8}
    (found : (FileTree.directory entries).at? trail = some (.file content)) :
    DumpFile.isDump (Path.descend path trail) = true ↔
      ∃ front stem, stem ≠ "" ∧ trail = front ++ [stem ++ ".json"] := by
  rcases List.eq_nil_or_concat trail with rfl | ⟨front, name, rfl⟩
  · cases found
  rw [List.concat_eq_append] at found ⊢
  rw [Path.descend_append, Path.descend_cons, Path.descend_nil,
    DumpFile.isDump_join_iff _ (readable.isName found)]
  constructor
  · rintro ⟨stem, notEmpty, rfl⟩
    exact ⟨front, stem, notEmpty, rfl⟩
  · rintro ⟨other, stem, notEmpty, same⟩
    obtain ⟨_, last⟩ := List.append_inj' same rfl
    exact ⟨stem, notEmpty, List.singleton_inj.mp last⟩

/-- The dumps below what can be read through can be listed. -/
theorem Readable.exists_lists {path : String} {tree : FileTree} (readable : tree.Readable path) :
    ∃ dumps, tree.Lists path dumps := by
  induction readable with
  | file usable => exact exists_lists_file _ usable
  | directory usable distinct _ _ ih =>
      choose! below lists using ih
      exact ⟨_, lists_directory usable distinct below lists⟩

end FileTree

namespace DumpFile

variable (directory : String)

theorem read_atEnd (dump : List String × List UInt8) :
    read (atEnd directory dump) =
      match classes? dump.2 with
      | some classes => .ok ⟨Path.descend directory dump.1, dump.2.length, classes⟩
      | none => .error (.malformed (Path.descend directory dump.1)) := rfl

theorem mapM_read_of_isSome {dumps : List (List String × List UInt8)}
    (decode : ∀ dump ∈ dumps, (classes? dump.2).isSome) :
    (dumps.map (atEnd directory)).mapM read = .ok (dumps.map fun dump =>
      ⟨Path.descend directory dump.1, dump.2.length, (classes? dump.2).getD []⟩) := by
  induction dumps with
  | nil => rfl
  | cons dump rest ih =>
      rw [List.forall_mem_cons] at decode
      obtain ⟨classes, decoded⟩ := Option.isSome_iff_exists.mp decode.1
      rw [List.map_cons, List.mapM_cons, read_atEnd, ih decode.2, List.map_cons, decoded]
      rfl

theorem mapM_read_of_eq_none {front back : List (List String × List UInt8)}
    {dump : List String × List UInt8} (decode : ∀ dump ∈ front, (classes? dump.2).isSome)
    (stuck : classes? dump.2 = none) :
    ((front ++ dump :: back).map (atEnd directory)).mapM read =
      .error (.malformed (Path.descend directory dump.1)) := by
  rw [List.map_append, List.mapM_append, mapM_read_of_isSome directory decode, List.map_cons,
    List.mapM_cons, read_atEnd, stuck]
  rfl

end DumpFile

namespace Scan

/-- What is read from dumps that all hold classes: one artifact for each, and its classes, told the
position of the artifact. -/
def ofDumps (directory : String) (dumps : List (List String × List UInt8)) : Scan :=
  ⟨dumps.map fun (trail, content) => ⟨Path.descend directory trail, content.length, false⟩,
    dumps.zipIdx.flatMap fun (dump, position) =>
      ((DumpFile.classes? dump.2).getD []).map fun owner => { owner with artifact := position }⟩

section

variable (directory : String) (dumps : List (List String × List UInt8))

theorem ofFiles_of_isSome (decode : ∀ dump ∈ dumps, (DumpFile.classes? dump.2).isSome) :
    ofFiles false (dumps.map (DumpFile.atEnd directory)) = .ok (ofDumps directory dumps) := by
  rw [ofFiles, DumpFile.mapM_read_of_isSome directory decode]
  simp only [List.map_map, List.zipIdx_map, List.flatMap_map]
  rfl

theorem artifact_le_ofDumps :
    ((ofDumps directory dumps).classes.map (·.artifact)).Pairwise (· ≤ ·) := by
  have positions : dumps.zipIdx.Pairwise fun first second => first.2 < second.2 := by
    rw [← List.pairwise_map, List.zipIdx_map_snd]
    exact List.pairwise_lt_range'
  rw [List.pairwise_map, ofDumps, List.pairwise_flatMap]
  constructor
  · intro ⟨dump, position⟩ _
    rw [List.pairwise_map]
    exact List.pairwise_of_forall fun _ _ => Nat.le_refl position
  · refine positions.imp fun before first member second later => ?_
    obtain ⟨_, _, rfl⟩ := List.mem_map.mp member
    obtain ⟨_, _, rfl⟩ := List.mem_map.mp later
    exact Nat.le_of_lt before

/-- A class is told the position of the file that it was read from. -/
theorem exists_source_of_mem_ofDumps {owner : Class}
    (member : owner ∈ (ofDumps directory dumps).classes) :
    ∃ trail content, dumps[owner.artifact]? = some (trail, content) ∧
      ∃ original ∈ (DumpFile.classes? content).getD [],
        owner = { original with artifact := owner.artifact } := by
  obtain ⟨⟨⟨trail, content⟩, position⟩, placed, inside⟩ := List.mem_flatMap.mp member
  obtain ⟨original, read, rfl⟩ := List.mem_map.mp inside
  exact ⟨trail, content, List.mem_zipIdx_iff_getElem?.mp placed, original, read, rfl⟩

theorem ofFiles_of_eq_none {front back : List (List String × List UInt8)}
    {dump : List String × List UInt8}
    (decode : ∀ dump ∈ front, (DumpFile.classes? dump.2).isSome)
    (stuck : DumpFile.classes? dump.2 = none) :
    ofFiles false ((front ++ dump :: back).map (DumpFile.atEnd directory)) =
      .error (.malformed (Path.descend directory dump.1)) := by
  rw [ofFiles, DumpFile.mapM_read_of_eq_none directory decode stuck]

/-- Either every file holds a dump, or there is a first one that does not. -/
theorem decode_or_exists_first :
    (∀ dump ∈ dumps, (DumpFile.classes? dump.2).isSome) ∨
      ∃ front trail content back, dumps = front ++ (trail, content) :: back ∧
        (∀ dump ∈ front, (DumpFile.classes? dump.2).isSome) ∧
        DumpFile.classes? content = none := by
  cases stuck : dumps.find? fun dump => (DumpFile.classes? dump.2).isNone with
  | none =>
      refine Or.inl fun dump member => ?_
      rw [← Option.not_isNone, Bool.not_eq_true']
      exact Bool.eq_false_iff.mpr (List.find?_eq_none.mp stuck dump member)
  | some dump =>
      obtain ⟨nothing, front, back, split, earlier⟩ := List.find?_eq_some_iff_append.mp stuck
      refine Or.inr ⟨front, dump.1, dump.2, back, split, fun other member => ?_,
        Option.isNone_iff_eq_none.mp nothing⟩
      rw [← Option.not_isNone]
      exact earlier other member

theorem ofFiles_eq_ok_iff (scan : Scan) :
    ofFiles false (dumps.map (DumpFile.atEnd directory)) = .ok scan ↔
      (∀ dump ∈ dumps, (DumpFile.classes? dump.2).isSome) ∧ scan = ofDumps directory dumps := by
  constructor
  · intro success
    rcases decode_or_exists_first dumps with decode | ⟨front, _, _, back, rfl, earlier, stuck⟩
    · rw [ofFiles_of_isSome directory dumps decode] at success
      exact ⟨decode, (Except.ok.inj success).symm⟩
    · rw [ofFiles_of_eq_none directory earlier stuck] at success
      cases success
  · rintro ⟨decode, rfl⟩
    exact ofFiles_of_isSome directory dumps decode

theorem ofFiles_eq_error_iff (failure : Failure) :
    ofFiles false (dumps.map (DumpFile.atEnd directory)) = .error failure ↔
      ∃ front trail content back, dumps = front ++ (trail, content) :: back ∧
        (∀ dump ∈ front, (DumpFile.classes? dump.2).isSome) ∧
        DumpFile.classes? content = none ∧
        failure = .malformed (Path.descend directory trail) := by
  constructor
  · intro failed
    rcases decode_or_exists_first dumps with decode | ⟨front, trail, content, back, rfl, earlier,
      stuck⟩
    · rw [ofFiles_of_isSome directory dumps decode] at failed
      cases failed
    · rw [ofFiles_of_eq_none directory earlier stuck] at failed
      exact ⟨front, trail, content, back, rfl, earlier, stuck, (Except.error.inj failed).symm⟩
  · rintro ⟨front, trail, content, back, rfl, earlier, stuck, rfl⟩
    exact ofFiles_of_eq_none directory earlier stuck

end

/-- The scan of a directory that can be read through. Below it stand files named as dumps; each is
read once, in the order of the walk. If all of them hold dumps, the scan has one artifact for each
and their classes in turn, each told the position of its own file, and no artifact is the input
itself; otherwise it fails with the first that does not. It makes no difference in which order the
directories list their entries. -/
theorem ofInput_directory (files : FileSystem) (input : String)
    (entries : List (String × FileTree))
    (standing : files.resolve? input = some (.directory entries))
    (readable : (FileTree.directory entries).Readable input) :
    ∃ dumps : List (List String × List UInt8),
      (∀ trail content, (trail, content) ∈ dumps ↔
        (FileTree.directory entries).at? trail = some (.file content) ∧
          ∃ front stem, stem ≠ "" ∧ trail = front ++ [stem ++ ".json"]) ∧
      (dumps.map (·.1)).Nodup ∧
      dumps.Pairwise (fun first second => FileTree.Precedes input first.1 second.1) ∧
      (∀ scan, ofInput files input = .ok scan ↔
        (∀ dump ∈ dumps, (DumpFile.classes? dump.2).isSome) ∧ scan = ofDumps input dumps) ∧
      (∀ failure, ofInput files input = .error failure ↔
        ∃ front trail content back, dumps = front ++ (trail, content) :: back ∧
          (∀ dump ∈ front, (DumpFile.classes? dump.2).isSome) ∧
          DumpFile.classes? content = none ∧
          failure = .malformed (Path.descend input trail)) ∧
      ((ofDumps input dumps).classes.map (·.artifact)).Pairwise (· ≤ ·) ∧
      (∀ owner ∈ (ofDumps input dumps).classes,
        owner.artifact < (ofDumps input dumps).artifacts.length ∧
          ∃ trail content, dumps[owner.artifact]? = some (trail, content) ∧
            ∃ original ∈ (DumpFile.classes? content).getD [],
              owner = { original with artifact := owner.artifact }) ∧
      (∀ artifact ∈ (ofDumps input dumps).artifacts, artifact.isInput = false) ∧
      ∀ (other : FileSystem) (listed : FileTree), other.resolve? input = some listed →
        (FileTree.directory entries).Relisted listed →
        ofInput other input = ofInput files input := by
  obtain ⟨dumps, lists⟩ := readable.exists_lists
  have scanned : ofInput files input = ofFiles false (dumps.map (DumpFile.atEnd input)) := by
    rw [ofInput, standing, ← lists.scanned]
  refine ⟨dumps, fun trail content => ?_, ?_, lists.ordered, fun scan => ?_, fun failure => ?_,
    artifact_le_ofDumps input dumps, fun owner member => ?_, fun artifact member => ?_,
    fun other listed found relisted => ?_⟩
  · rw [lists.mem_iff]
    exact and_congr_right fun found => readable.isDump_iff found
  · exact List.pairwise_map.mpr (lists.ordered.imp fun precedes => precedes.ne)
  · rw [scanned, ofFiles_eq_ok_iff]
  · rw [scanned, ofFiles_eq_error_iff]
  · obtain ⟨trail, content, placed, source⟩ := exists_source_of_mem_ofDumps input dumps member
    refine ⟨?_, trail, content, placed, source⟩
    rw [ofDumps, List.length_map]
    exact (List.getElem?_eq_some_iff.mp placed).1
  · obtain ⟨_, _, rfl⟩ := List.mem_map.mp member
    rfl
  · obtain ⟨others, rfl⟩ := relisted.exists_directory
    rw [ofInput, found, ofInput, standing]
    simp only [FileTree.dumpFiles_relisted relisted readable]

/-- A directory that is named like a dump and comes before one, beside a file whose name is all
extension; the directory lists them in two orders. -/
theorem ofInput_directory_nested :
    let hud := Text.bytes "[\"Hud\",null,false,[]]"
    let rest := Text.bytes "[[\"Map\",null,true,[]],[\"Box\",null,false,[]]]"
    let inner := FileTree.directory [("z.json", .file hud)]
    let entries : List (String × FileTree) :=
      [("b.json", .file rest), (".json", .file []), ("a.json", inner)]
    let files (entries : List (String × FileTree)) : FileSystem :=
      ⟨.directory [("in", .directory entries)], []⟩
    let scan : Scan :=
      ⟨[⟨"in/a.json/z.json", 21, false⟩, ⟨"in/b.json", 44, false⟩],
        [⟨"Hud", none, false, [], 0⟩, ⟨"Map", none, true, [], 1⟩, ⟨"Box", none, false, [], 1⟩]⟩
    ofInput (files entries) "in" = .ok scan ∧ ofInput (files entries.reverse) "in" = .ok scan ∧
      ∃ dumps, scan = ofDumps "in" dumps ∧ (["a.json", "z.json"], hud) ∈ dumps := by
  intro hud rest inner entries files scan
  have usable : Path.isUsable "in" = true := by decide +kernel
  have standing (entries : List (String × FileTree)) :
      (files entries).resolve? "in" = some (.directory entries) := by
    have parts : Path.parts "in" = ["in"] := by decide +kernel
    have relative : Path.isAbsolute "in" = false := by decide +kernel
    simp [FileSystem.resolve?, FileSystem.trail?, FileSystem.origin, FileSystem.follow, files,
      usable, parts, relative, FileTree.isDirectoryAt, FileTree.at?, Path.step]
  have readable : (FileTree.directory entries).Readable "in" := by
    refine .directory usable (by decide) (by decide) ?_
    simp only [entries, List.forall_mem_cons]
    refine ⟨.file (by decide +kernel), .file (by decide +kernel), ?_, by simp⟩
    refine .directory (by decide +kernel) (by decide) (by decide) ?_
    simp only [List.forall_mem_cons]
    exact ⟨.file (by decide +kernel), by simp⟩
  have sorted : FileTree.inOrder "in" entries =
      [(".json", .file []), ("a.json", inner), ("b.json", .file rest)] := by
    refine FileTree.inOrder_eq_of_perm (by decide) ?_ ?_
    · exact (List.Perm.swap _ _ _).trans ((List.Perm.swap _ _ _).cons _)
    · unfold Text.Before
      decide +kernel
  have dumpFiles : (FileTree.directory entries).dumpFiles "in" =
      [⟨"in/a.json/z.json", some hud⟩, ⟨"in/b.json", some rest⟩] := by
    rw [FileTree.dumpFiles_directory usable, sorted]
    decide +kernel
  have success : ofInput (files entries) "in" = .ok scan := by
    have read : ofFiles false [⟨"in/a.json/z.json", some hud⟩, ⟨"in/b.json", some rest⟩] =
        .ok scan := by decide +kernel
    rw [ofInput, standing]
    simp only [dumpFiles, read]
  obtain ⟨dumps, mem_iff, -, -, ok, -, -, -, -, relisting⟩ :=
    ofInput_directory (files entries) "in" entries (standing entries) readable
  have relisted := relisting (files entries.reverse) _ (standing entries.reverse)
    (.perm entries.reverse_perm.symm)
  exact ⟨success, relisted.trans success, dumps, ((ok scan).mp success).2,
    (mem_iff _ _).mpr ⟨rfl, ["a.json"], "z", by decide, rfl⟩⟩
end Scan

end MethodPatch
