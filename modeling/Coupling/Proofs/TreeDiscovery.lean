import Coupling.Proofs.Discovery
import Coupling.Proofs.Run.Courses
import Coupling.Proofs.Text

/-! What is found below a root: the regular files that are reached through directories alone, under the
path of the root followed by the names on the way, in whatever order a walk meets them. -/
namespace Coupling

/-! ## Extensions -/

/-- Whether a path from the root leads to a unit: the name at its end has an allowed ending, and a test is
wanted if it is one. -/
structure DiscoveryOptions.Admits (o : DiscoveryOptions) (names : List String) : Prop where
  extension : ∃ stem ending, names.getLast? = some (stem ++ "." ++ ending) ∧ stem ≠ "" ∧
    '.' ∉ ending.toList ∧ ∃ allowed ∈ o.extensions, lowerAscii allowed = lowerAscii ending
  test : o.includeTests = true ∨ isTestSource ("/".intercalate names) = false

theorem splitName_eq_some_iff {name ending : String} :
    (Path.splitName name).2 = some ending ↔
      ∃ stem, name = stem ++ "." ++ ending ∧ stem ≠ "" ∧ '.' ∉ ending.toList := by
  have texts (stem : String) :
      name = stem ++ "." ++ ending ↔ name.toList = stem.toList ++ '.' :: ending.toList := by
    rw [← String.toList_inj]
    simp
  simp only [texts]
  unfold Path.splitName
  split
  · rename_i stem ending' split
    obtain ⟨text,free⟩ := Text.splitLast?_eq_some_iff.mp split
    constructor
    · intro found
      split at found
      · cases found
      · rename_i written
        cases found
        exact ⟨stem,text,by simpa using written,free⟩
    · rintro ⟨stem',text',written,free'⟩
      have same := Text.splitLast?_eq_some_iff.mpr ⟨text',free'⟩
      rw [split] at same
      cases same
      simp [written]
  · rename_i none
    simp only [reduceCtorEq,false_iff]
    rintro ⟨stem,text,-,free⟩
    rw [Text.splitLast?_eq_some_iff.mpr ⟨text,free⟩] at none
    cases none

theorem allows_iff {o : DiscoveryOptions} {p : Path} {name : String} (file : p.fileName? = some name) :
    o.allows p = true ↔ ∃ stem ending, name = stem ++ "." ++ ending ∧ stem ≠ "" ∧ '.' ∉ ending.toList ∧
      ∃ allowed ∈ o.extensions,
        DiscoveryOptions.lowerAscii allowed = DiscoveryOptions.lowerAscii ending := by
  have allowed : o.allows p = true ↔ ∃ ending, (Path.splitName name).2 = some ending ∧
      ∃ allowed ∈ o.extensions,
        DiscoveryOptions.lowerAscii allowed = DiscoveryOptions.lowerAscii ending := by
    simp only [DiscoveryOptions.allows,Path.extension?,file,Option.bind_some]
    cases (Path.splitName name).2 <;> simp
  simp only [allowed,splitName_eq_some_iff]
  constructor
  · rintro ⟨ending,⟨stem,text,written,free⟩,capital⟩
    exact ⟨stem,ending,text,written,free,capital⟩
  · rintro ⟨stem,ending,text,written,free,capital⟩
    exact ⟨ending,⟨stem,text,written,free⟩,capital⟩

/-! ## Files in a tree -/

/-- There is `u` at the end of these names in `t`, reached through directories alone. -/
inductive FileTree.Holds : FileTree → List String → FileTree → Prop
  | here (t : FileTree) : Holds t [] t
  | inside {name : String} {es : List FileTree} {e u : FileTree} {names : List String} (entry : e ∈ es)
      (rest : e.Holds names u) : Holds (.directory name es) (e.name :: names) u

def FileTree.HoldsFile (t : FileTree) (names : List String) : Prop := ∃ u, t.Holds names u ∧ u.isFile

/-- The path of what is at the end of these names below a directory. -/
def Path.below (root : Path) (names : List String) : Path := names.foldl (fun p name => p.join ⟨name⟩) root

theorem mem_filesOf_iff {path p : Path} {es : List FileTree} :
    p ∈ filesOf path es ↔ ∃ e ∈ es, p ∈ e.files (path.join ⟨e.name⟩) := by
  induction es with
  | nil => simp [filesOf]
  | cons e rest ih => simp [filesOf,ih]

namespace FileTree

variable {p path : Path} {t u : FileTree} {names : List String}

theorem Holds.wellNamed (holds : t.Holds names u) (named : t.wellNamed) : ∀ name ∈ names, isEntryName name := by
  induction holds with
  | here t => simp
  | inside entry rest ih =>
    have inner := wellNamed_entry named entry
    exact List.forall_mem_cons.mpr ⟨inner.1,ih inner.2⟩

theorem HoldsFile.wellNamed (holds : t.HoldsFile names) (named : t.wellNamed) :
    ∀ name ∈ names, isEntryName name := by
  obtain ⟨u,holds,-⟩ := holds
  exact holds.wellNamed named

theorem mem_files_of_holds (holds : t.Holds names u) (file : u.isFile) (path : Path) :
    path.below names ∈ t.files path := by
  induction holds generalizing path with
  | here t =>
    cases t with
    | file _ _ => simp [files,Path.below]
    | link _ _ => cases file
    | directory _ _ => cases file
  | inside entry rest ih =>
    rw [files, mem_filesOf_iff]
    exact ⟨_,entry,ih file _⟩

theorem holds_of_mem_files (t : FileTree) {path : Path} (member : p ∈ t.files path) :
    ∃ names, p = path.below names ∧ t.HoldsFile names := by
  match t with
  | .file name content =>
    rw [files, List.mem_singleton] at member
    exact ⟨[],member,_,.here _,rfl⟩
  | .link _ _ =>
    rw [files] at member
    cases member
  | .directory name es =>
    rw [files, mem_filesOf_iff] at member
    obtain ⟨e,entry,inside⟩ := member
    obtain ⟨names,rfl,u,holds,file⟩ := holds_of_mem_files e inside
    exact ⟨e.name :: names,rfl,u,.inside entry holds,file⟩
termination_by sizeOf t
decreasing_by
  have := List.sizeOf_lt_of_mem entry
  simp only [directory.sizeOf_spec]
  omega

/-- A tree has the paths of its regular files, and no others. -/
theorem mem_files_iff : p ∈ t.files path ↔ ∃ names, p = path.below names ∧ t.HoldsFile names := by
  refine ⟨t.holds_of_mem_files,?_⟩
  rintro ⟨names,rfl,u,holds,file⟩
  exact mem_files_of_holds holds file path

end FileTree

/-! ## Paths below a root -/

section Below

variable {root : Path} {names : List String}

theorem Path.below_concat (root : Path) (names : List String) (name : String) :
    root.below (names ++ [name]) = (root.below names).join ⟨name⟩ := by
  rw [below, List.foldl_append]
  rfl

theorem Path.below_cons (root : Path) (name : String) (names : List String) :
    root.below (name :: names) = (root.join ⟨name⟩).below names := rfl

theorem Path.components_below (root : Path) (named : ∀ name ∈ names, isEntryName name) :
    (root.below names).components = root.components ++ names.map .normal := by
  induction names generalizing root with
  | nil => simp [below]
  | cons name rest ih =>
    obtain ⟨first,later⟩ := List.forall_mem_cons.mp named
    rw [below_cons, ih _ later, components_join root first]
    simp

theorem map_normal_inj {names others : List String}
    (same : names.map Component.normal = others.map Component.normal) : names = others :=
  (List.map_inj_right fun _ _ => Component.normal.inj).mp same

theorem Path.below_inj {others : List String} (named : ∀ name ∈ names, isEntryName name)
    (named' : ∀ name ∈ others, isEntryName name)
    (same : (root.below names).components = (root.below others).components) : names = others := by
  rw [components_below root named, components_below root named', List.append_cancel_left_eq] at same
  exact map_normal_inj same

/-- What a path from the root is written as does not depend on the root. -/
theorem relativeText_below (root : Path) (named : ∀ name ∈ names, isEntryName name) :
    relativeText root (root.below names) = "/".intercalate names := by
  have under : root.components <+: root.components ++ names.map .normal := List.prefix_append ..
  have names' : (names.map Component.normal).map Component.text = names := by
    rw [List.map_map]
    exact List.map_id names
  simp [relativeText,Path.componentsBelow?,Path.components_below root named,under,names']

theorem selects_below_iff {o : DiscoveryOptions} (root : Path) {name : String}
    (named : ∀ n ∈ names ++ [name], isEntryName n) :
    o.selects root (root.below (names ++ [name])) = true ↔ o.Admits (names ++ [name]) := by
  have file : (root.below (names ++ [name])).fileName? = some name := by
    rw [Path.below_concat]
    exact Path.fileName?_join _ (named name (by simp))
  rw [DiscoveryOptions.selects, relativeText_below root named, Bool.and_eq_true, allows_iff file,
    Bool.or_eq_true, Bool.not_eq_true']
  constructor
  · intro ⟨extension,test⟩
    exact ⟨by simpa using extension,test⟩
  · intro ⟨extension,test⟩
    exact ⟨by simpa using extension,test⟩

/-- Paths below one root are equal, and stand in equal directories, only if they are written alike. -/
theorem unambiguous_below {units : List Path} (all : ∀ u ∈ units, ∃ names name,
    (∀ n ∈ names ++ [name], isEntryName n) ∧ u = root.below (names ++ [name])) :
    SourceTree.Unambiguous root units := by
  constructor
  · intro u first v second equal
    obtain ⟨names,name,named,rfl⟩ := all u first
    obtain ⟨others,other,named',rfl⟩ := all v second
    rw [Path.below_inj named named' (Path.compare_eq_iff.mp equal)]
  · intro u first v second equal
    obtain ⟨names,name,named,rfl⟩ := all u first
    obtain ⟨others,other,named',rfl⟩ := all v second
    have front : ∀ n ∈ names, isEntryName n := fun n member => named n (List.mem_append_left _ member)
    have front' : ∀ n ∈ others, isEntryName n := fun n member => named' n (List.mem_append_left _ member)
    obtain ⟨d,components,parent⟩ := (root.below names).parent?_join
    obtain ⟨d',components',parent'⟩ := (root.below others).parent?_join
    have up := parent name (named name (by simp))
    have up' := parent' other (named' other (by simp))
    rw [Path.below_concat, Path.below_concat, up, up', Option.getD_some, Option.getD_some,
      Path.compare_eq_iff, components, components'] at equal
    have same := Path.below_inj front front' equal
    subst same
    rw [Path.below_concat, Path.below_concat, up, parent other (named' other (by simp))]

/-- The directory of a path below a root has the components of what is above its last name. -/
theorem compare_parent_below {q : Path} {name : String} (named : isEntryName name) :
    compare q ((root.below (names ++ [name])).parent?.getD root) = .eq ↔
      compare q (root.below names) = .eq := by
  obtain ⟨d,components,parent⟩ := (root.below names).parent?_join
  rw [Path.below_concat, parent name named, Option.getD_some, Path.compare_eq_iff, Path.compare_eq_iff,
    components]

end Below

/-! ## Units below a root -/

def FileTree.HoldsUnit (d : FileTree) (o : DiscoveryOptions) (names : List String) : Prop :=
  d.HoldsFile names ∧ o.Admits names

/-- What is found below a root that leads to a directory: its units, and they stand under the directories
that hold them. -/
structure Discovered (root : Path) (o : DiscoveryOptions) (d : FileTree) (tree : SourceTree) : Prop where
  rooted : tree.root = root
  ordered : tree.Ordered
  units : ∀ p, p ∈ tree.units ↔ ∃ names, p = root.below names ∧ d.HoldsUnit o names
  directories : ∀ q, (∃ directory ∈ tree.directories, compare q directory = .eq) ↔
    ∃ names name, compare q (root.below names) = .eq ∧ d.HoldsUnit o (names ++ [name])
  unitsIn : ∀ q p, p ∈ tree.unitsIn q ↔ ∃ names name, compare q (root.below names) = .eq ∧
    p = root.below (names ++ [name]) ∧ d.HoldsUnit o (names ++ [name])

section Units

variable {fs : FileSystem} {root : Path} {o : DiscoveryOptions} {d : FileTree}

/-- A file in a directory has a name there. -/
theorem FileTree.HoldsFile.concat {names : List String} (holds : d.HoldsFile names)
    (directory : d.isDirectory) : ∃ front name, names = front ++ [name] := by
  rcases List.eq_nil_or_concat names with rfl | ⟨front,name,rfl⟩
  · obtain ⟨file,⟨⟩,isFile⟩ := holds
    cases d with
    | file _ _ => cases directory
    | link _ _ => cases directory
    | directory _ _ => cases isFile
  · exact ⟨front,name,List.concat_eq_append⟩

theorem lookup_wellNamed (named : fs.root.wellNamed) {p : Path} {t : FileTree} (found : fs.lookup p = .ok t) :
    t.wellNamed := by
  unfold FileSystem.lookup at found
  split at found
  · cases found
  · split at found
    · cases found
      exact FileTree.wellNamed_at? named ‹_›
    · cases found

theorem discover_of_lookup (found : fs.lookup root = .ok d) (directory : d.isDirectory) :
    discover fs root o = .ok (.ofUnits root ((d.files root).filter (o.selects root))) := by
  have usable : fs.checkRoot root = .ok () := by
    simp [FileSystem.checkRoot,FileSystem.contains,FileSystem.isDirectory,found,directory,Except.toOption]
  have files : filesOf root d.entries = d.files root := by
    cases d with
    | file _ _ => cases directory
    | link _ _ => cases directory
    | directory _ es => simp [FileTree.files,FileTree.entries]
  simp only [discover,usable,found,Except.toOption,Option.map_some,Option.getD_some,files]

theorem discover_eq_error_iff :
    (∃ reason, discover fs root o = .error (.invalidRoot root reason)) ↔
      ¬∃ d, fs.lookup root = .ok d ∧ d.isDirectory := by
  constructor
  · rintro ⟨reason,failed⟩ ⟨d,found,directory⟩
    rw [discover_of_lookup found directory] at failed
    cases failed
  · intro none
    cases checked : fs.checkRoot root with
    | error e =>
      obtain ⟨reason,rfl⟩ := checkRoot_error checked
      exact ⟨reason,by simp [discover,checked]⟩
    | ok _ =>
      obtain ⟨place,located,name,entries,there⟩ := checkRoot_eq_ok_iff.mp checked
      exact absurd ⟨.directory name entries,by simp [FileSystem.lookup,located,there],rfl⟩ none

variable (named : d.wellNamed) (directory : d.isDirectory)

include named directory

theorem mem_selected_iff {p : Path} :
    p ∈ (d.files root).filter (o.selects root) ↔ ∃ names name,
      p = root.below (names ++ [name]) ∧ d.HoldsUnit o (names ++ [name]) := by
  rw [List.mem_filter, FileTree.mem_files_iff]
  constructor
  · rintro ⟨⟨names,rfl,holds⟩,selected⟩
    obtain ⟨front,name,rfl⟩ := holds.concat directory
    exact ⟨front,name,rfl,holds,(selects_below_iff root (holds.wellNamed named)).mp selected⟩
  · rintro ⟨names,name,rfl,holds,admits⟩
    exact ⟨⟨_,rfl,holds⟩,(selects_below_iff root (holds.wellNamed named)).mpr admits⟩

theorem selected_unambiguous (root : Path) (o : DiscoveryOptions) :
    SourceTree.Unambiguous root ((d.files root).filter (o.selects root)) := by
  apply unambiguous_below
  intro u member
  obtain ⟨names,name,rfl,holds,-⟩ := (mem_selected_iff named directory).mp member
  exact ⟨names,name,holds.wellNamed named,rfl⟩

theorem ofUnits_discovered (root : Path) (o : DiscoveryOptions) :
    Discovered root o d (.ofUnits root ((d.files root).filter (o.selects root))) := by
  have unambiguous := selected_unambiguous named directory root o
  have entryName {names : List String} {name : String} (holds : d.HoldsUnit o (names ++ [name])) :
      isEntryName name := holds.1.wellNamed named name (by simp)
  constructor
  case rooted => exact SourceTree.root_ofUnits ..
  case ordered => exact SourceTree.ofUnits_ordered ..
  case units =>
    intro p
    rw [SourceTree.mem_ofUnits_iff unambiguous, mem_selected_iff named directory]
    constructor
    · rintro ⟨names,name,rfl,holds⟩
      exact ⟨_,rfl,holds⟩
    · rintro ⟨names,rfl,holds⟩
      obtain ⟨front,name,rfl⟩ := holds.1.concat directory
      exact ⟨front,name,rfl,holds⟩
  case directories =>
    intro q
    constructor
    · rintro ⟨d,member,equal⟩
      obtain ⟨u,selected,rfl⟩ := (SourceTree.mem_directories_ofUnits_iff unambiguous).mp member
      obtain ⟨names,name,rfl,holds⟩ := (mem_selected_iff named directory).mp selected
      exact ⟨names,name,(compare_parent_below (entryName holds)).mp equal,holds⟩
    · rintro ⟨names,name,equal,holds⟩
      have equal' := (compare_parent_below (entryName holds)).mpr equal
      have selected : root.below (names ++ [name]) ∈ (d.files root).filter (o.selects root) :=
        (mem_selected_iff named directory).mpr ⟨names,name,rfl,holds⟩
      exact ⟨_,(SourceTree.mem_directories_ofUnits_iff unambiguous).mpr ⟨_,selected,rfl⟩,equal'⟩
  case unitsIn =>
    intro q p
    rw [SourceTree.mem_unitsIn_ofUnits_iff unambiguous, mem_selected_iff named directory]
    constructor
    · rintro ⟨⟨names,name,rfl,holds⟩,equal⟩
      exact ⟨names,name,(compare_parent_below (entryName holds)).mp equal,rfl,holds⟩
    · rintro ⟨names,name,equal,rfl,holds⟩
      exact ⟨⟨names,name,rfl,holds⟩,(compare_parent_below (entryName holds)).mpr equal⟩

/-- The tree of units is the same for every order of the files, and however often each is met. -/
theorem ofUnits_of_files {met : List Path}
    (files : ∀ p, p ∈ met ↔ ∃ names, p = root.below names ∧ d.HoldsFile names) :
    SourceTree.ofUnits root (met.filter (o.selects root)) =
      .ofUnits root ((d.files root).filter (o.selects root)) := by
  apply SourceTree.ofUnits_congr (selected_unambiguous named directory root o)
  intro p
  rw [List.mem_filter, List.mem_filter, files, FileTree.mem_files_iff]

end Units

/-- Looking for units fails exactly where there is no directory, and finds exactly the regular files below
the root that are wanted, reached through directories alone, under the directories that hold them. The
tree is the same in whatever order the walk meets the files, and it depends on nothing but which files
there are below the root. -/
theorem discover_exact (fs : FileSystem) (root : Path) (o : DiscoveryOptions) (named : fs.root.wellNamed) :
    ((∃ reason, discover fs root o = .error (.invalidRoot root reason)) ↔
      ¬∃ d, fs.lookup root = .ok d ∧ d.isDirectory) ∧
    ∀ d, fs.lookup root = .ok d → d.isDirectory →
      ∃ tree, discover fs root o = .ok tree ∧ Discovered root o d tree ∧
        (∀ met : List Path, (∀ p, p ∈ met ↔ ∃ names, p = root.below names ∧ d.HoldsFile names) →
          SourceTree.ofUnits root (met.filter (o.selects root)) = tree) ∧
        ∀ fs' d', fs'.lookup root = .ok d' → d'.isDirectory →
          (∀ names, d'.HoldsFile names ↔ d.HoldsFile names) → discover fs' root o = .ok tree := by
  refine ⟨discover_eq_error_iff,?_⟩
  intro d found directory
  have inner := lookup_wellNamed named found
  refine ⟨_,discover_of_lookup found directory,ofUnits_discovered inner directory root o,?_,?_⟩
  · exact fun met files => ofUnits_of_files inner directory files
  · intro fs' d' found' directory' same
    rw [discover_of_lookup found' directory']
    refine congrArg Except.ok (ofUnits_of_files inner directory ?_)
    intro p
    simp only [FileTree.mem_files_iff,same]

def mixedDirectory : FileTree :=
  .directory "src" [.file "A.JAVA" [],.file "notes.txt" [],.link "B.java" ⟨"A.JAVA"⟩,
    .directory "test" [.file "C.java" []],.directory "x" [.file "DTest.java" [],.file "E.java" []]]

def mixedFiles : FileSystem := ⟨.directory "" [mixedDirectory,.link "test" ⟨"src"⟩],[]⟩

theorem discover_exact_mixed :
    mixedFiles.root.wellNamed ∧ mixedFiles.lookup ⟨"./test/"⟩ = .ok mixedDirectory ∧
    ∃ tree, discover mixedFiles ⟨"./test/"⟩ ⟨["java"],false⟩ = .ok tree ∧
      tree.groupings = [(⟨"./test"⟩,[⟨"./test/A.JAVA"⟩]),(⟨"./test/x"⟩,[⟨"./test/x/E.java"⟩])] ∧
      Discovered ⟨"./test/"⟩ ⟨["java"],false⟩ mixedDirectory tree ∧
      (∃ names, Path.mk "./test/x/E.java" = Path.below ⟨"./test/"⟩ names ∧
        mixedDirectory.HoldsUnit ⟨["java"],false⟩ names) := by
  have named : mixedFiles.root.wellNamed := by decide
  have found : mixedFiles.lookup ⟨"./test/"⟩ = .ok mixedDirectory := rfl
  obtain ⟨tree,run,discovered,-⟩ := (discover_exact mixedFiles ⟨"./test/"⟩ ⟨["java"],false⟩ named).2 _ found rfl
  have groupings : tree.groupings = [(⟨"./test"⟩,[⟨"./test/A.JAVA"⟩]),(⟨"./test/x"⟩,[⟨"./test/x/E.java"⟩])] := by
    cases run
    decide
  refine ⟨named,found,tree,run,groupings,discovered,(discovered.units _).mp ?_⟩
  rw [SourceTree.units, groupings]
  decide

end Coupling
