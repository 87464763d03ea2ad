import Coupling.Proofs.TreeDiscovery

/-! The units of a directory, looked for alone and met on the way through a tree. Both ways give the same
paths to the regular files in it, and differ in its links: a walk passes them by, but a directory alone is
asked where each of its entries leads. -/
namespace Coupling

open FileSystem

/-! ## Distinct entries -/

mutual

def FileTree.distinct : FileTree → Bool
  | .file _ _ => true
  | .link _ _ => true
  | .directory _ es => distinctAll es

def distinctAll : List FileTree → Bool
  | [] => true
  | e :: es => !(es.map FileTree.name).contains e.name && e.distinct && distinctAll es

end

namespace FileTree

variable {t u e : FileTree} {names : List String}

theorem distinctAll_names {es : List FileTree} (distinct : distinctAll es) :
    (es.map FileTree.name).Nodup ∧ ∀ e ∈ es, e.distinct := by
  induction es with
  | nil => simp
  | cons first rest ih =>
    simp only [distinctAll,Bool.and_eq_true,Bool.not_eq_true'] at distinct
    obtain ⟨⟨apart,inner⟩,later⟩ := distinct
    obtain ⟨names,inners⟩ := ih later
    refine ⟨List.nodup_cons.mpr ⟨?_,names⟩,List.forall_mem_cons.mpr ⟨inner,inners⟩⟩
    simpa using apart

/-- An entry is found under its name, since no other one has it. -/
theorem distinct_entry (distinct : t.distinct) (entry : e ∈ t.entries) :
    t.child? e.name = some e ∧ e.distinct := by
  cases t with
  | file _ _ => cases entry
  | link _ _ => cases entry
  | directory _ es =>
    have all : distinctAll es := by simpa [FileTree.distinct] using distinct
    obtain ⟨names,inners⟩ := distinctAll_names all
    exact ⟨Sorted.find?_of_distinct names entry,inners e entry⟩

theorem distinct_at? {place : List String} (distinct : t.distinct) (found : t.at? place = some u) :
    u.distinct := by
  induction place generalizing t with
  | nil =>
    cases found
    exact distinct
  | cons name rest ih =>
    obtain ⟨child,entry,below⟩ := Option.bind_eq_some_iff.mp found
    exact ih (distinct_entry distinct (List.mem_of_find?_eq_some entry)).2 below

theorem at?_append (front back : List String) (t : FileTree) :
    t.at? (front ++ back) = (t.at? front).bind (at? back) := by
  induction front generalizing t with
  | nil => rfl
  | cons name rest ih =>
    simp only [List.cons_append,at?,Option.bind_assoc]
    exact congrArg _ (funext ih)

/-! ## Ways through directories -/

theorem Holds.at? (holds : t.Holds names u) (distinct : t.distinct) : t.at? names = some u := by
  induction holds with
  | here t => rfl
  | inside entry rest ih =>
    obtain ⟨child,inner⟩ := distinct_entry distinct entry
    rw [FileTree.at?, child]
    exact ih inner

theorem Holds.entry (holds : t.Holds names u) (entry : e ∈ u.entries) : t.Holds (names ++ [e.name]) e := by
  induction holds with
  | here t =>
    cases t with
    | file _ _ => cases entry
    | link _ _ => cases entry
    | directory _ _ => exact .inside entry (.here e)
  | inside first rest ih => exact .inside first (ih entry)

/-- What is held one name further is an entry of what is held there. -/
theorem Holds.mem_entries {name : String} (distinct : t.distinct) (holds : t.Holds names u)
    (further : t.Holds (names ++ [name]) e) : e ∈ u.entries ∧ e.name = name := by
  have found := further.at? distinct
  rw [at?_append, holds.at? distinct] at found
  have entry : u.child? name = some e := by simpa [FileTree.at?] using found
  exact ⟨List.mem_of_find?_eq_some entry,by simpa using List.find?_some entry⟩

def isLink : FileTree → Bool
  | link _ _ => true
  | _ => false

theorem isLink_of_isFile (file : t.isFile) : t.isLink = false := by
  cases t with
  | link _ _ => cases file
  | _ => rfl

theorem isLink_of_isDirectory (directory : t.isDirectory) : t.isLink = false := by
  cases t with
  | link _ _ => cases directory
  | _ => rfl

/-- Only the end of a way can be a link. -/
theorem Holds.isLink_eq_false (holds : t.Holds names u) (solid : u.isLink = false) : t.isLink = false := by
  cases holds with
  | here => exact solid
  | inside => rfl

theorem Holds.isDirectory (holds : t.Holds names u) (directory : u.isDirectory) : t.isDirectory := by
  cases holds with
  | here => exact directory
  | inside => rfl

end FileTree

/-! ## Lookups below a root -/

section Lookup

variable {fs : FileSystem} {root : Path} {d inner : FileTree} {names : List String}

theorem lookup_eq_ok_iff {p : Path} {t : FileTree} :
    fs.lookup p = .ok t ↔ ∃ place, fs.locate p = .ok place ∧ fs.root.at? place = some t := by
  unfold FileSystem.lookup
  cases fs.locate p with
  | error e => simp
  | ok place => cases found : fs.root.at? place <;> simp [found]

/-- The step to an entry that is no link. -/
theorem follow_entry {place : List String} {e : FileTree} (there : fs.root.at? place = some d)
    (child : d.child? e.name = some e) (solid : e.isLink = false) (depth : Nat) :
    follow fs.root depth place [.normal e.name] = .ok (place ++ [e.name]) := by
  obtain ⟨expand,follow⟩ := follow_eq_walk fs.root depth
  cases d with
  | file _ _ => cases child
  | link _ _ => cases child
  | directory _ _ =>
    rw [follow, walk, there]
    cases e with
    | link _ _ => cases solid
    | file _ _ => simp [child,walk]
    | directory _ _ => simp [child,walk]

/-- What is held below a root is found under the path of the root with the names on the way, unless it is
a link, which is followed. -/
theorem lookup_below (named : d.wellNamed) (distinct : d.distinct) (found : fs.lookup root = .ok d)
    (holds : d.Holds names inner) (solid : inner.isLink = false) :
    fs.lookup (root.below names) = .ok inner := by
  induction holds generalizing root with
  | here t => exact found
  | @inside name es e u rest entry further ih =>
    obtain ⟨place,located,there⟩ := lookup_eq_ok_iff.mp found
    obtain ⟨entryName,below⟩ := FileTree.wellNamed_entry named entry
    obtain ⟨child,apart⟩ := FileTree.distinct_entry distinct entry
    apply ih below apart _ solid
    apply lookup_eq_ok_iff.mpr
    refine ⟨place ++ [e.name],?_,?_⟩
    · rw [locate_join entryName located ⟨_,_,there⟩]
      exact follow_entry there child (further.isLink_eq_false solid) maxLinkDepth
    · rw [FileTree.at?_append, there]
      simp [FileTree.at?,child]

end Lookup

/-! ## Units of one directory -/

/-- A link in a directory that is taken for one of its units: its name has an allowed ending, and it leads
to a regular file. -/
def LinkedUnit (fs : FileSystem) (o : DiscoveryOptions) (directory : Path) (inner : FileTree) (p : Path) :
    Prop :=
  ∃ name target, .link name target ∈ inner.entries ∧ p = directory.join ⟨name⟩ ∧ o.allows p = true ∧
    ∃ file, fs.lookup p = .ok file ∧ file.isFile

def FiledUnit (o : DiscoveryOptions) (directory : Path) (inner : FileTree) (p : Path) : Prop :=
  ∃ e ∈ inner.entries, e.isFile ∧ p = directory.join ⟨e.name⟩ ∧ o.allows p = true

section Directory

variable {fs : FileSystem} {root : Path} {o : DiscoveryOptions} {d inner : FileTree} {names : List String}

theorem discoverGrouping_of_lookup {directory : Path} (tests : o.includeTests = true)
    (found : fs.lookup directory = .ok inner) (isDirectory : inner.isDirectory) :
    discoverGrouping fs directory o = .ok (.ofUnits directory
      ((inner.entries.map fun e => directory.join ⟨e.name⟩).filter fun p => fs.isFile p && o.allows p)) := by
  have usable : fs.checkRoot directory = .ok () := by
    simp [checkRoot,contains,FileSystem.isDirectory,found,isDirectory,Except.toOption]
  simp only [discoverGrouping,usable,found,tests,Except.toOption,Option.map_some,Option.getD_some,
    Bool.true_or,Bool.and_true]

theorem isFile_iff {p : Path} : fs.isFile p = true ↔ ∃ file, fs.lookup p = .ok file ∧ file.isFile := by
  unfold FileSystem.isFile
  cases fs.lookup p <;> simp [Except.toOption]

/-- The paths of the entries of one directory are told apart by the names of the entries. -/
theorem unambiguous_entries {directory : Path} {units : List Path}
    (all : ∀ u ∈ units, ∃ name, isEntryName name ∧ u = directory.join ⟨name⟩) :
    SourceTree.Unambiguous directory units := by
  apply unambiguous_below
  intro u member
  obtain ⟨name,named,rfl⟩ := all u member
  exact ⟨[],name,by simpa using named,rfl⟩

/-- A directory alone has the regular files in it as its units, and what its links lead to. -/
theorem exists_discoverGrouping (named : d.wellNamed) (distinct : d.distinct) (tests : o.includeTests = true)
    (found : fs.lookup root = .ok d) (holds : d.Holds names inner) (directory : inner.isDirectory) :
    ∃ alone, discoverGrouping fs (root.below names) o = .ok alone ∧ ∀ p, p ∈ alone.units ↔
      FiledUnit o (root.below names) inner p ∨ LinkedUnit fs o (root.below names) inner p := by
  have reached := lookup_below named distinct found holds (FileTree.isLink_of_isDirectory directory)
  have solid {e : FileTree} (entry : e ∈ inner.entries) (solid : e.isLink = false) :
      fs.lookup ((root.below names).join ⟨e.name⟩) = .ok e := by
    rw [← Path.below_concat]
    exact lookup_below named distinct found (holds.entry entry) solid
  refine ⟨_,discoverGrouping_of_lookup tests reached directory,?_⟩
  intro p
  rw [SourceTree.mem_ofUnits_iff]
  · simp only [List.mem_filter,List.mem_map,Bool.and_eq_true,isFile_iff]
    constructor
    · rintro ⟨⟨e,entry,rfl⟩,⟨file,leads,isFile⟩,allowed⟩
      cases e with
      | file name content => exact .inl ⟨_,entry,rfl,rfl,allowed⟩
      | link name target => exact .inr ⟨name,target,entry,rfl,allowed,file,leads,isFile⟩
      | directory name es =>
        cases (solid entry rfl).symm.trans leads
        cases isFile
    · rintro (⟨e,entry,isFile,rfl,allowed⟩ | ⟨name,target,entry,rfl,allowed,leads⟩)
      · have leads := solid entry (FileTree.isLink_of_isFile isFile)
        exact ⟨⟨e,entry,rfl⟩,⟨e,leads,isFile⟩,allowed⟩
      · exact ⟨⟨_,entry,rfl⟩,leads,allowed⟩
  · apply unambiguous_entries
    intro u member
    obtain ⟨e,entry,rfl⟩ := List.mem_map.mp (List.mem_filter.mp member).1
    refine ⟨e.name,?_,rfl⟩
    apply (holds.entry entry).wellNamed named
    simp

/-- On the way through a tree a directory has the regular files in it as its units, and nothing else. -/
theorem Discovered.mem_unitsIn_iff {tree : SourceTree} (discovered : Discovered root o d tree)
    (named : d.wellNamed) (distinct : d.distinct) (tests : o.includeTests = true)
    (holds : d.Holds names inner) {p : Path} :
    p ∈ tree.unitsIn (root.below names) ↔ FiledUnit o (root.below names) inner p := by
  have admits {name : String} (entryNames : ∀ n ∈ names ++ [name], isEntryName n) :
      o.Admits (names ++ [name]) ↔ o.allows (root.below (names ++ [name])) = true := by
    rw [← selects_below_iff root entryNames, DiscoveryOptions.selects, tests]
    simp
  rw [discovered.unitsIn]
  constructor
  · rintro ⟨others,name,same,rfl,⟨file,further,isFile⟩,admitted⟩
    have entryNames := further.wellNamed named
    obtain rfl : names = others := by
      apply Path.below_inj (holds.wellNamed named) _ (Path.compare_eq_iff.mp same)
      exact fun n member => entryNames n (List.mem_append_left _ member)
    obtain ⟨entry,rfl⟩ := FileTree.Holds.mem_entries distinct holds further
    have allowed := (admits entryNames).mp admitted
    rw [Path.below_concat] at allowed ⊢
    exact ⟨file,entry,isFile,rfl,allowed⟩
  · rintro ⟨file,entry,isFile,rfl,allowed⟩
    have further := holds.entry entry
    refine ⟨names,file.name,Std.ReflOrd.compare_self,(Path.below_concat ..).symm,⟨file,further,isFile⟩,?_⟩
    apply (admits (further.wellNamed named)).mpr
    rwa [Path.below_concat]

/-- A name belongs to a file or to a link, not to both. -/
theorem FiledUnit.not_linked {directory p : Path} (filed : FiledUnit o directory inner p)
    (named : inner.wellNamed) (distinct : inner.distinct) : ¬LinkedUnit fs o directory inner p := by
  rintro ⟨name,target,link,rfl,-,-⟩
  obtain ⟨e,entry,isFile,same,-⟩ := filed
  have names : name = e.name := by
    have first := Path.fileName?_join directory (FileTree.wellNamed_entry named link).1
    have second := Path.fileName?_join directory (FileTree.wellNamed_entry named entry).1
    rw [← same] at second
    exact Option.some.inj (first.symm.trans second)
  have found := (FileTree.distinct_entry distinct entry).1
  rw [← names] at found
  cases (FileTree.distinct_entry distinct link).1.symm.trans found
  cases isFile

theorem SourceTree.Ordered.units_strict {tree : SourceTree} (ordered : tree.Ordered)
    (single : tree.groupings = [] ∨ ∃ directory us, tree.groupings = [(directory,us)]) :
    Sorted.Strict tree.units := by
  rcases single with none | ⟨directory,us,one⟩
  · rw [SourceTree.units, none]
    exact .nil
  · have strict := ordered.units (directory,us) (by simp [one])
    simpa [SourceTree.units,one] using strict

end Directory

/-- A directory that is walked through has the regular files in it as its units. Looked for alone it has
these and, besides, the links in it that lead to regular files, so the two agree exactly where there are no
such links. -/
theorem directory_units_agree (fs : FileSystem) (root : Path) (o : DiscoveryOptions)
    (named : fs.root.wellNamed) (distinct : fs.root.distinct) (tests : o.includeTests = true)
    (d inner : FileTree) (names : List String) (found : fs.lookup root = .ok d)
    (walked : d.Holds names inner) (directory : inner.isDirectory) :
    ∃ tree alone, discover fs root o = .ok tree ∧ discoverGrouping fs (root.below names) o = .ok alone ∧
      (∀ p, p ∈ tree.unitsIn (root.below names) ↔ FiledUnit o (root.below names) inner p) ∧
      (∀ p, p ∈ alone.units ↔
        p ∈ tree.unitsIn (root.below names) ∨ LinkedUnit fs o (root.below names) inner p) ∧
      (∀ p ∈ tree.unitsIn (root.below names), ¬LinkedUnit fs o (root.below names) inner p) ∧
      (alone.units = tree.unitsIn (root.below names) ↔
        ∀ p, ¬LinkedUnit fs o (root.below names) inner p) := by
  obtain ⟨place,-,there⟩ := lookup_eq_ok_iff.mp found
  have named' := lookup_wellNamed named found
  have distinct' := FileTree.distinct_at? distinct there
  have top := walked.isDirectory directory
  have discovered := ofUnits_discovered named' top root o
  have onWay (p : Path) := discovered.mem_unitsIn_iff named' distinct' tests walked (p := p)
  obtain ⟨alone,asked,units⟩ := exists_discoverGrouping named' distinct' tests found walked directory
  have apart (p : Path) (filed : FiledUnit o (root.below names) inner p) :
      ¬LinkedUnit fs o (root.below names) inner p := by
    have within := walked.at? distinct'
    exact filed.not_linked (FileTree.wellNamed_at? named' within) (FileTree.distinct_at? distinct' within)
  refine ⟨_,alone,discover_of_lookup found top,asked,onWay,?_,?_,?_⟩
  · intro p
    rw [units, onWay]
  · intro p member
    exact apart p ((onWay p).mp member)
  · constructor
    · intro same p linked
      have filed := (onWay p).mp (same ▸ (units p).mpr (.inr linked))
      exact apart p filed linked
    · intro none
      apply Sorted.Strict.eq_of_mem_iff
      · exact (discoverGrouping_ordered asked).units_strict (groupings_discoverGrouping named asked)
      · exact SourceTree.unitsIn_strict (SourceTree.ofUnits_ordered ..) _
      · intro p
        rw [units, onWay]
        simp [none p]

def linkedFiles : FileSystem :=
  ⟨.directory "" [.directory "proj" [.file "A.java" [],.link "L.java" ⟨"A.java"⟩,
    .directory "sub" [.file "B.java" [],.link "up.txt" ⟨"../A.java"⟩]]],[]⟩

/-- The link is a unit of the directory alone, and none on the way through the tree. -/
theorem linked_unit_passed_by : ∃ tree alone,
    discover linkedFiles ⟨"proj"⟩ ⟨["java"],true⟩ = .ok tree ∧
    discoverGrouping linkedFiles ⟨"proj"⟩ ⟨["java"],true⟩ = .ok alone ∧
    tree.unitsIn ⟨"proj"⟩ = [⟨"proj/A.java"⟩] ∧
    alone.units = [⟨"proj/A.java"⟩,⟨"proj/L.java"⟩] :=
  ⟨_,_,rfl,rfl,rfl,rfl⟩

theorem directory_units_agree_below :
    linkedFiles.root.wellNamed ∧ linkedFiles.root.distinct ∧
    ∃ tree alone, discover linkedFiles ⟨"proj"⟩ ⟨["java"],true⟩ = .ok tree ∧
      discoverGrouping linkedFiles ⟨"proj/sub"⟩ ⟨["java"],true⟩ = .ok alone ∧
      alone.units = [⟨"proj/sub/B.java"⟩] ∧
      ∀ p, p ∈ tree.unitsIn ⟨"proj/sub"⟩ ↔ p = ⟨"proj/sub/B.java"⟩ := by
  have named : linkedFiles.root.wellNamed := by decide
  have distinct : linkedFiles.root.distinct := by decide
  have inside : FileTree.directory "sub" [.file "B.java" [],.link "up.txt" ⟨"../A.java"⟩] ∈
      [.file "A.java" [],.link "L.java" ⟨"A.java"⟩,
        .directory "sub" [.file "B.java" [],.link "up.txt" ⟨"../A.java"⟩]] := by simp
  obtain ⟨tree,alone,walked,asked,onWay,-,-,agree⟩ := directory_units_agree linkedFiles ⟨"proj"⟩ ⟨["java"],true⟩
    named distinct rfl _ _ ["sub"] rfl (.inside inside (.here _)) rfl
  have units : alone.units = [⟨"proj/sub/B.java"⟩] := by
    have evaluated : (discoverGrouping linkedFiles (Path.below ⟨"proj"⟩ ["sub"])
      ⟨["java"],true⟩).toOption.map SourceTree.units = some [⟨"proj/sub/B.java"⟩] := by decide +kernel
    rw [asked] at evaluated
    exact Option.some.inj evaluated
  have same : alone.units = tree.unitsIn ⟨"proj/sub"⟩ := by
    apply agree.mpr
    rintro p ⟨name,target,entry,rfl,allowed,-⟩
    obtain ⟨rfl,rfl⟩ : name = "up.txt" ∧ target = ⟨"../A.java"⟩ := by simpa [FileTree.entries] using entry
    revert allowed
    decide
  refine ⟨named,distinct,tree,alone,walked,asked,units,?_⟩
  intro p
  rw [← same, units, List.mem_singleton]

end Coupling
