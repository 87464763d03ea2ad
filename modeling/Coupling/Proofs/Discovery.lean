import Coupling.Proofs.FileSystem
import Coupling.Proofs.SourceIndex
import Coupling.Proofs.SourceTree

/-! The units of a directory are decided by the place that its path leads to, and their spelling alone by
the path. So the siblings of a unit are known under the same names, whichever of its spellings they are
looked for under. -/
namespace Coupling

open FileSystem

/-! ## Entries -/

def isUnitAt (fs : FileSystem) (o : DiscoveryOptions) (place : List String) (name : String) : Bool :=
  (match follow fs.root maxLinkDepth place [.normal name] with
    | .error _ => false
    | .ok target => (fs.root.at? target).any FileTree.isFile) &&
  o.allows ⟨name⟩ && (o.includeTests || !isTestSource name)

def unitNamesAt (fs : FileSystem) (o : DiscoveryOptions) (place : List String) : List String :=
  ((((fs.root.at? place).map FileTree.entries).getD []).map FileTree.name).filter (isUnitAt fs o place)

def entryPaths (directory : Path) (names : List String) : List Path :=
  names.map fun name => directory.join ⟨name⟩

variable {fs : FileSystem} {o : DiscoveryOptions} {place : List String} {directory : Path}

theorem isEntryName_of_entry (named : fs.root.wellNamed) {e : FileTree}
    (entry : e ∈ ((fs.root.at? place).map FileTree.entries).getD []) : isEntryName e.name := by
  cases found : fs.root.at? place with
  | none => simp [found] at entry
  | some t =>
    rw [found] at entry
    exact (FileTree.wellNamed_entry (FileTree.wellNamed_at? named found) entry).1

theorem isEntryName_of_mem_unitNamesAt (named : fs.root.wellNamed) {name : String}
    (member : name ∈ unitNamesAt fs o place) : isEntryName name := by
  obtain ⟨e,entry,rfl⟩ := List.mem_map.mp (List.mem_filter.mp member).1
  exact isEntryName_of_entry named entry

theorem allows_congr (o : DiscoveryOptions) {p q : Path} (file : q.fileName? = p.fileName?) :
    o.allows q = o.allows p := by
  simp only [DiscoveryOptions.allows,Path.extension?,file]

theorem fileName?_of_isEntryName {name : String} (named : isEntryName name) :
    Path.fileName? ⟨name⟩ = some name := by
  have alone : Path.join ⟨""⟩ ⟨name⟩ = ⟨name⟩ := by
    unfold Path.join
    split <;> simp
  rw [← alone]
  exact Path.fileName?_join ⟨""⟩ named

theorem isFile_join {name : String} (named : isEntryName name) (located : fs.locate directory = .ok place)
    (there : DirectoryAt fs.root place) : fs.isFile (directory.join ⟨name⟩) =
      match follow fs.root maxLinkDepth place [.normal name] with
      | .error _ => false
      | .ok target => (fs.root.at? target).any FileTree.isFile := by
  rw [isFile, lookup, locate_join named located there]
  cases follow fs.root maxLinkDepth place [.normal name] with
  | error e => rfl
  | ok target =>
    dsimp only
    cases fs.root.at? target <;> rfl

theorem checkRoot_eq_ok_iff {root : Path} :
    fs.checkRoot root = .ok () ↔ ∃ place, fs.locate root = .ok place ∧ DirectoryAt fs.root place := by
  unfold checkRoot contains isDirectory lookup
  cases fs.locate root with
  | error e => simp [Except.toOption]
  | ok place =>
    cases found : fs.root.at? place with
    | none => simp [DirectoryAt,found,Except.toOption]
    | some t => cases t <;> simp [DirectoryAt,found,FileTree.isDirectory,Except.toOption]

theorem discoverGrouping_of_located (named : fs.root.wellNamed)
    (located : fs.locate directory = .ok place) (there : DirectoryAt fs.root place) :
    discoverGrouping fs directory o =
      .ok (.ofUnits directory (entryPaths directory (unitNamesAt fs o place))) := by
  have entries : (fs.lookup directory).toOption.map FileTree.entries =
      (fs.root.at? place).map FileTree.entries := by
    rw [lookup, located]
    cases found : fs.root.at? place <;> simp [found,Except.toOption]
  have usable := checkRoot_eq_ok_iff.mpr ⟨place,located,there⟩
  simp only [discoverGrouping,usable,entries]
  refine congrArg (fun paths => Except.ok (SourceTree.ofUnits directory paths)) ?_
  rw [entryPaths, unitNamesAt, List.filter_map, List.filter_map, List.map_map]
  refine congrArg (List.map _) (List.filter_congr ?_)
  intro e entry
  have name : isEntryName e.name := isEntryName_of_entry named entry
  simp only [Function.comp_apply,isUnitAt,isFile_join name located there,
    allows_congr o ((Path.fileName?_join directory name).trans (fileName?_of_isEntryName name).symm),
    Path.fileName?_join directory name,Option.getD_some]

/-- What a directory was found to be: the units at the place that its path leads to. -/
theorem discoverGrouping_eq_ok (named : fs.root.wellNamed) {tree : SourceTree}
    (found : discoverGrouping fs directory o = .ok tree) :
    ∃ place, fs.locate directory = .ok place ∧ DirectoryAt fs.root place ∧
      tree = .ofUnits directory (entryPaths directory (unitNamesAt fs o place)) := by
  have usable : fs.checkRoot directory = .ok () := by
    unfold discoverGrouping at found
    split at found
    · cases found
    · assumption
  obtain ⟨place,located,there⟩ := checkRoot_eq_ok_iff.mp usable
  cases found.symm.trans (discoverGrouping_of_located named located there)
  exact ⟨place,located,there,rfl⟩

/-- The units of a directory are found in one grouping, if there are any. -/
theorem groupings_discoverGrouping (named : fs.root.wellNamed) {tree : SourceTree}
    (found : discoverGrouping fs directory o = .ok tree) :
    tree.groupings = [] ∨ ∃ d us, tree.groupings = [(d,us)] := by
  obtain ⟨place,-,-,rfl⟩ := discoverGrouping_eq_ok named found
  obtain ⟨d,-,parents⟩ := directory.parent?_join
  have inside : ∀ unit ∈ entryPaths directory (unitNamesAt fs o place), unit.parent? = some d := by
    intro unit member
    obtain ⟨name,inside,rfl⟩ := List.mem_map.mp member
    exact parents name (isEntryName_of_mem_unitNamesAt named inside)
  exact (SourceTree.groupings_ofUnits directory inside).imp_right fun ⟨us,groupings⟩ => ⟨d,us,groupings⟩

/-! ## Spellings of a unit -/

theorem text_unitDirectory_ne (p : Path) : (unitDirectory p).text ≠ "" := by
  unfold unitDirectory
  split
  · split
    · simp
    · simp_all
  · simp

/-- The directory of a unit has its route but the end, also if that is a bare name. -/
theorem route_unitDirectory (p : Path) : (unitDirectory p).route = p.route.dropLast := by
  unfold unitDirectory
  split
  · rename_i d up
    rw [← Path.route_parent? up]
    split
    · rename_i empty
      cases d
      cases String.isEmpty_iff.mp empty
      rfl
    · rfl
  · rename_i top
    rw [Path.route_of_parent?_eq_none top]
    rfl

theorem names_unitDirectory {p : Path} {name : String} (file : p.fileName? = some name) :
    p.names = (unitDirectory p).names ++ [name] :=
  Path.names_of_above (route_unitDirectory p) file

/-- Paths of the same entry of the same directory, in which the same names are written. -/
structure Respells (fs : FileSystem) (p q : Path) : Prop where
  file : q.fileName? = p.fileName?
  names : q.names = p.names
  place : fs.locate (unitDirectory q) = fs.locate (unitDirectory p)

namespace Respells

variable {p q : Path}

theorem refl (fs : FileSystem) (p : Path) : Respells fs p p := ⟨rfl,rfl,rfl⟩

/-- What is written between the names of a route does not count, as long as the directory is there. -/
theorem of_route {name : String} (file : p.fileName? = some name)
    (located : fs.locate (unitDirectory p) = .ok place) (there : DirectoryAt fs.root place)
    (route : q.route = p.route) : Respells fs p q where
  file := by
    rw [file, Path.fileName?_eq_some_iff, route]
    exact Path.fileName?_eq_some_iff.mp file
  names := by rw [Path.names_eq, Path.names_eq, route]
  place := by
    have above : (unitDirectory q).route = (unitDirectory p).route := by
      rw [route_unitDirectory, route_unitDirectory, route]
    rw [located]
    exact locate_of_route (text_unitDirectory_ne q) above located there

end Respells

/-- A unit that was found in a directory has that directory as its own. -/
theorem locate_unitDirectory_join {name : String} (named : isEntryName name)
    (located : fs.locate directory = .ok place) (there : DirectoryAt fs.root place) :
    fs.locate (unitDirectory (directory.join ⟨name⟩)) = .ok place := by
  have above : (unitDirectory (directory.join ⟨name⟩)).route = directory.route := by
    rw [route_unitDirectory, Path.route_join directory named, List.dropLast_concat]
  exact locate_of_route (text_unitDirectory_ne _) above located there

/-! ## Names of siblings -/

theorem namesOf_of_compare {p q : Path} (equal : compare p q = .eq) :
    SourceIndex.namesOf q = SourceIndex.namesOf p := by
  have same := Path.compare_eq_iff.mp equal
  exact SourceIndex.namesOf_congr (by rw [Path.fileName?, Path.fileName?, same])
    (by rw [Path.names, Path.names, same])

/-- The index of a tree knows the names of the units that the tree is made of. -/
theorem known_ofUnits (root : Path) (units : List Path) (known : String) :
    (∃ u ∈ (SourceTree.ofUnits root units).units, known ∈ SourceIndex.namesOf u) ↔
      ∃ u ∈ units, known ∈ SourceIndex.namesOf u := by
  constructor
  · rintro ⟨u,member,name⟩
    exact ⟨u,SourceTree.mem_of_mem_ofUnits member,name⟩
  · rintro ⟨unit,member,name⟩
    obtain ⟨u,inside,equal⟩ := SourceTree.exists_equal_ofUnits root member
    exact ⟨u,inside,namesOf_of_compare equal ▸ name⟩

theorem known_add {tree : SourceTree} (ordered : tree.Ordered) (unit : Path) (known : String) :
    (∃ u ∈ (tree.add unit).units, known ∈ SourceIndex.namesOf u) ↔
      known ∈ SourceIndex.namesOf unit ∨ ∃ u ∈ tree.units, known ∈ SourceIndex.namesOf u := by
  constructor
  · rintro ⟨u,member,name⟩
    rcases SourceTree.mem_of_mem_units_add ordered member with rfl | old
    · exact .inl name
    · exact .inr ⟨u,old,name⟩
  · rintro (name | ⟨u,member,name⟩)
    · obtain ⟨u,inside,equal⟩ := SourceTree.exists_equal_units_add ordered unit
      exact ⟨u,inside,namesOf_of_compare equal ▸ name⟩
    · exact ⟨u,SourceTree.mem_units_add_of_mem ordered unit member,name⟩

theorem known_entryPaths {directory' : Path} {names : List String}
    (named : ∀ name ∈ names, isEntryName name) (above : directory'.names = directory.names)
    (known : String) :
    (∃ u ∈ entryPaths directory' names, known ∈ SourceIndex.namesOf u) ↔
      ∃ u ∈ entryPaths directory names, known ∈ SourceIndex.namesOf u := by
  have same (name : String) (member : name ∈ names) : SourceIndex.namesOf (directory'.join ⟨name⟩) =
      SourceIndex.namesOf (directory.join ⟨name⟩) := by
    have entry := named name member
    refine SourceIndex.namesOf_congr ?_ ?_
    · rw [Path.fileName?_join directory entry, Path.fileName?_join directory' entry]
    · rw [Path.names_join directory entry, Path.names_join directory' entry, above]
  simp only [entryPaths,List.mem_map]
  constructor
  · rintro ⟨_,⟨name,member,rfl⟩,knows⟩
    rw [same name member] at knows
    exact ⟨_,⟨name,member,rfl⟩,knows⟩
  · rintro ⟨_,⟨name,member,rfl⟩,knows⟩
    rw [← same name member] at knows
    exact ⟨_,⟨name,member,rfl⟩,knows⟩

/-- A unit that is looked for alone is found in the index among the same names as in its directory,
however it is spelled. -/
theorem siblings_index (named : fs.root.wellNamed) {tree : SourceTree} {p q : Path}
    (found : discoverGrouping fs directory o = .ok tree) (member : p ∈ tree.units)
    (respells : Respells fs p q) :
    ∃ siblings, discoverGrouping fs (unitDirectory q) o = .ok siblings ∧
      SourceIndex.ofPaths (siblings.add q).units = SourceIndex.ofPaths tree.units := by
  obtain ⟨place,located,there,rfl⟩ := discoverGrouping_eq_ok named found
  obtain ⟨name,inside,rfl⟩ := List.mem_map.mp (SourceTree.mem_of_mem_ofUnits member)
  have names : ∀ name ∈ unitNamesAt fs o place, isEntryName name :=
    fun _ inside => isEntryName_of_mem_unitNamesAt named inside
  have entry := names name inside
  have file := Path.fileName?_join directory entry
  have located' := respells.place.trans (locate_unitDirectory_join entry located there)
  have above : (unitDirectory q).names = directory.names := by
    have whole := respells.names
    rw [names_unitDirectory (respells.file.trans file), Path.names_join directory entry] at whole
    exact List.append_cancel_right whole
  refine ⟨_,discoverGrouping_of_located named located' there,SourceIndex.ofPaths_eq ?_⟩
  intro known
  rw [known_add (SourceTree.ofUnits_ordered _ _), known_ofUnits, known_ofUnits,
    known_entryPaths names above, SourceIndex.namesOf_congr respells.file respells.names]
  refine or_iff_right_of_imp ?_
  exact fun knows => ⟨_,List.mem_map_of_mem inside,knows⟩

end Coupling
