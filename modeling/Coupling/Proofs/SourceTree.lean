import Coupling.Analysis
import Coupling.Proofs.Order
import Coupling.Proofs.Sorted

/-! The units of a tree as the jobs of a run. -/
namespace Coupling

namespace SourceTree

structure Ordered (t : SourceTree) : Prop where
  directories : Sorted.Strict t.directories
  units : ∀ g ∈ t.groupings, Sorted.Strict g.2

theorem unitsIn_strict {t : SourceTree} (ordered : t.Ordered) (directory : Path) :
    Sorted.Strict (t.unitsIn directory) := by
  unfold unitsIn
  cases found : Sorted.find? directory t.groupings with
  | none => exact .nil
  | some units =>
    obtain ⟨key,member⟩ := Sorted.mem_of_find? found
    exact ordered.units _ member

theorem add_ordered {t : SourceTree} (ordered : t.Ordered) (unit : Path) : (t.add unit).Ordered where
  directories := by
    simp only [directories,add,Sorted.keys_insert]
    exact Sorted.add_strict ordered.directories
  units g member := by
    rcases Sorted.mem_of_mem_insert member with ⟨-,equal⟩ | old
    · rw [equal]
      exact Sorted.add_strict (unitsIn_strict ordered _)
    · exact ordered.units g old

theorem empty_ordered (root : Path) : (empty root).Ordered := ⟨.nil,by simp [empty]⟩

theorem ofUnits_ordered (root : Path) (units : List Path) : (ofUnits root units).Ordered := by
  have fold : ∀ (units : List Path) (t : SourceTree), t.Ordered → (units.foldl add t).Ordered := by
    intro units
    induction units with
    | nil => exact fun _ ordered => ordered
    | cons unit rest ih => exact fun t ordered => ih _ (add_ordered ordered unit)
  exact fold units _ (empty_ordered root)

/-! ## Units -/

theorem mem_units_iff {t : SourceTree} (ordered : t.Ordered) {unit : Path} :
    unit ∈ t.units ↔ ∃ directory, unit ∈ t.unitsIn directory := by
  simp only [units,List.mem_flatMap]
  constructor
  · rintro ⟨⟨directory,units⟩,entry,member⟩
    refine ⟨directory,?_⟩
    rw [unitsIn, Sorted.find?_of_mem ordered.directories entry]
    exact member
  · rintro ⟨directory,member⟩
    cases found : Sorted.find? directory t.groupings with
    | none => simp [unitsIn,found] at member
    | some units =>
      obtain ⟨key,entry⟩ := Sorted.mem_of_find? found
      exact ⟨_,entry,by simpa [unitsIn,found] using member⟩

theorem unitsIn_add (t : SourceTree) (unit directory : Path) :
    (t.add unit).unitsIn directory =
      if compare directory (unit.parent?.getD t.root) = .eq then Sorted.add unit (t.unitsIn directory)
      else t.unitsIn directory := by
  simp only [unitsIn,add,Sorted.find?_insert]
  split
  · rename_i equal
    rw [Sorted.find?_congr equal]
    rfl
  · rfl

theorem mem_of_mem_units_add {t : SourceTree} (ordered : t.Ordered) {unit u : Path}
    (member : u ∈ (t.add unit).units) : u = unit ∨ u ∈ t.units := by
  obtain ⟨directory,inside⟩ := (mem_units_iff (add_ordered ordered unit)).mp member
  rw [unitsIn_add] at inside
  split at inside
  · exact (Sorted.mem_of_mem_add inside).imp_right fun old => (mem_units_iff ordered).mpr ⟨_,old⟩
  · exact .inr ((mem_units_iff ordered).mpr ⟨_,inside⟩)

theorem mem_units_add_of_mem {t : SourceTree} (ordered : t.Ordered) (unit : Path) {u : Path}
    (member : u ∈ t.units) : u ∈ (t.add unit).units := by
  obtain ⟨directory,inside⟩ := (mem_units_iff ordered).mp member
  refine (mem_units_iff (add_ordered ordered unit)).mpr ⟨directory,?_⟩
  rw [unitsIn_add]
  split
  · exact Sorted.mem_add_of_mem inside
  · exact inside

/-- A unit that is added is there, though perhaps as an equal path that came before. -/
theorem exists_equal_units_add {t : SourceTree} (ordered : t.Ordered) (unit : Path) :
    ∃ u ∈ (t.add unit).units, compare unit u = .eq := by
  obtain ⟨u,member,equal⟩ := Sorted.exists_equal_add unit (t.unitsIn (unit.parent?.getD t.root))
  refine ⟨u,(mem_units_iff (add_ordered ordered unit)).mpr ⟨unit.parent?.getD t.root,?_⟩,equal⟩
  rwa [unitsIn_add, if_pos Std.ReflOrd.compare_self]

theorem root_ofUnits (root : Path) (units : List Path) : (ofUnits root units).root = root := by
  have fold : ∀ (units : List Path) (t : SourceTree), (units.foldl add t).root = t.root := by
    intro units
    induction units with
    | nil => exact fun _ => rfl
    | cons unit rest ih => exact fun t => ih (t.add unit)
  exact fold units (empty root)

theorem ofUnits_induction {root : Path} {motive : List Path → SourceTree → Prop}
    (none : motive [] (empty root))
    (more : ∀ units t unit, t.Ordered → t.root = root → motive units t →
      motive (units ++ [unit]) (t.add unit))
    (units : List Path) : motive units (ofUnits root units) := by
  have fold : ∀ (later earlier : List Path) (t : SourceTree), t.Ordered → t.root = root →
      motive earlier t → motive (earlier ++ later) (later.foldl add t) := by
    intro later
    induction later with
    | nil => simp
    | cons unit rest ih =>
      intro earlier t ordered rooted holds
      simpa using ih _ _ (add_ordered ordered unit) rooted (more earlier t unit ordered rooted holds)
  exact fold units [] _ (empty_ordered root) rfl none

theorem mem_of_mem_ofUnits {root : Path} {units : List Path} {u : Path}
    (member : u ∈ (ofUnits root units).units) : u ∈ units := by
  refine ofUnits_induction (motive := fun units t => u ∈ t.units → u ∈ units) (by simp [empty,SourceTree.units])
    ?_ units member
  intro units t unit ordered _ ih member
  rcases mem_of_mem_units_add ordered member with rfl | old
  · simp
  · exact List.mem_append_left _ (ih old)

/-- A tree has the units that it is made of, as far as the order of paths tells. -/
theorem exists_equal_ofUnits (root : Path) {units : List Path} {unit : Path} (member : unit ∈ units) :
    ∃ u ∈ (ofUnits root units).units, compare unit u = .eq := by
  refine ofUnits_induction (motive := fun units t => unit ∈ units → ∃ u ∈ t.units, compare unit u = .eq)
    (by simp) ?_ units member
  intro units t new ordered _ ih member
  rcases List.mem_append.mp member with old | last
  · obtain ⟨u,inside,equal⟩ := ih old
    exact ⟨u,mem_units_add_of_mem ordered new inside,equal⟩
  · cases List.mem_singleton.mp last
    exact exists_equal_units_add ordered unit

/-- The units of a directory are those in it that the tree is made of. -/
theorem mem_of_mem_unitsIn_ofUnits {root : Path} {units : List Path} {directory u : Path}
    (member : u ∈ (ofUnits root units).unitsIn directory) :
    u ∈ units ∧ compare directory (u.parent?.getD root) = .eq := by
  refine ofUnits_induction (motive := fun units t => u ∈ t.unitsIn directory →
    u ∈ units ∧ compare directory (u.parent?.getD root) = .eq) (by simp [empty,unitsIn,Sorted.find?])
    ?_ units member
  intro units t unit _ rooted ih member
  rw [unitsIn_add, rooted] at member
  split at member
  · rename_i inside
    rcases Sorted.mem_of_mem_add member with rfl | old
    · exact ⟨by simp,inside⟩
    · exact (ih old).imp_left (List.mem_append_left _)
  · exact (ih member).imp_left (List.mem_append_left _)

/-- A directory has the units in it that the tree is made of, as far as the order of paths tells. -/
theorem exists_equal_unitsIn_ofUnits {root : Path} {units : List Path} {directory unit : Path}
    (member : unit ∈ units) (inside : compare directory (unit.parent?.getD root) = .eq) :
    ∃ u ∈ (ofUnits root units).unitsIn directory, compare unit u = .eq := by
  refine ofUnits_induction (motive := fun units t => unit ∈ units →
    ∃ u ∈ t.unitsIn directory, compare unit u = .eq) (by simp) ?_ units member
  intro units t new _ rooted ih member
  rw [unitsIn_add, rooted]
  rcases List.mem_append.mp member with old | last
  · obtain ⟨u,there,equal⟩ := ih old
    refine ⟨u,?_,equal⟩
    split
    · exact Sorted.mem_add_of_mem there
    · exact there
  · cases List.mem_singleton.mp last
    rw [if_pos inside]
    exact Sorted.exists_equal_add unit _

theorem directories_add (t : SourceTree) (unit : Path) :
    (t.add unit).directories = Sorted.add (unit.parent?.getD t.root) t.directories := by
  rw [directories, add, Sorted.keys_insert]
  rfl

theorem mem_of_mem_directories_ofUnits {root : Path} {units : List Path} {directory : Path}
    (member : directory ∈ (ofUnits root units).directories) :
    ∃ unit ∈ units, unit.parent?.getD root = directory := by
  refine ofUnits_induction (motive := fun units t => directory ∈ t.directories →
    ∃ unit ∈ units, unit.parent?.getD root = directory) (by simp [empty,directories]) ?_ units member
  intro units t unit _ rooted ih member
  rw [directories_add, rooted] at member
  rcases Sorted.mem_of_mem_add member with rfl | old
  · exact ⟨unit,by simp,rfl⟩
  · obtain ⟨u,there,parent⟩ := ih old
    exact ⟨u,List.mem_append_left _ there,parent⟩

theorem exists_equal_directories_ofUnits (root : Path) {units : List Path} {unit : Path}
    (member : unit ∈ units) :
    ∃ directory ∈ (ofUnits root units).directories, compare (unit.parent?.getD root) directory = .eq := by
  refine ofUnits_induction (motive := fun units t => unit ∈ units →
    ∃ directory ∈ t.directories, compare (unit.parent?.getD root) directory = .eq) (by simp) ?_ units member
  intro units t new _ rooted ih member
  rw [directories_add, rooted]
  rcases List.mem_append.mp member with old | last
  · obtain ⟨directory,there,equal⟩ := ih old
    exact ⟨directory,Sorted.mem_add_of_mem there,equal⟩
  · cases List.mem_singleton.mp last
    exact Sorted.exists_equal_add _ _

/-- An ordered tree is told by its directories and the units in each. -/
theorem groupings_eq {t : SourceTree} (ordered : t.Ordered) :
    t.groupings = t.directories.map fun directory => (directory,t.unitsIn directory) := by
  rw [directories, List.map_map]
  refine (List.map_id _).symm.trans (List.map_congr_left ?_)
  intro (directory,units) entry
  simp only [id_eq,Function.comp_apply,unitsIn,Sorted.find?_of_mem ordered.directories entry,Option.getD_some]

/-- Units such that of two that are equal as paths, or whose directories are, the texts are equal too. -/
structure Unambiguous (root : Path) (units : List Path) : Prop where
  texts : ∀ u ∈ units, ∀ v ∈ units, compare u v = .eq → u = v
  parents : ∀ u ∈ units, ∀ v ∈ units,
    compare (u.parent?.getD root) (v.parent?.getD root) = .eq → u.parent?.getD root = v.parent?.getD root

section Unambiguous

variable {root : Path} {units : List Path}

theorem mem_ofUnits_iff (unambiguous : Unambiguous root units) {u : Path} :
    u ∈ (ofUnits root units).units ↔ u ∈ units := by
  refine ⟨mem_of_mem_ofUnits,fun member => ?_⟩
  obtain ⟨v,inside,equal⟩ := exists_equal_ofUnits root member
  rwa [unambiguous.texts u member v (mem_of_mem_ofUnits inside) equal]

theorem mem_unitsIn_ofUnits_iff (unambiguous : Unambiguous root units) {u directory : Path} :
    u ∈ (ofUnits root units).unitsIn directory ↔
      u ∈ units ∧ compare directory (u.parent?.getD root) = .eq := by
  refine ⟨mem_of_mem_unitsIn_ofUnits,fun ⟨member,inside⟩ => ?_⟩
  obtain ⟨v,there,equal⟩ := exists_equal_unitsIn_ofUnits member inside
  rwa [unambiguous.texts u member v (mem_of_mem_unitsIn_ofUnits there).1 equal]

theorem mem_directories_ofUnits_iff (unambiguous : Unambiguous root units) {directory : Path} :
    directory ∈ (ofUnits root units).directories ↔ ∃ u ∈ units, u.parent?.getD root = directory := by
  refine ⟨mem_of_mem_directories_ofUnits,?_⟩
  rintro ⟨u,member,rfl⟩
  obtain ⟨directory,there,equal⟩ := exists_equal_directories_ofUnits root member
  obtain ⟨v,other,rfl⟩ := mem_of_mem_directories_ofUnits there
  rwa [unambiguous.parents u member v other equal]

/-- A tree does not depend on the order of the units that it is made of. -/
theorem ofUnits_congr {others : List Path} (unambiguous : Unambiguous root units)
    (same : ∀ u, u ∈ others ↔ u ∈ units) : ofUnits root others = ofUnits root units := by
  have unambiguous' : Unambiguous root others := by
    constructor
    · exact fun u first v second => unambiguous.texts u ((same u).mp first) v ((same v).mp second)
    · exact fun u first v second => unambiguous.parents u ((same u).mp first) v ((same v).mp second)
  have ordered := ofUnits_ordered root units
  have ordered' := ofUnits_ordered root others
  have directories : (ofUnits root others).directories = (ofUnits root units).directories := by
    apply ordered'.directories.eq_of_mem_iff ordered.directories
    intro directory
    simp only [mem_directories_ofUnits_iff unambiguous,mem_directories_ofUnits_iff unambiguous',same]
  have unitsIn (directory : Path) :
      (ofUnits root others).unitsIn directory = (ofUnits root units).unitsIn directory := by
    apply (unitsIn_strict ordered' directory).eq_of_mem_iff (unitsIn_strict ordered directory)
    intro u
    simp only [mem_unitsIn_ofUnits_iff unambiguous,mem_unitsIn_ofUnits_iff unambiguous',same]
  have groupings : (ofUnits root others).groupings = (ofUnits root units).groupings := by
    simp only [groupings_eq ordered,groupings_eq ordered',directories,unitsIn]
  have rooted := (root_ofUnits root others).trans (root_ofUnits root units).symm
  cases left : ofUnits root others
  cases right : ofUnits root units
  simp_all

end Unambiguous

/-- Units of one directory make one grouping. -/
theorem groupings_ofUnits (root : Path) {units : List Path} {directory : Path}
    (parents : ∀ unit ∈ units, unit.parent? = some directory) :
    (ofUnits root units).groupings = [] ∨ ∃ us, (ofUnits root units).groupings = [(directory,us)] := by
  refine ofUnits_induction (motive := fun units t =>
    (∀ unit ∈ units, unit.parent? = some directory) → t.groupings = [] ∨
      ∃ us, t.groupings = [(directory,us)]) (fun _ => .inl rfl) ?_ units parents
  intro units t unit _ _ ih parents
  have parent := parents unit (by simp)
  rcases ih fun unit member => parents unit (List.mem_append_left _ member) with none | ⟨us,one⟩
  · exact .inr ⟨_,by simp [add,parent,none,Sorted.insert]; rfl⟩
  · exact .inr ⟨_,by simp [add,parent,one,Sorted.insert]; rfl⟩

end SourceTree

/-! ## The scopes of analyses -/

theorem discover_ordered {fs : FileSystem} {root : Path} {o : DiscoveryOptions} {tree : SourceTree}
    (found : discover fs root o = .ok tree) : tree.Ordered := by
  unfold discover at found
  split at found
  · cases found
  · cases found
    exact SourceTree.ofUnits_ordered _ _

theorem discoverGrouping_ordered {fs : FileSystem} {directory : Path} {o : DiscoveryOptions}
    {tree : SourceTree} (found : discoverGrouping fs directory o = .ok tree) : tree.Ordered := by
  unfold discoverGrouping at found
  split at found
  · cases found
  · cases found
    exact SourceTree.ofUnits_ordered _ _

theorem map_eq_ok {α β : Type} {f : α → β} {x : Except AnalysisError α} {b : β}
    (mapped : x.map f = .ok b) : ∃ a, x = .ok a ∧ f a = b := by
  cases x with
  | ok a =>
    cases mapped
    exact ⟨a,rfl,rfl⟩
  | error e => cases mapped

theorem map_eq_error {α β : Type} {f : α → β} {x : Except AnalysisError α} {e : AnalysisError}
    (failed : x.map f = .error e) : x = .error e := by
  cases x with
  | ok a => cases failed
  | error e' =>
    cases failed
    rfl

/-- What is analysed at some path: a tree, a directory or a unit alone. -/
def Scope.Analysed (env : Environment) (scope : Scope) : Prop :=
  ∃ path, treeScope env path = .ok scope ∨ groupingScope env path = .ok scope ∨
    unitScope env path = .ok scope

theorem Scope.Analysed.ordered {env : Environment} {scope : Scope} (analysed : scope.Analysed env) :
    scope.tree.Ordered := by
  obtain ⟨path,tree | grouping | unit⟩ := analysed
  · obtain ⟨files,found,rfl⟩ := map_eq_ok tree
    exact discover_ordered found
  · obtain ⟨files,found,rfl⟩ := map_eq_ok grouping
    exact discoverGrouping_ordered found
  · obtain ⟨siblings,-,rfl⟩ := map_eq_ok unit
    exact SourceTree.add_ordered (SourceTree.empty_ordered _) path

namespace Run

/-- The jobs of a run are the units of its tree, in the same order. -/
theorem paths_jobsOf (tree : SourceTree) : (jobsOf tree).map Job.path = tree.units := by
  have parts : (tree.groupings.mapIdx fun i g => g.2.map (Job.mk i)).map (List.map Job.path) =
      tree.groupings.map Prod.snd := by
    apply List.ext_getElem
    · simp
    · intro i _ _
      simp [Function.comp_def]
  rw [jobsOf, List.map_flatten, parts, SourceTree.units, List.flatMap]

theorem length_jobsOf (tree : SourceTree) : (jobsOf tree).length = tree.unitCount := by
  rw [SourceTree.unitCount, ← paths_jobsOf, List.length_map]

theorem mem_jobsOf {tree : SourceTree} {job : Job} :
    job ∈ jobsOf tree ↔ ∃ g, tree.groupings[job.grouping]? = some g ∧ job.path ∈ g.2 := by
  simp only [jobsOf,List.mem_flatten,List.mem_mapIdx]
  constructor
  · rintro ⟨_,⟨i,bound,rfl⟩,member⟩
    obtain ⟨path,inside,rfl⟩ := List.mem_map.mp member
    exact ⟨_,List.getElem?_eq_getElem bound,inside⟩
  · rintro ⟨g,found,inside⟩
    obtain ⟨bound,rfl⟩ := List.getElem?_eq_some_iff.mp found
    exact ⟨_,⟨_,bound,rfl⟩,List.mem_map.mpr ⟨_,inside,rfl⟩⟩

theorem jobsOf_nodup {tree : SourceTree} (ordered : tree.Ordered) : (jobsOf tree).Nodup := by
  refine List.pairwise_flatten.mpr ⟨?_,?_⟩
  · intro jobs member
    obtain ⟨i,bound,rfl⟩ := List.mem_mapIdx.mp member
    have strict := ordered.units _ (List.getElem_mem bound)
    exact List.Pairwise.map _ (fun a b different same => different (Job.mk.inj same).2) strict.nodup
  · rw [List.pairwise_iff_getElem]
    intro i j _ _ less x inX y inY same
    simp only [List.getElem_mapIdx,List.mem_map] at inX inY
    obtain ⟨_,_,rfl⟩ := inX
    obtain ⟨_,_,rfl⟩ := inY
    cases same
    omega

end Run

end Coupling
