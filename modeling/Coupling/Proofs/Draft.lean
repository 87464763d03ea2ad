import Coupling.Proofs.Report
import Coupling.Run.Draft

/-! What a draft holds after units have come in one after another. The table of units shows for each name
the last unit that came; the package shows the first one in the order of paths, whenever that came. -/
namespace Coupling

abbrev Arrival := Path × ClassifiedUnit

/-- Only a package with a name is one. -/
def ClassifiedUnit.Declares (u : ClassifiedUnit) (package : String) : Prop :=
  u.package = some package ∧ package ≠ ""

def lastNamed (name : String) (arrivals : List Arrival) : Option UnitReport :=
  (arrivals.reverse.find? fun a => a.2.report.name == name).map fun a => a.2.report

/-- The package of the least path that has one. -/
inductive FirstPackage (arrivals : List Arrival) : Option (Path × String) → Prop
  | silent (undeclared : ∀ a ∈ arrivals, ∀ package, ¬a.2.Declares package) :
      FirstPackage arrivals none
  | declared {path unit package} (member : (path,unit) ∈ arrivals) (declares : unit.Declares package)
      (least : ∀ a ∈ arrivals, ∀ other, a.2.Declares other → (compare path a.1).isLE) :
      FirstPackage arrivals (some (path,package))

/-! ## The last arrival under a name -/

theorem lastNamed_concat (name : String) (arrivals : List Arrival) (a : Arrival) :
    lastNamed name (arrivals ++ [a]) =
      if a.2.report.name = name then some a.2.report else lastNamed name arrivals := by
  unfold lastNamed
  by_cases same : a.2.report.name = name
  · simp [same]
  · simp [same]

theorem lastNamed_eq_some_iff {name : String} {arrivals : List Arrival} {r : UnitReport} :
    lastNamed name arrivals = some r ↔ ∃ before a after, arrivals = before ++ a :: after ∧
      a.2.report = r ∧ r.name = name ∧ ∀ b ∈ after, b.2.report.name ≠ name := by
  simp only [lastNamed,Option.map_eq_some_iff,List.find?_eq_some_iff_append]
  constructor
  · rintro ⟨a,⟨named,later,earlier,split,others⟩,rfl⟩
    have order := congrArg List.reverse split
    simp only [List.reverse_reverse,List.reverse_append,List.reverse_cons,List.append_assoc,
      List.singleton_append] at order
    refine ⟨earlier.reverse,a,later.reverse,order,rfl,by simpa using named,?_⟩
    intro b member
    simpa using others b (by simpa using member)
  · rintro ⟨before,a,after,rfl,rfl,named,others⟩
    refine ⟨a,⟨by simpa using named,after.reverse,before.reverse,by simp,?_⟩,rfl⟩
    intro b member
    simpa using others b (by simpa using member)

theorem lastNamed_isSome_iff {name : String} {arrivals : List Arrival} :
    (lastNamed name arrivals).isSome ↔ ∃ a ∈ arrivals, a.2.report.name = name := by
  simp [lastNamed]

theorem lastNamed_eq_some_iff_of_distinct {name : String} {arrivals : List Arrival} {r : UnitReport}
    (distinct : ∀ a ∈ arrivals, ∀ b ∈ arrivals, a.2.report.name = b.2.report.name → a = b) :
    lastNamed name arrivals = some r ↔ ∃ a ∈ arrivals, a.2.report = r ∧ r.name = name := by
  constructor
  · intro found
    obtain ⟨before,a,after,split,report,named,-⟩ := lastNamed_eq_some_iff.mp found
    exact ⟨a,by simp [split],report,named⟩
  · rintro ⟨a,member,rfl,named⟩
    obtain ⟨r,found⟩ := Option.isSome_iff_exists.mp (lastNamed_isSome_iff.mpr ⟨a,member,named⟩)
    obtain ⟨before,b,after,split,rfl,namedToo,-⟩ := lastNamed_eq_some_iff.mp found
    rw [found, distinct a member b (by simp [split]) (named.trans namedToo.symm)]

/-! ## The first package -/

/-- Where no two paths are equal, the first package does not depend on the order of arrivals. -/
theorem FirstPackage.unique {arrivals others : List Arrival} {p q : Option (Path × String)}
    (same : ∀ a, a ∈ arrivals ↔ a ∈ others)
    (apart : ∀ a ∈ arrivals, ∀ b ∈ arrivals, compare a.1 b.1 = .eq → a = b)
    (left : FirstPackage arrivals p) (right : FirstPackage others q) : p = q := by
  cases left with
  | silent undeclared =>
    cases right with
    | silent _ => rfl
    | declared member declares _ => exact absurd declares (undeclared _ ((same _).mpr member) _)
  | @declared path unit package member declares least =>
    cases right with
    | silent undeclared => exact absurd declares (undeclared _ ((same _).mp member) _)
    | @declared path' unit' package' member' declares' least' =>
      have below := least _ ((same _).mpr member') _ declares'
      have above := least' _ ((same _).mp member) _ declares
      have equal := apart _ member _ ((same _).mpr member')
        (Std.OrientedCmp.isLE_antisymm below above)
      cases equal
      have packages := declares.1.symm.trans declares'.1
      cases packages
      rfl

theorem firstPackage_of_undeclared {unit : ClassifiedUnit} (current : Option (Path × String))
    (path : Path) (undeclared : ∀ package, ¬unit.Declares package) :
    GroupingDraft.firstPackage current path unit.package = current := by
  unfold GroupingDraft.firstPackage
  split
  · rfl
  · rename_i name given
    split
    · rfl
    · rename_i filled
      exact absurd ⟨given,by simpa using filled⟩ (undeclared name)

theorem firstPackage_of_declared {unit : ClassifiedUnit} {package : String}
    (current : Option (Path × String)) (path : Path) (declares : unit.Declares package) :
    GroupingDraft.firstPackage current path unit.package =
      match current with
      | none => some (path,package)
      | some held => if compare held.1 path = .lt then some held else some (path,package) := by
  unfold GroupingDraft.firstPackage
  rw [declares.1]
  simp only [String.isEmpty_iff,declares.2,if_false]
  cases current <;> rfl

theorem FirstPackage.arrive {arrivals : List Arrival} {current : Option (Path × String)}
    (first : FirstPackage arrivals current) (path : Path) (unit : ClassifiedUnit) :
    FirstPackage (arrivals ++ [(path,unit)])
      (GroupingDraft.firstPackage current path unit.package) := by
  by_cases declared : ∃ package, unit.Declares package
  · obtain ⟨package,declares⟩ := declared
    rw [firstPackage_of_declared current path declares]
    have newest : (path,unit) ∈ arrivals ++ [(path,unit)] := by simp
    cases first with
    | silent undeclared =>
      refine .declared newest declares (List.forall_mem_append.mpr ⟨?_,by simp⟩)
      exact fun a old other declaresOther => absurd declaresOther (undeclared a old other)
    | @declared held holder heldPackage member holds least =>
      by_cases earlier : compare held path = .lt
      · simp only [earlier,if_true]
        exact .declared (List.mem_append_left _ member) holds
          (List.forall_mem_append.mpr ⟨least,by simp [earlier]⟩)
      · simp only [earlier,if_false]
        have below : (compare path held).isLE := by
          rw [Std.OrientedOrd.eq_swap]
          cases order : compare held path <;> simp_all
        refine .declared newest declares (List.forall_mem_append.mpr ⟨?_,by simp⟩)
        exact fun a old other declaresOther =>
          Std.TransCmp.isLE_trans below (least a old other declaresOther)
  · have undeclared : ∀ package, ¬unit.Declares package := fun package declares =>
      declared ⟨package,declares⟩
    rw [firstPackage_of_undeclared current path undeclared]
    cases first with
    | silent old => exact .silent (List.forall_mem_append.mpr ⟨old,by simpa using undeclared⟩)
    | declared member holds least =>
      exact .declared (List.mem_append_left _ member) holds
        (List.forall_mem_append.mpr ⟨least,by simp [undeclared]⟩)

/-! ## Drafts -/

namespace GroupingDraft

/-- A draft of a directory that has taken in these units, in this order. -/
structure Holds (directory : Path) (arrivals : List Arrival) (d : GroupingDraft) : Prop where
  place : d.directory = directory
  title : d.report.name = directory.directoryName
  indexed : d.report.Indexed
  latest : ∀ name, d.report.unit? name = lastNamed name arrivals
  package : FirstPackage arrivals d.package

theorem empty_holds (directory : Path) : Holds directory [] (empty directory) where
  place := rfl
  title := rfl
  indexed := GroupingReport.empty_indexed _
  latest _ := rfl
  package := .silent (by simp)

namespace Holds

variable {directory : Path} {arrivals others : List Arrival} {d e : GroupingDraft}

theorem merge (holds : Holds directory arrivals d) (path : Path) (unit : ClassifiedUnit) :
    Holds directory (arrivals ++ [(path,unit)]) (d.merge path unit) where
  place := holds.place
  title := holds.title
  indexed := GroupingReport.addUnit_indexed holds.indexed unit.report
  latest name := by
    rw [lastNamed_concat, ← holds.latest name]
    simp only [GroupingDraft.merge,GroupingReport.addUnit_unit?,eq_comm]
  package := holds.package.arrive path unit

theorem mem_unitNames (holds : Holds directory arrivals d) {name : String} :
    name ∈ d.report.unitNames ↔ ∃ a ∈ arrivals, a.2.report.name = name := by
  rw [GroupingReport.mem_unitNames_iff, holds.latest, lastNamed_isSome_iff]

theorem isEmpty_iff (holds : Holds directory arrivals d) : d.report.isEmpty = true ↔ arrivals = [] := by
  have names : d.report.isEmpty = true ↔ d.report.unitNames = [] := by
    simp [GroupingReport.isEmpty,GroupingReport.unitNames]
  rw [names, List.eq_nil_iff_forall_not_mem, List.eq_nil_iff_forall_not_mem]
  constructor
  · intro unnamed a member
    exact unnamed _ (holds.mem_unitNames.mpr ⟨a,member,rfl⟩)
  · intro none name named
    obtain ⟨a,member,-⟩ := holds.mem_unitNames.mp named
    exact none a member

theorem finish_eq_none_iff (holds : Holds directory arrivals d) : d.finish = none ↔ arrivals = [] := by
  rw [← holds.isEmpty_iff]
  simp [finish]

/-- A grouping is named after the least unit that declares a package, or after its directory. -/
theorem name_cases (holds : Holds directory arrivals d) :
    (∃ path unit, (path,unit) ∈ arrivals ∧ unit.Declares d.name ∧
      ∀ a ∈ arrivals, ∀ other, a.2.Declares other → (compare path a.1).isLE) ∨
    ((∀ a ∈ arrivals, ∀ package, ¬a.2.Declares package) ∧ d.name = directory.directoryName) := by
  have first := holds.package
  unfold name
  cases held : d.package with
  | none =>
    rw [held] at first
    cases first with
    | silent undeclared => exact .inr ⟨undeclared,congrArg Path.directoryName holds.place⟩
  | some entry =>
    rw [held] at first
    cases first with
    | declared member declares least => exact .inl ⟨_,_,member,declares,least⟩

/-! Two drafts of one directory that took in the same units in different orders. -/

section Reordered

variable (left : Holds directory arrivals d) (right : Holds directory others e)
  (same : ∀ a, a ∈ arrivals ↔ a ∈ others)
  (apart : ∀ a ∈ arrivals, ∀ b ∈ arrivals, compare a.1 b.1 = .eq → a = b)

include left right same

theorem unitNames_eq : d.report.unitNames = e.report.unitNames := by
  refine left.indexed.sorted.eq_of_mem_iff right.indexed.sorted ?_
  intro name
  simp only [left.mem_unitNames,right.mem_unitNames,same]

include apart

theorem package_eq : d.package = e.package := left.package.unique same apart right.package

theorem outline_finish_eq :
    d.finish.map GroupingReport.outline = e.finish.map GroupingReport.outline := by
  have names := left.unitNames_eq right same
  have package := left.package_eq right same apart
  have name : d.name = e.name := by
    unfold name
    rw [package, left.place, right.place]
  have filled : d.report.isEmpty = e.report.isEmpty := by
    simpa [GroupingReport.isEmpty,GroupingReport.unitNames] using
      congrArg List.isEmpty names
  unfold finish
  rw [filled]
  split
  · rfl
  · simpa [GroupingReport.outline,GroupingReport.rename] using ⟨name,names⟩

/-- Where no two units share a name, the order leaves no trace at all. -/
theorem eq_of_distinct
    (distinct : ∀ a ∈ arrivals, ∀ b ∈ arrivals, a.2.report.name = b.2.report.name → a = b) :
    d = e := by
  have lookups : ∀ name, d.report.unit? name = e.report.unit? name := by
    intro name
    ext r
    rw [left.latest, right.latest, lastNamed_eq_some_iff_of_distinct distinct,
      lastNamed_eq_some_iff_of_distinct fun a inA b inB =>
        distinct a ((same a).mpr inA) b ((same b).mpr inB)]
    simp only [same]
  have units : d.report.units = e.report.units :=
    Sorted.ext left.indexed.sorted right.indexed.sorted lookups
  have package := left.package_eq right same apart
  have title := left.title.trans right.title.symm
  have place := left.place.trans right.place.symm
  obtain ⟨_,⟨_,_⟩,_⟩ := d
  obtain ⟨_,⟨_,_⟩,_⟩ := e
  simp_all

end Reordered

end Holds

end GroupingDraft

/-! ## The report of a tree

Its outline is made from the outlines of the drafts. -/

namespace GroupingReport

theorem outline_absorb {g g' other other' : GroupingReport} (held : g.outline = g'.outline)
    (taken : other.outline = other'.outline) (left : other.Indexed) (right : other'.Indexed) :
    (g.absorb other).outline = (g'.absorb other').outline := by
  obtain ⟨name,names⟩ := Prod.mk.inj held
  obtain ⟨-,takenNames⟩ := Prod.mk.inj taken
  simp only [outline,absorb_name,absorb_unitNames left,absorb_unitNames right,name,names,takenNames]

end GroupingReport

theorem GroupingDraft.eq_rename_of_finish {d : GroupingDraft} {g : GroupingReport}
    (finished : d.finish = some g) : g = d.report.rename d.name := by
  unfold finish at finished
  split at finished
  · cases finished
  · cases finished
    rfl

namespace TreeReport

theorem fold_of_found {t : TreeReport} {g existing : GroupingReport}
    (found : t.grouping? g.name = some existing) :
    t.fold g = ((t.removeGrouping g.name).1.addGrouping (existing.absorb g)).1 := by
  simp only [fold,removeGrouping,found]

theorem fold_of_not_found {t : TreeReport} {g : GroupingReport} (missing : t.grouping? g.name = none) :
    t.fold g = ((t.removeGrouping g.name).1.addGrouping g).1 := by
  simp only [fold,removeGrouping,missing]

theorem outline_fold {t u : TreeReport} {g h : GroupingReport} (trees : t.outline = u.outline)
    (alike : g.outline = h.outline) (left : g.Indexed) (right : h.Indexed) :
    (t.fold g).outline = (u.fold h).outline := by
  have name : g.name = h.name := congrArg Prod.fst alike
  have found : (t.grouping? g.name).map GroupingReport.outline =
      (u.grouping? h.name).map GroupingReport.outline := by
    rw [outline_grouping?, outline_grouping?, trees, name]
  cases inT : t.grouping? g.name with
  | none =>
    have missing : u.grouping? h.name = none := by simpa [inT] using found.symm
    rw [fold_of_not_found inT, fold_of_not_found missing, outline_addGrouping, outline_addGrouping,
      outline_removeGrouping, outline_removeGrouping, trees, alike, name]
  | some held =>
    cases inU : u.grouping? h.name with
    | none => simp [inT,inU] at found
    | some held' =>
      have outlines : held.outline = held'.outline := by simpa [inT,inU] using found
      have absorbed := GroupingReport.outline_absorb outlines alike left right
      have absorbedName : (held.absorb g).name = (held'.absorb h).name := congrArg Prod.fst absorbed
      rw [fold_of_found inT, fold_of_found inU, outline_addGrouping, outline_addGrouping,
        outline_removeGrouping, outline_removeGrouping, trees, absorbed, absorbedName, name]

theorem outline_foldl {gs hs : List GroupingReport} {t u : TreeReport} (trees : t.outline = u.outline)
    (alike : gs.map GroupingReport.outline = hs.map GroupingReport.outline)
    (left : ∀ g ∈ gs, g.Indexed) (right : ∀ h ∈ hs, h.Indexed) :
    (gs.foldl fold t).outline = (hs.foldl fold u).outline := by
  induction gs generalizing hs t u with
  | nil =>
    cases hs with
    | nil => exact trees
    | cons h hs => cases alike
  | cons g gs ih =>
    cases hs with
    | nil => cases alike
    | cons h hs =>
      obtain ⟨first,rest⟩ := List.cons.inj alike
      obtain ⟨leftFirst,leftRest⟩ := List.forall_mem_cons.mp left
      obtain ⟨rightFirst,rightRest⟩ := List.forall_mem_cons.mp right
      rw [List.foldl_cons, List.foldl_cons]
      exact ih (outline_fold trees first leftFirst rightFirst) rest leftRest rightRest

theorem outline_ofDrafts (name : String) {ds es : List GroupingDraft}
    (alike : ds.map (fun d => d.finish.map GroupingReport.outline) =
      es.map (fun e => e.finish.map GroupingReport.outline))
    (left : ∀ d ∈ ds, d.report.Indexed) (right : ∀ e ∈ es, e.report.Indexed) :
    (ofDrafts name ds).outline = (ofDrafts name es).outline := by
  have finished {ds : List GroupingDraft} (indexed : ∀ d ∈ ds, d.report.Indexed) :
      ∀ g ∈ ds.filterMap GroupingDraft.finish, g.Indexed := by
    intro g member
    obtain ⟨d,inside,made⟩ := List.mem_filterMap.mp member
    rw [GroupingDraft.eq_rename_of_finish made]
    exact GroupingReport.rename_indexed (indexed d inside) _
  refine outline_foldl rfl ?_ (finished left) (finished right)
  have outlines := congrArg (List.filterMap id) alike
  simpa only [List.filterMap_map,List.map_filterMap,Function.comp_def,id] using outlines

end TreeReport

end Coupling
