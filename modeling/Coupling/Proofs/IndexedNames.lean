import Coupling.Proofs.Path
import Coupling.Proofs.SourceIndex
import Mathlib.Data.Set.Card

/-! Which names an index knows. A path without its extension is read as the names in it, and the index knows
every way to go on from one of these names to the last. What stands in front of a path can add longer names,
but takes none away. -/
namespace Coupling

namespace Path

/-! ## Paths without their extension -/

/-- What is left of the last component without its extension, in the same directory. -/
def withoutExtension (p : Path) : Path :=
  match p.fileStem? with
  | some stem => (p.parent?.getD ⟨""⟩).join ⟨stem⟩
  | none => p

theorem mem_parts_of_mem_components {p : Path} {name : String} (member : .normal name ∈ p.components) :
    name ∈ p.parts := by
  have whole {part : String} (same : .normal name = componentOf part) : name = part := by
    unfold componentOf at same
    split at same
    · cases same
    · exact Component.normal.inj same
  obtain ⟨first,rest,parts⟩ := List.exists_cons_of_ne_nil p.parts_ne_nil
  have later (inside : .normal name ∈ (rest.filter (!isVoid ·)).map componentOf) : name ∈ first :: rest := by
    obtain ⟨part,behind,same⟩ := List.mem_map.mp inside
    rw [whole same.symm]
    exact List.mem_cons_of_mem _ (List.mem_of_mem_filter behind)
  rw [parts]
  simp only [components,parts] at member
  split at member
  · split at member
    · cases member
    · exact later (by simpa using member)
  · split at member
    · exact later (by simpa using member)
    · rcases List.mem_cons.mp member with same | inside
      · rw [whole same]
        exact List.mem_cons_self ..
      · exact later inside

theorem not_mem_fileName {p : Path} {name : String} (file : p.fileName? = some name) : '/' ∉ name.toList := by
  have last := List.mem_of_getLast? (fileName?_eq_some_iff.mp file)
  exact not_mem_of_mem_parts (mem_parts_of_mem_components (List.mem_of_mem_filter last))

theorem not_mem_fileStem {p : Path} {stem : String} (file : p.fileStem? = some stem) : '/' ∉ stem.toList := by
  obtain ⟨name,fileName,rfl⟩ := Option.map_eq_some_iff.mp file
  have free := not_mem_fileName fileName
  unfold splitName
  split
  · rename_i front ending split
    split
    · exact free
    · intro inside
      rw [(Text.splitLast?_eq_some_iff.mp split).1] at free
      exact free (List.mem_append_left _ inside)
  · exact free

theorem names_parent {p : Path} {name : String} (file : p.fileName? = some name) :
    p.names = (p.parent?.getD ⟨""⟩).names ++ [name] := by
  apply names_of_above _ file
  cases up : p.parent? with
  | none => exact (route_of_parent?_eq_none up).symm
  | some d => exact route_parent? up

theorem names_join_relative (d : Path) {p : Path} (relative : p.isAbsolute = false) :
    (d.join p).names = d.names ++ p.names := by
  rw [names_eq, names_eq, names_eq, route_join_relative d relative, List.filterMap_append]

/-- A file is called the same from above its directory. -/
theorem fileName?_join_relative (d : Path) {p : Path} (relative : p.isAbsolute = false) {name : String}
    (file : p.fileName? = some name) : (d.join p).fileName? = some name := by
  rw [fileName?_eq_some_iff] at file ⊢
  rw [route_join_relative d relative, List.getLast?_append, file]
  rfl

end Path

namespace SourceIndex

/-! ## Segments -/

theorem segments_eq (p : Path) : segments p = p.withoutExtension.names := by
  unfold segments Path.withoutExtension
  cases file : p.fileStem? with
  | none => rfl
  | some stem =>
    obtain ⟨name,fileName,-⟩ := Option.map_eq_some_iff.mp file
    have relative := Path.isAbsolute_of_not_mem (Path.not_mem_fileStem file)
    dsimp only
    rw [Path.names_join_relative _ relative, Path.names_parent fileName, List.dropLast_concat]

/-- A directory in front of a file puts its names in front of those of the file. -/
theorem segments_join (d : Path) {p : Path} (relative : p.isAbsolute = false) {name : String}
    (file : p.fileName? = some name) : segments (d.join p) = d.names ++ segments p := by
  have whole := Path.names_parent file
  have stem : (d.join p).fileStem? = p.fileStem? := by
    rw [Path.fileStem?, Path.fileStem?, Path.fileName?_join_relative d relative file, file]
  simp only [segments,stem,Path.names_join_relative d relative]
  cases p.fileStem? with
  | none => rfl
  | some stem =>
    dsimp only
    rw [whole, ← List.append_assoc, List.dropLast_concat, List.dropLast_concat, List.append_assoc]

theorem mem_suffixes_iff {α : Type} {xs ys : List α} : ys ∈ suffixes xs ↔ ys ≠ [] ∧ ys <:+ xs := by
  induction xs with
  | nil => simp [suffixes]
  | cons x rest ih =>
    rw [suffixes, List.mem_cons, ih, List.suffix_cons_iff]
    constructor
    · rintro (rfl | ⟨some,behind⟩)
      · exact ⟨by simp,.inl rfl⟩
      · exact ⟨some,.inr behind⟩
    · rintro ⟨some,whole | behind⟩
      · exact .inl whole
      · exact .inr ⟨some,behind⟩

theorem suffixes_append {α : Type} (xs ys : List α) :
    suffixes (xs ++ ys) = (suffixes xs).map (· ++ ys) ++ suffixes ys := by
  induction xs with
  | nil => rfl
  | cons x rest ih => simp [suffixes,ih]

/-! ## Known names -/

/-- A name that some path ends in, without its extension: names of the path from one on to the last, with
points between them. -/
def Indexed (paths : List Path) (name : String) : Prop :=
  ∃ p ∈ paths, ∃ front back, p.withoutExtension.names = front ++ back ∧ back ≠ [] ∧ name = ".".intercalate back

theorem mem_namesOf_iff {p : Path} {name : String} : name ∈ namesOf p ↔
    ∃ front back, p.withoutExtension.names = front ++ back ∧ back ≠ [] ∧ name = ".".intercalate back := by
  simp only [namesOf,segments_eq,List.mem_map,mem_suffixes_iff]
  constructor
  · rintro ⟨back,⟨some,front,split⟩,rfl⟩
    exact ⟨front,back,split.symm,some,rfl⟩
  · rintro ⟨front,back,split,some,rfl⟩
    exact ⟨back,⟨some,front,split.symm⟩,rfl⟩

theorem contains_iff_indexed {paths : List Path} {name : String} :
    (ofPaths paths).contains name = true ↔ Indexed paths name := by
  simp only [contains_ofPaths,mem_namesOf_iff,Indexed]

theorem size_ofPaths (paths : List Path) : (ofPaths paths).size = {name | Indexed paths name}.ncard := by
  have distinct : (ofPaths paths).names.Nodup := (ofPaths_spec paths).1.nodup
  have names : {name | Indexed paths name} = ↑(ofPaths paths).names.toFinset := by
    ext name
    rw [Set.mem_ofPred_eq, ← contains_iff_indexed, contains, List.contains_iff_mem]
    simp
  rw [names, Set.ncard_coe_finset, List.toFinset_card_of_nodup distinct, size]

/-- Seen from above a directory, a file keeps its names and has longer ones that end in all of its path. -/
theorem namesOf_join (d : Path) {p : Path} (relative : p.isAbsolute = false) (file : p.fileName?.isSome) :
    namesOf (d.join p) =
      (suffixes d.names).map (fun front => ".".intercalate (front ++ p.withoutExtension.names)) ++ namesOf p := by
  obtain ⟨name,fileName⟩ := Option.isSome_iff_exists.mp file
  rw [namesOf, namesOf, segments_join d relative fileName, suffixes_append, List.map_append, List.map_map,
    segments_eq]
  rfl

/-- An index knows exactly the dotted ends of its paths without their extensions, in whichever order and how
often these were put in. A directory in front of all paths keeps their names, and adds only names that end in
a whole path. -/
theorem index_names_exact (paths : List Path) :
    (∀ query, (ofPaths paths).contains query = true ↔ Indexed paths query) ∧
    (∀ others : List Path, (∀ p, p ∈ others ↔ p ∈ paths) → ofPaths others = ofPaths paths) ∧
    (ofPaths paths).size = {name | Indexed paths name}.ncard ∧
    ∀ d : Path, (∀ p ∈ paths, p.isAbsolute = false ∧ p.fileName?.isSome) →
      ∀ query, (ofPaths (paths.map d.join)).contains query = true ↔
        (ofPaths paths).contains query = true ∨
          ∃ p ∈ paths, ∃ front, front ≠ [] ∧ front <:+ d.names ∧
            query = ".".intercalate (front ++ p.withoutExtension.names) := by
  refine ⟨fun query => contains_iff_indexed,?_,size_ofPaths paths,?_⟩
  · intro others same
    apply ofPaths_eq
    intro name
    simp only [same]
  · intro d files query
    simp only [contains_ofPaths,List.mem_map]
    constructor
    · rintro ⟨_,⟨p,member,rfl⟩,named⟩
      rw [namesOf_join d (files p member).1 (files p member).2, List.mem_append, List.mem_map] at named
      rcases named with ⟨front,suffix,rfl⟩ | old
      · obtain ⟨some,ends⟩ := mem_suffixes_iff.mp suffix
        exact .inr ⟨p,member,front,some,ends,rfl⟩
      · exact .inl ⟨p,member,old⟩
    · rintro (⟨p,member,old⟩ | ⟨p,member,front,some,ends,rfl⟩)
      · refine ⟨_,⟨p,member,rfl⟩,?_⟩
        rw [namesOf_join d (files p member).1 (files p member).2]
        exact List.mem_append_right _ old
      · refine ⟨_,⟨p,member,rfl⟩,?_⟩
        rw [namesOf_join d (files p member).1 (files p member).2]
        exact List.mem_append_left _ (List.mem_map.mpr ⟨front,mem_suffixes_iff.mpr ⟨some,ends⟩,rfl⟩)

def awkwardPaths : List Path := [⟨"a/./B.b.java"⟩,⟨"../x/.hidden"⟩,⟨"c/..java"⟩]

theorem index_names_exact_awkward :
    (∀ p ∈ awkwardPaths, p.isAbsolute = false ∧ p.fileName?.isSome) ∧
    (ofPaths (awkwardPaths.map (Path.join ⟨"/src/main"⟩))).contains "main.x..hidden" = true ∧
    (ofPaths (awkwardPaths.map (Path.join ⟨"/src/main"⟩))).contains "a.B.b" = true ∧
    (ofPaths awkwardPaths).contains "c" = true ∧
    (∀ p, p ∈ awkwardPaths ++ awkwardPaths.reverse ↔ p ∈ awkwardPaths) ∧
    ofPaths (awkwardPaths ++ awkwardPaths.reverse) = ofPaths awkwardPaths := by
  have files : ∀ p ∈ awkwardPaths, p.isAbsolute = false ∧ p.fileName?.isSome := by decide
  have same : ∀ p, p ∈ awkwardPaths ++ awkwardPaths.reverse ↔ p ∈ awkwardPaths := by simp
  obtain ⟨known,orders,-,moved⟩ := index_names_exact awkwardPaths
  refine ⟨files,?_,?_,?_,same,orders _ same⟩
  · apply (moved ⟨"/src/main"⟩ files _).mpr
    exact .inr ⟨⟨"../x/.hidden"⟩,by decide,["main"],by decide,⟨["src"],by decide⟩,by decide⟩
  · apply (moved ⟨"/src/main"⟩ files _).mpr
    exact .inl ((known _).mpr ⟨⟨"a/./B.b.java"⟩,by decide,[],["a","B.b"],by decide,by decide,by decide⟩)
  · exact (known _).mpr ⟨⟨"c/..java"⟩,by decide,[],["c"],by decide,by decide,by decide⟩

end SourceIndex

end Coupling
