import Coupling.Proofs.Sorted
import Coupling.SourceIndex

/-! The names that an index knows are those of its paths, so an index is the same for all paths with the
same names. -/
namespace Coupling.SourceIndex

/-- A path is known under names that only the names in it decide. -/
theorem namesOf_congr {p q : Path} (file : q.fileName? = p.fileName?) (names : q.names = p.names) :
    namesOf q = namesOf p := by
  simp only [namesOf,segments,Path.fileStem?,file,names]

theorem mem_insert {i : SourceIndex} {p : Path} {name : String} :
    name ∈ (i.insert p).names ↔ name ∈ namesOf p ∨ name ∈ i.names := by
  have fold : ∀ (new old : List String),
      name ∈ new.foldl (fun names name => Sorted.add name names) old ↔ name ∈ new ∨ name ∈ old := by
    intro new
    induction new with
    | nil => simp
    | cons first rest ih =>
      intro old
      rw [List.foldl_cons, ih, Sorted.mem_add, List.mem_cons]
      grind
  exact fold (namesOf p) i.names

theorem insert_strict {i : SourceIndex} (strict : Sorted.Strict i.names) (p : Path) :
    Sorted.Strict (i.insert p).names := by
  have fold : ∀ (new old : List String), Sorted.Strict old →
      Sorted.Strict (new.foldl (fun names name => Sorted.add name names) old) := by
    intro new
    induction new with
    | nil => exact fun _ strict => strict
    | cons first rest ih => exact fun old strict => ih _ (Sorted.add_strict strict)
  exact fold (namesOf p) i.names strict

theorem ofPaths_spec (paths : List Path) : Sorted.Strict (ofPaths paths).names ∧
    ∀ name, name ∈ (ofPaths paths).names ↔ ∃ p ∈ paths, name ∈ namesOf p := by
  have fold : ∀ (paths : List Path) (i : SourceIndex), Sorted.Strict i.names →
      Sorted.Strict (paths.foldl insert i).names ∧ ∀ name, name ∈ (paths.foldl insert i).names ↔
        (∃ p ∈ paths, name ∈ namesOf p) ∨ name ∈ i.names := by
    intro paths
    induction paths with
    | nil => exact fun i strict => ⟨strict,by simp⟩
    | cons p rest ih =>
      intro i strict
      obtain ⟨sorted,members⟩ := ih (i.insert p) (insert_strict strict p)
      refine ⟨sorted,?_⟩
      intro name
      rw [List.foldl_cons, members, mem_insert]
      simp only [List.mem_cons]
      grind
  simpa [ofPaths,empty] using fold paths empty .nil

theorem contains_ofPaths {paths : List Path} {name : String} :
    (ofPaths paths).contains name = true ↔ ∃ p ∈ paths, name ∈ namesOf p := by
  rw [contains, List.contains_iff_mem, (ofPaths_spec paths).2]

/-- An index is decided by the names that its paths have. -/
theorem ofPaths_eq {paths paths' : List Path}
    (same : ∀ name, (∃ p ∈ paths, name ∈ namesOf p) ↔ ∃ p ∈ paths', name ∈ namesOf p) :
    ofPaths paths = ofPaths paths' := by
  obtain ⟨strict,members⟩ := ofPaths_spec paths
  obtain ⟨strict',members'⟩ := ofPaths_spec paths'
  have names : (ofPaths paths).names = (ofPaths paths').names := by
    refine strict.eq_of_mem_iff strict' ?_
    intro name
    rw [members, members', same]
  exact congrArg SourceIndex.mk names

end Coupling.SourceIndex
