import Coupling.Proofs.Order
import Coupling.Proofs.Sorted
import Coupling.Report.WholeTree

/-! What one write does to a report, said through membership and lookup. -/
namespace Coupling

namespace UnitReport

@[simp] theorem empty_name (name : String) : (empty name).name = name := rfl
@[simp] theorem empty_edges (name : String) : (empty name).edges = [] := rfl

@[simp] theorem add_name (r : UnitReport) (e : Edge) : (r.add e).1.name = r.name := by
  unfold add
  split
  · split <;> rfl
  · rfl

theorem mem_add_edges (r : UnitReport) (e x : Edge) (owned : r.owns e = true) :
    x ∈ (r.add e).1.edges ↔ x = e ∨ x ∈ r.edges := by
  unfold add
  rw [if_pos owned]
  split
  · rename_i present
    have member : e ∈ r.edges := Sorted.has_iff.mp present
    constructor
    · exact .inr
    · rintro (rfl | old)
      · exact member
      · exact old
  · exact Sorted.mem_add

theorem add_strict {r : UnitReport} (strict : Sorted.Strict r.edges) (e : Edge) :
    Sorted.Strict (r.add e).1.edges := by
  unfold add
  split
  · split
    · exact strict
    · exact Sorted.add_strict strict
  · exact strict

/-- The answer says whether the report grew; otherwise it is left as it was. -/
theorem add_grows_iff (r : UnitReport) (e : Edge) :
    ((r.add e).2 = true ↔ (r.add e).1.size = r.size + 1) ∧ ((r.add e).2 = false → (r.add e).1 = r) := by
  unfold add size
  split
  · cases present : Sorted.has e r.edges with
    | true => simp
    | false => simp [Sorted.length_add_of_new present]
  · simp

end UnitReport

namespace GroupingReport

def unitNames (g : GroupingReport) : List String := g.units.map Prod.fst

/-- Units stand in the order of names, each under its own. -/
structure Indexed (g : GroupingReport) : Prop where
  sorted : Sorted.Strict g.unitNames
  own : ∀ entry ∈ g.units, entry.2.name = entry.1

theorem empty_indexed (name : String) : (empty name).Indexed := ⟨.nil,by simp [empty]⟩

theorem rename_indexed {g : GroupingReport} (indexed : g.Indexed) (name : String) :
    (g.rename name).Indexed := ⟨indexed.sorted,indexed.own⟩

theorem addUnit_unitNames (g : GroupingReport) (u : UnitReport) :
    (g.addUnit u).1.unitNames = Sorted.add u.name g.unitNames :=
  Sorted.keys_insert ..

theorem addUnit_unit? (g : GroupingReport) (u : UnitReport) (name : String) :
    (g.addUnit u).1.unit? name = if name = u.name then some u else g.unit? name := by
  simp only [unit?,addUnit,Sorted.find?_insert,Std.LawfulEqOrd.compare_eq_iff_eq]

theorem addUnit_indexed {g : GroupingReport} (indexed : g.Indexed) (u : UnitReport) :
    (g.addUnit u).1.Indexed where
  sorted := by
    rw [addUnit_unitNames]
    exact Sorted.add_strict indexed.sorted
  own := Sorted.own_insert indexed.own u

theorem mem_unitNames_iff {g : GroupingReport} {name : String} :
    name ∈ g.unitNames ↔ (g.unit? name).isSome := Sorted.mem_keys_iff

theorem absorb_name (g other : GroupingReport) : (g.absorb other).name = g.name := by
  unfold absorb
  induction other.units generalizing g with
  | nil => rfl
  | cons entry rest ih => exact ih _

theorem absorb_unitNames {g other : GroupingReport} (indexed : other.Indexed) :
    (g.absorb other).unitNames =
      other.unitNames.foldl (fun names name => Sorted.add name names) g.unitNames := by
  obtain ⟨title,units⟩ := other
  have own : ∀ entry ∈ units, entry.2.name = entry.1 := indexed.own
  clear indexed
  simp only [absorb,unitNames]
  induction units generalizing g with
  | nil => rfl
  | cons entry rest ih =>
    rw [List.foldl_cons, ih fun later member => own later (List.mem_cons_of_mem _ member),
      ← unitNames, addUnit_unitNames, own entry (List.mem_cons_self ..)]
    rfl

theorem absorb_indexed {g : GroupingReport} (indexed : g.Indexed) (other : GroupingReport) :
    (g.absorb other).Indexed := by
  unfold absorb
  induction other.units generalizing g with
  | nil => exact indexed
  | cons entry rest ih => exact ih (addUnit_indexed indexed entry.2)

theorem dependencyCount_eq (g : GroupingReport) :
    g.dependencyCount = Sorted.total UnitReport.size g.units := by
  simp [dependencyCount,unitReports,Sorted.total,List.foldr_map]

/-- A write replaces what stood under the name of the unit, in every count. -/
theorem addUnit_counts {g : GroupingReport} (indexed : g.Indexed) (u : UnitReport) :
    (g.addUnit u).1.unitCount + ((g.addUnit u).2.map fun _ => 1).getD 0 = g.unitCount + 1 ∧
    (g.addUnit u).1.dependencyCount + ((g.addUnit u).2.map UnitReport.size).getD 0 =
      g.dependencyCount + u.size := by
  simp only [unitCount,← Sorted.total_one,dependencyCount_eq]
  exact ⟨Sorted.total_insert _ indexed.sorted ..,Sorted.total_insert _ indexed.sorted ..⟩

def outline (g : GroupingReport) : String × List String := (g.name,g.unitNames)

end GroupingReport

namespace TreeReport

def groupingNames (t : TreeReport) : List String := t.groupings.map Prod.fst

/-- Groupings stand in the order of names, each under its own. -/
structure Indexed (t : TreeReport) : Prop where
  sorted : Sorted.Strict t.groupingNames
  own : ∀ entry ∈ t.groupings, entry.2.name = entry.1

theorem empty_indexed (name : String) : (empty name).Indexed := ⟨.nil,by simp [empty]⟩

theorem addGrouping_groupingNames (t : TreeReport) (g : GroupingReport) :
    (t.addGrouping g).1.groupingNames = Sorted.add g.name t.groupingNames :=
  Sorted.keys_insert ..

theorem addGrouping_grouping? (t : TreeReport) (g : GroupingReport) (name : String) :
    (t.addGrouping g).1.grouping? name = if name = g.name then some g else t.grouping? name := by
  simp only [grouping?,addGrouping,Sorted.find?_insert,Std.LawfulEqOrd.compare_eq_iff_eq]

theorem addGrouping_indexed {t : TreeReport} (indexed : t.Indexed) (g : GroupingReport) :
    (t.addGrouping g).1.Indexed where
  sorted := by
    rw [addGrouping_groupingNames]
    exact Sorted.add_strict indexed.sorted
  own := Sorted.own_insert indexed.own g

theorem removeGrouping_indexed {t : TreeReport} (indexed : t.Indexed) (name : String) :
    (t.removeGrouping name).1.Indexed where
  sorted := indexed.sorted.sublist ((Sorted.erase_sublist name t.groupings).map Prod.fst)
  own entry member := indexed.own entry ((Sorted.erase_sublist name t.groupings).mem member)

/-- Groupings stand under their own names, and each of them has a property. -/
structure Each (p : GroupingReport → Prop) (t : TreeReport) : Prop extends t.Indexed where
  groupings : ∀ entry ∈ t.groupings, p entry.2

section Each

variable {p : GroupingReport → Prop} {t : TreeReport}

theorem empty_each (name : String) : (empty name).Each p := ⟨empty_indexed name,by simp [empty]⟩

theorem Each.addGrouping (each : t.Each p) {g : GroupingReport} (holds : p g) :
    (t.addGrouping g).1.Each p :=
  ⟨addGrouping_indexed each.toIndexed g,Sorted.forall_value_insert each.groupings g.name holds⟩

theorem Each.removeGrouping (each : t.Each p) (name : String) : (t.removeGrouping name).1.Each p :=
  ⟨removeGrouping_indexed each.toIndexed name,fun entry member =>
    each.groupings entry ((Sorted.erase_sublist name t.groupings).mem member)⟩

theorem Each.grouping? (each : t.Each p) {name : String} {g : GroupingReport}
    (found : t.grouping? name = some g) : p g ∧ g.name = name := by
  have member := (Sorted.find?_eq_some_iff each.sorted).mp found
  exact ⟨each.groupings _ member,each.own _ member⟩

end Each

theorem unitCount_eq_total (t : TreeReport) :
    t.unitCount = Sorted.total GroupingReport.unitCount t.groupings := by
  simp [unitCount,groupingReports,Sorted.total,List.foldr_map]

theorem dependencyCount_eq_total (t : TreeReport) :
    t.dependencyCount = Sorted.total GroupingReport.dependencyCount t.groupings := by
  simp [dependencyCount,groupingReports,Sorted.total,List.foldr_map]

theorem addGrouping_counts {t : TreeReport} (indexed : t.Indexed) (g : GroupingReport) :
    (t.addGrouping g).1.groupingCount + ((t.addGrouping g).2.map fun _ => 1).getD 0 =
      t.groupingCount + 1 ∧
    (t.addGrouping g).1.unitCount + ((t.addGrouping g).2.map GroupingReport.unitCount).getD 0 =
      t.unitCount + g.unitCount ∧
    (t.addGrouping g).1.dependencyCount +
        ((t.addGrouping g).2.map GroupingReport.dependencyCount).getD 0 =
      t.dependencyCount + g.dependencyCount := by
  simp only [groupingCount,← Sorted.total_one,unitCount_eq_total,dependencyCount_eq_total]
  exact ⟨Sorted.total_insert _ indexed.sorted ..,Sorted.total_insert _ indexed.sorted ..,
    Sorted.total_insert _ indexed.sorted ..⟩

def outline (t : TreeReport) : List (String × String × List String) :=
  Sorted.mapValues GroupingReport.outline t.groupings

theorem outline_addGrouping (t : TreeReport) (g : GroupingReport) :
    (t.addGrouping g).1.outline = Sorted.insert g.name g.outline t.outline :=
  Sorted.mapValues_insert ..

theorem outline_removeGrouping (t : TreeReport) (name : String) :
    (t.removeGrouping name).1.outline = Sorted.erase name t.outline :=
  Sorted.mapValues_erase ..

theorem outline_grouping? (t : TreeReport) (name : String) :
    (t.grouping? name).map GroupingReport.outline = Sorted.find? name t.outline :=
  (Sorted.find?_mapValues ..).symm

theorem unitCount_eq (t : TreeReport) :
    t.unitCount = t.outline.foldr (fun entry n => entry.2.2.length + n) 0 := by
  simp [unitCount,groupingReports,outline,Sorted.mapValues,GroupingReport.outline,
    GroupingReport.unitNames,GroupingReport.unitCount,List.foldr_map]

end TreeReport

end Coupling
