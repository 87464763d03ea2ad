import Coupling.Proofs.Report

/-! Reports after any history of operations. Whatever is built by making reports, adding to them, renaming
and absorbing groupings and taking them out again is sound: edges belong to their unit and are in order,
and every table is kept under the names of its own entries. -/
namespace Coupling

/-! ## Sound reports -/

namespace UnitReport

/-- Every edge goes out from the unit, none comes back, and they are in the order of their fields. -/
structure Sound (r : UnitReport) : Prop where
  leaves : ∀ e ∈ r.edges, e.source = r.name ∧ e.target ≠ r.name
  ordered : r.edges.Pairwise fun e f => Edge.compareFields e f = .lt
  distinct : r.edges.Nodup

theorem Sound.strict {r : UnitReport} (sound : r.Sound) : Sorted.Strict r.edges :=
  sound.ordered.imp fun below => (Edge.compare_eq_compareFields ..).trans below

theorem sound_of_strict {r : UnitReport}
    (leaves : ∀ e ∈ r.edges, e.source = r.name ∧ e.target ≠ r.name) (strict : Sorted.Strict r.edges) :
    r.Sound :=
  ⟨leaves,strict.imp fun below => (Edge.compare_eq_compareFields ..).symm.trans below,strict.nodup⟩

theorem empty_sound (name : String) : (empty name).Sound := sound_of_strict (by simp) .nil

theorem add_sound {r : UnitReport} (sound : r.Sound) (e : Edge) : (r.add e).1.Sound := by
  refine sound_of_strict (fun x member => ?_) (add_strict sound.strict e)
  rw [add_name]
  by_cases owned : r.owns e = true
  · rcases (mem_add_edges r e x owned).mp member with rfl | old
    · simpa [owns] using owned
    · exact sound.leaves x old
  · rw [add, if_neg owned] at member
    exact sound.leaves x member

end UnitReport

namespace GroupingReport

structure Sound (g : GroupingReport) : Prop extends g.Indexed where
  units : ∀ entry ∈ g.units, entry.2.Sound

theorem empty_sound (name : String) : (empty name).Sound := ⟨empty_indexed name,by simp [empty]⟩

theorem rename_sound {g : GroupingReport} (sound : g.Sound) (name : String) : (g.rename name).Sound :=
  ⟨rename_indexed sound.toIndexed name,sound.units⟩

theorem addUnit_sound {g : GroupingReport} (sound : g.Sound) {u : UnitReport} (added : u.Sound) :
    (g.addUnit u).1.Sound :=
  ⟨addUnit_indexed sound.toIndexed u,Sorted.forall_value_insert sound.units u.name added⟩

theorem absorb_sound {g other : GroupingReport} (sound : g.Sound) (taken : other.Sound) :
    (g.absorb other).Sound := by
  obtain ⟨-,units⟩ := taken
  unfold absorb
  generalize other.units = entries at units
  induction entries generalizing g with
  | nil => exact sound
  | cons entry rest ih =>
    obtain ⟨first,later⟩ := List.forall_mem_cons.mp units
    exact ih (addUnit_sound sound first) later

theorem Sound.unit? {g : GroupingReport} {name : String} {u : UnitReport} (sound : g.Sound)
    (found : g.unit? name = some u) : u.Sound := by
  obtain ⟨key,member⟩ := Sorted.mem_of_find? found
  exact sound.units _ member

end GroupingReport

namespace TreeReport

abbrev Sound (t : TreeReport) : Prop := t.Each GroupingReport.Sound

end TreeReport

/-! ## Histories -/

/-- The reports at hand, of each kind in the order in which they came up. -/
structure Bench where
  units : List UnitReport
  groupings : List GroupingReport
  trees : List TreeReport

inductive Operation
  | newUnit (name : String)
  | addEdge (unit : Nat) (e : Edge)
  | newGrouping (name : String)
  | addUnit (grouping unit : Nat)
  | absorb (grouping other : Nat)
  | rename (grouping : Nat) (name : String)
  | newTree (name : String)
  | addGrouping (tree grouping : Nat)
  | removeGrouping (tree : Nat) (name : String)

namespace Bench

def empty : Bench := ⟨[],[],[]⟩

/-- Carries out an operation. What it replaces or removes is at hand from then on; where a place is empty
it does nothing. -/
def step (b : Bench) : Operation → Bench
  | .newUnit name => { b with units := b.units ++ [.empty name] }
  | .addEdge i e =>
    match b.units[i]? with
    | some r => { b with units := b.units.set i (r.add e).1 }
    | none => b
  | .newGrouping name => { b with groupings := b.groupings ++ [.empty name] }
  | .addUnit i j =>
    match b.groupings[i]?, b.units[j]? with
    | some g, some u =>
      { b with
        groupings := b.groupings.set i (g.addUnit u).1
        units := b.units ++ (g.addUnit u).2.toList }
    | _, _ => b
  | .absorb i j =>
    match b.groupings[i]?, b.groupings[j]? with
    | some g, some other => { b with groupings := b.groupings.set i (g.absorb other) }
    | _, _ => b
  | .rename i name =>
    match b.groupings[i]? with
    | some g => { b with groupings := b.groupings.set i (g.rename name) }
    | none => b
  | .newTree name => { b with trees := b.trees ++ [.empty name] }
  | .addGrouping i j =>
    match b.trees[i]?, b.groupings[j]? with
    | some t, some g =>
      { b with
        trees := b.trees.set i (t.addGrouping g).1
        groupings := b.groupings ++ (t.addGrouping g).2.toList }
    | _, _ => b
  | .removeGrouping i name =>
    match b.trees[i]? with
    | some t =>
      { b with
        trees := b.trees.set i (t.removeGrouping name).1
        groupings := b.groupings ++ (t.removeGrouping name).2.toList }
    | none => b

def after (operations : List Operation) : Bench := operations.foldl step empty

structure Sound (b : Bench) : Prop where
  units : ∀ r ∈ b.units, r.Sound
  groupings : ∀ g ∈ b.groupings, g.Sound
  trees : ∀ t ∈ b.trees, t.Sound

end Bench

section Lists

variable {α : Type} {p : α → Prop} {xs : List α} (all : ∀ x ∈ xs, p x)

include all

theorem forall_mem_set (i : Nat) {y : α} (holds : p y) : ∀ x ∈ xs.set i y, p x := by
  intro x member
  rcases List.mem_or_eq_of_mem_set member with old | rfl
  · exact all x old
  · exact holds

theorem forall_mem_concat {y : α} (holds : p y) : ∀ x ∈ xs ++ [y], p x :=
  List.forall_mem_append.mpr ⟨all,by simpa using holds⟩

theorem forall_mem_append_toList {y : Option α} (holds : ∀ x, y = some x → p x) :
    ∀ x ∈ xs ++ y.toList, p x :=
  List.forall_mem_append.mpr ⟨all,fun x member => holds x (Option.mem_toList.mp member)⟩

end Lists

namespace Bench

theorem step_sound {b : Bench} (sound : b.Sound) (operation : Operation) : (b.step operation).Sound := by
  obtain ⟨units,groupings,trees⟩ := sound
  cases operation with
  | newUnit name => exact ⟨forall_mem_concat units (UnitReport.empty_sound name),groupings,trees⟩
  | addEdge i e =>
    simp only [step]
    split
    · rename_i r found
      have added := UnitReport.add_sound (units r (List.mem_of_getElem? found)) e
      exact ⟨forall_mem_set units i added,groupings,trees⟩
    · exact ⟨units,groupings,trees⟩
  | newGrouping name =>
    exact ⟨units,forall_mem_concat groupings (GroupingReport.empty_sound name),trees⟩
  | addUnit i j =>
    simp only [step]
    split
    · rename_i g u inGroupings inUnits
      have held := groupings g (List.mem_of_getElem? inGroupings)
      have added := GroupingReport.addUnit_sound held (units u (List.mem_of_getElem? inUnits))
      exact ⟨forall_mem_append_toList units fun r => held.unit?,forall_mem_set groupings i added,trees⟩
    · exact ⟨units,groupings,trees⟩
  | absorb i j =>
    simp only [step]
    split
    · rename_i g other inGroupings inOthers
      have taken := GroupingReport.absorb_sound (groupings g (List.mem_of_getElem? inGroupings))
        (groupings other (List.mem_of_getElem? inOthers))
      exact ⟨units,forall_mem_set groupings i taken,trees⟩
    · exact ⟨units,groupings,trees⟩
  | rename i name =>
    simp only [step]
    split
    · rename_i g found
      have renamed := GroupingReport.rename_sound (groupings g (List.mem_of_getElem? found)) name
      exact ⟨units,forall_mem_set groupings i renamed,trees⟩
    · exact ⟨units,groupings,trees⟩
  | newTree name => exact ⟨units,groupings,forall_mem_concat trees (TreeReport.empty_each name)⟩
  | addGrouping i j =>
    simp only [step]
    split
    · rename_i t g inTrees inGroupings
      have held := trees t (List.mem_of_getElem? inTrees)
      have added := held.addGrouping (groupings g (List.mem_of_getElem? inGroupings))
      exact ⟨units,forall_mem_append_toList groupings fun g replaced => (held.grouping? replaced).1,
        forall_mem_set trees i added⟩
    · exact ⟨units,groupings,trees⟩
  | removeGrouping i name =>
    simp only [step]
    split
    · rename_i t found
      have held := trees t (List.mem_of_getElem? found)
      exact ⟨units,forall_mem_append_toList groupings fun g removed => (held.grouping? removed).1,
        forall_mem_set trees i (held.removeGrouping name)⟩
    · exact ⟨units,groupings,trees⟩

theorem after_sound (operations : List Operation) : (after operations).Sound := by
  have general : ∀ b : Bench, b.Sound → (operations.foldl step b).Sound := by
    induction operations with
    | nil => exact fun b sound => sound
    | cons operation rest ih => exact fun b sound => ih (b.step operation) (step_sound sound operation)
  exact general empty ⟨by simp [empty],by simp [empty],by simp [empty]⟩

end Bench

/-- After any history of operations all reports are sound, the answer to a new edge says whether the unit
grew, and a write to a table replaces the entry of that name alone, in the table and in all counts. -/
theorem report_history_sound (operations : List Operation) :
    (Bench.after operations).Sound ∧
    (∀ r ∈ (Bench.after operations).units, ∀ e,
      ((r.add e).2 = true ↔ (r.add e).1.size = r.size + 1) ∧ ((r.add e).2 = false → (r.add e).1 = r)) ∧
    (∀ g ∈ (Bench.after operations).groupings, ∀ u,
      (g.addUnit u).1.unitCount + ((g.addUnit u).2.map fun _ => 1).getD 0 = g.unitCount + 1 ∧
      (g.addUnit u).1.dependencyCount + ((g.addUnit u).2.map UnitReport.size).getD 0 =
        g.dependencyCount + u.size ∧
      (g.addUnit u).2 = g.unit? u.name ∧
      ∀ name, (g.addUnit u).1.unit? name = if name = u.name then some u else g.unit? name) ∧
    ∀ t ∈ (Bench.after operations).trees, ∀ g,
      (t.addGrouping g).1.groupingCount + ((t.addGrouping g).2.map fun _ => 1).getD 0 =
        t.groupingCount + 1 ∧
      (t.addGrouping g).1.unitCount + ((t.addGrouping g).2.map GroupingReport.unitCount).getD 0 =
        t.unitCount + g.unitCount ∧
      (t.addGrouping g).1.dependencyCount +
          ((t.addGrouping g).2.map GroupingReport.dependencyCount).getD 0 =
        t.dependencyCount + g.dependencyCount ∧
      (t.addGrouping g).2 = t.grouping? g.name ∧
      ∀ name, (t.addGrouping g).1.grouping? name = if name = g.name then some g else t.grouping? name := by
  have sound := Bench.after_sound operations
  refine ⟨sound,fun r _ e => r.add_grows_iff e,fun g member u => ?_,fun t member g => ?_⟩
  · obtain ⟨units,dependencies⟩ :=
      GroupingReport.addUnit_counts (sound.groupings g member).toIndexed u
    exact ⟨units,dependencies,rfl,g.addUnit_unit? u⟩
  · obtain ⟨groupings,units,dependencies⟩ :=
      TreeReport.addGrouping_counts (sound.trees t member).toIndexed g
    exact ⟨groupings,units,dependencies,rfl,t.addGrouping_grouping? g⟩

def oneEdgeHistory : List Operation :=
  [.newUnit "A",.addEdge 0 ⟨"A","B",.field,"B b",some 1⟩,.newGrouping "p",.addUnit 0 0,.newTree "t",
    .addGrouping 0 0]

theorem report_history_sound_oneEdge :
    ∃ r ∈ (Bench.after oneEdgeHistory).units, ∃ g ∈ (Bench.after oneEdgeHistory).groupings,
      ∃ t ∈ (Bench.after oneEdgeHistory).trees, r.Sound ∧ r.size = 1 ∧
        (g.addUnit (.empty "A")).2 = some r ∧ (g.addUnit (.empty "A")).1.dependencyCount + 1 = 1 ∧
        (t.addGrouping (.empty "p")).2 = some g ∧ (t.addGrouping (.empty "p")).1.unitCount + 1 = 1 := by
  obtain ⟨sound,-,units,groupings⟩ := report_history_sound oneEdgeHistory
  have made : Bench.after oneEdgeHistory =
      let r : UnitReport := ⟨"A",[⟨"A","B",.field,"B b",some 1⟩]⟩
      let g : GroupingReport := ⟨"p",[("A",r)]⟩
      ⟨[r],[g],[⟨"t",[("p",g)]⟩]⟩ := rfl
  rw [made] at sound units groupings ⊢
  have unitWritten := units _ (List.mem_singleton_self _) (.empty "A")
  have groupingWritten := groupings _ (List.mem_singleton_self _) (.empty "p")
  refine ⟨_,List.mem_singleton_self _,_,List.mem_singleton_self _,_,List.mem_singleton_self _,
    sound.units _ (List.mem_singleton_self _),rfl,rfl,unitWritten.2.1,rfl,groupingWritten.2.1⟩

end Coupling
