import Coupling.Proofs.Run.ReceiveOrder
import Coupling.Proofs.Run.SingleUnit
import Mathlib.Data.List.Dedup

/-! The report of a tree from the drafts of its directories. Drafts that finish under one name become one
grouping, which has all their units; of units with one name it has the one of the last directory. -/
namespace Coupling

/-! ## Groupings that take in others -/

theorem GroupingReport.absorb_unit? {g other : GroupingReport} (indexed : other.Indexed) (name : String) :
    (g.absorb other).unit? name = (other.unit? name).or (g.unit? name) := by
  obtain ⟨title,units⟩ := other
  obtain ⟨sorted,own⟩ := indexed
  simp only [unitNames,absorb,unit?] at sorted own ⊢
  induction units generalizing g with
  | nil => rfl
  | cons entry rest ih =>
    obtain ⟨head,tail⟩ := List.pairwise_cons.mp sorted
    obtain ⟨first,later⟩ := List.forall_mem_cons.mp own
    rw [List.foldl_cons, ih tail later, ← unit?, addUnit_unit?, first]
    by_cases same : name = entry.1
    · subst same
      have missing : Sorted.find? entry.1 rest = none := Sorted.find?_eq_none_of_lt head
      simp [Sorted.find?,missing]
    · simp [Sorted.find?,same,unit?]

namespace TreeReport

/-- Groupings stand under their own names, and so do the units in each of them. -/
abbrev Keyed (t : TreeReport) : Prop := t.Each GroupingReport.Indexed

def unitIn? (t : TreeReport) (grouping unit : String) : Option UnitReport :=
  (t.grouping? grouping).bind (·.unit? unit)

theorem removeGrouping_grouping? {t : TreeReport} (indexed : t.Indexed) (name other : String) :
    (t.removeGrouping name).1.grouping? other = if other = name then none else t.grouping? other := by
  simp only [TreeReport.grouping?,removeGrouping,Sorted.find?_erase indexed.sorted,
    Std.LawfulEqOrd.compare_eq_iff_eq]

theorem fold_keyed {t : TreeReport} (keyed : t.Keyed) {g : GroupingReport} (indexed : g.Indexed) :
    (t.fold g).Keyed := by
  have removed := keyed.removeGrouping g.name
  cases found : t.grouping? g.name with
  | none =>
    rw [fold_of_not_found found]
    exact removed.addGrouping indexed
  | some existing =>
    rw [fold_of_found found]
    exact removed.addGrouping (GroupingReport.absorb_indexed (keyed.grouping? found).1 g)

/-- What becomes of the grouping under the name of the one that is added; no other is touched. -/
theorem fold_grouping? {t : TreeReport} (keyed : t.Keyed) (g : GroupingReport) (name : String) :
    (t.fold g).grouping? name =
      if name = g.name then some (((t.grouping? name).map (·.absorb g)).getD g)
      else t.grouping? name := by
  cases found : t.grouping? g.name with
  | none =>
    rw [fold_of_not_found found, addGrouping_grouping?, removeGrouping_grouping? keyed.toIndexed]
    split
    · rename_i same
      simp [same,found]
    · rfl
  | some existing =>
    rw [fold_of_found found, addGrouping_grouping?, removeGrouping_grouping? keyed.toIndexed,
      GroupingReport.absorb_name, (keyed.grouping? found).2]
    split
    · rename_i same
      simp [same,found]
    · rfl

/-- The unit of that name which a grouping brings in. -/
def brought (grouping unit : String) (g : GroupingReport) : Option UnitReport :=
  if g.name = grouping then g.unit? unit else none

theorem fold_unitIn? {t : TreeReport} (keyed : t.Keyed) {g : GroupingReport} (indexed : g.Indexed)
    (grouping unit : String) :
    (t.fold g).unitIn? grouping unit = (brought grouping unit g).or (t.unitIn? grouping unit) := by
  unfold unitIn? brought
  rw [fold_grouping? keyed]
  by_cases same : g.name = grouping
  · subst same
    cases found : t.grouping? g.name with
    | none => simp
    | some existing => simp [GroupingReport.absorb_unit? indexed]
  · simp [same,Ne.symm same]

/-! ## Trees made of groupings -/

section Foldl

variable {gs : List GroupingReport} {t : TreeReport} (indexed : ∀ g ∈ gs, g.Indexed) (keyed : t.Keyed)

include indexed keyed

theorem foldl_keyed : (gs.foldl fold t).Keyed := by
  induction gs generalizing t with
  | nil => exact keyed
  | cons g gs ih =>
    obtain ⟨first,later⟩ := List.forall_mem_cons.mp indexed
    exact ih later (fold_keyed keyed first)

theorem foldl_grouping?_isSome (name : String) :
    ((gs.foldl fold t).grouping? name).isSome ↔
      (∃ g ∈ gs, g.name = name) ∨ (t.grouping? name).isSome := by
  induction gs generalizing t with
  | nil => simp
  | cons g gs ih =>
    obtain ⟨first,later⟩ := List.forall_mem_cons.mp indexed
    rw [List.foldl_cons, ih later (fold_keyed keyed first), fold_grouping? keyed]
    by_cases same : name = g.name
    · simp [same]
    · simp [same,Ne.symm same]

/-- The last grouping that brings in a unit decides. -/
theorem foldl_unitIn? (grouping unit : String) :
    (gs.foldl fold t).unitIn? grouping unit =
      (gs.reverse.findSome? (brought grouping unit)).or (t.unitIn? grouping unit) := by
  induction gs generalizing t with
  | nil => rfl
  | cons g gs ih =>
    obtain ⟨first,later⟩ := List.forall_mem_cons.mp indexed
    rw [List.foldl_cons, ih later (fold_keyed keyed first), fold_unitIn? keyed first,
      List.reverse_cons, List.findSome?_append, List.findSome?_singleton, Option.or_assoc]

end Foldl

theorem Keyed.groupingNames_perm {t : TreeReport} (keyed : t.Keyed) {names : List String}
    (same : ∀ name, (t.grouping? name).isSome ↔ name ∈ names) :
    t.groupingNames.Perm names.dedup := by
  refine (List.perm_ext_iff_of_nodup keyed.sorted.nodup (List.nodup_dedup names)).mpr fun name => ?_
  rw [List.mem_dedup, ← same]
  exact Sorted.mem_keys_iff

/-- The counts of a tree, where it is known which names its groupings and their units have. -/
theorem Keyed.counts {t : TreeReport} (keyed : t.Keyed) {names : List String}
    {units : String → List String} (sameNames : ∀ name, (t.grouping? name).isSome ↔ name ∈ names)
    (sameUnits : ∀ name unit, (t.unitIn? name unit).isSome ↔ unit ∈ units name) :
    t.groupingCount = names.dedup.length ∧
      t.unitCount = names.dedup.foldr (fun name n => (units name).dedup.length + n) 0 := by
  have perm := keyed.groupingNames_perm sameNames
  have unitCounts : ∀ entry ∈ t.groupings, entry.2.unitCount = (units entry.1).dedup.length := by
    intro entry member
    have found : t.grouping? entry.1 = some entry.2 :=
      (Sorted.find?_eq_some_iff keyed.sorted).mpr member
    have distinct := (keyed.groupings entry member).sorted.nodup
    have unitPerm : entry.2.unitNames.Perm (units entry.1).dedup := by
      refine (List.perm_ext_iff_of_nodup distinct (List.nodup_dedup _)).mpr fun unit => ?_
      rw [List.mem_dedup, ← sameUnits, GroupingReport.mem_unitNames_iff, unitIn?, found]
      rfl
    simpa [GroupingReport.unitNames,GroupingReport.unitCount] using unitPerm.length_eq
  constructor
  · simpa [groupingNames,groupingCount] using perm.length_eq
  · rw [unitCount_eq_total, Sorted.total_eq_foldr_keys (f := fun name => (units name).dedup.length) unitCounts]
    exact perm.foldr_eq' (fun _ _ _ _ n => by omega) 0

end TreeReport

/-! ## Drafts -/

/-- The successful units of a directory, in the order in which they came in. -/
structure Intake where
  directory : Path
  arrivals : List Arrival

namespace Intake

def draft (i : Intake) : GroupingDraft :=
  i.arrivals.foldl (fun d a => d.merge a.1 a.2) (.empty i.directory)

theorem draft_concat (directory : Path) (arrivals : List Arrival) (a : Arrival) :
    (mk directory (arrivals ++ [a])).draft = (mk directory arrivals).draft.merge a.1 a.2 := by
  simp [draft]

theorem draft_holds (i : Intake) : i.draft.Holds i.directory i.arrivals := by
  have run : ∀ (later earlier : List Arrival) (d : GroupingDraft), d.Holds i.directory earlier →
      (later.foldl (fun d a => d.merge a.1 a.2) d).Holds i.directory (earlier ++ later) := by
    intro later
    induction later with
    | nil => simp
    | cons a rest ih =>
      intro earlier d holds
      simpa using ih _ _ (holds.merge a.1 a.2)
  exact run i.arrivals [] _ (GroupingDraft.empty_holds i.directory)

end Intake

namespace GroupingDraft

def finished (d : GroupingDraft) : GroupingReport := d.report.rename d.name

/-- A draft finishes exactly if a unit has come in. -/
theorem filterMap_finish (intakes : List Intake) :
    (intakes.map Intake.draft).filterMap finish =
      ((intakes.filter (!·.arrivals.isEmpty)).map Intake.draft).map finished := by
  induction intakes with
  | nil => rfl
  | cons i rest ih =>
    have filled := i.draft_holds.isEmpty_iff
    by_cases nothing : i.arrivals = []
    · simp [finish,filled,nothing,ih]
    · simp [finish,filled,nothing,finished,ih]

theorem brought_finished (grouping unit : String) (d : GroupingDraft) :
    TreeReport.brought grouping unit d.finished =
      if d.name = grouping then d.report.unit? unit else none := rfl

/-- The last draft under a name that has a unit. -/
theorem findSome?_brought {drafts : List GroupingDraft} {grouping unit : String} {r : UnitReport} :
    (drafts.map finished).reverse.findSome? (TreeReport.brought grouping unit) = some r ↔
      ∃ before d after, drafts = before ++ d :: after ∧ d.name = grouping ∧
        d.report.unit? unit = some r ∧ ∀ e ∈ after, e.name = grouping → e.report.unit? unit = none := by
  have brings (d : GroupingDraft) :
      TreeReport.brought grouping unit d.finished = some r ↔
        d.name = grouping ∧ d.report.unit? unit = some r := by
    simp [brought_finished]
  have passes (d : GroupingDraft) :
      TreeReport.brought grouping unit d.finished = none ↔
        (d.name = grouping → d.report.unit? unit = none) := by
    simp [brought_finished]
  rw [← List.map_reverse, List.findSome?_map, List.findSome?_eq_some_iff]
  simp only [Function.comp_apply,brings,passes]
  constructor
  · rintro ⟨later,d,earlier,split,⟨named,found⟩,others⟩
    have order := congrArg List.reverse split
    simp only [List.reverse_reverse,List.reverse_append,List.reverse_cons,List.append_assoc,
      List.singleton_append] at order
    exact ⟨earlier.reverse,d,later.reverse,order,named,found,fun e member =>
      others e (List.mem_reverse.mp member)⟩
  · rintro ⟨before,d,after,rfl,named,found,others⟩
    exact ⟨after.reverse,d,before.reverse,by simp,⟨named,found⟩,fun e member =>
      others e (List.mem_reverse.mp member)⟩

theorem finished_indexed {intakes : List Intake} :
    ∀ g ∈ (intakes.map Intake.draft).map finished, g.Indexed := by
  intro g member
  obtain ⟨_,inDrafts,rfl⟩ := List.mem_map.mp member
  obtain ⟨i,-,rfl⟩ := List.mem_map.mp inDrafts
  exact GroupingReport.rename_indexed i.draft_holds.indexed _

/-- The names of all units that drafts bring into a grouping. -/
theorem findSome?_brought_isSome {drafts : List GroupingDraft} {grouping unit : String} :
    ((drafts.map finished).reverse.findSome? (TreeReport.brought grouping unit)).isSome ↔
      unit ∈ (drafts.filter (·.name == grouping)).flatMap (·.report.unitNames) := by
  rw [List.findSome?_isSome_iff]
  simp only [List.mem_reverse,List.mem_map,exists_exists_and_eq_and,brought_finished,
    List.mem_flatMap,List.mem_filter,beq_iff_eq,GroupingReport.mem_unitNames_iff]
  constructor
  · rintro ⟨d,member,found⟩
    split at found
    · exact ⟨d,⟨member,‹_›⟩,found⟩
    · cases found
  · rintro ⟨d,⟨member,named⟩,found⟩
    exact ⟨d,member,by rwa [if_pos named]⟩

end GroupingDraft

/-! ## Drafts of a run -/

namespace Run

def intakes (directories : List Path) (log : List Receipt) : List Intake :=
  directories.mapIdx fun i directory => ⟨directory,arrivals i log⟩

theorem mergeReceipt_intakes (directories : List Path) (log : List Receipt) (r : Receipt) :
    mergeReceipt ((intakes directories log).map Intake.draft) r =
      (intakes directories (log ++ [r])).map Intake.draft := by
  obtain ⟨job,outcome⟩ := r
  apply List.ext_getElem?
  intro i
  cases outcome with
  | error e => simp [mergeReceipt,intakes,arrivals_concat,arrival?]
  | ok unit =>
    by_cases here : job.grouping = i
    · cases found : directories[i]? <;>
        simp [mergeReceipt,intakes,arrivals_concat,arrival?,here,found,Intake.draft_concat]
    · simp [mergeReceipt,intakes,arrivals_concat,arrival?,here]

theorem merged_eq (directories : List Path) (log : List Receipt) :
    merged directories log = (intakes directories log).map Intake.draft := by
  have run : ∀ later earlier : List Receipt,
      later.foldl mergeReceipt ((intakes directories earlier).map Intake.draft) =
        (intakes directories (earlier ++ later)).map Intake.draft := by
    intro later
    induction later with
    | nil => simp
    | cons r rest ih =>
      intro earlier
      rw [List.foldl_cons, mergeReceipt_intakes, ih, List.append_assoc, List.singleton_append]
  have start : directories.map GroupingDraft.empty = (intakes directories []).map Intake.draft := by
    apply List.ext_getElem?
    intro i
    cases directory : directories[i]? <;> simp [intakes,directory,arrivals,Intake.draft]
  rw [merged, start, run, List.nil_append]

end Run

/-- A tree that is analyzed has an outcome for each of its units, and its report is made of the drafts that
these leave, in the order of the directories. -/
theorem analyzeTree_report {env : Environment} {root : Path} {a : Analysis TreeReport}
    (valid : env.config.validate = .ok ()) (result : (analyzeTree env root).result = .ok a) :
    ∃ (scope : Scope) (log : List Run.Receipt) (s : Run.State), treeScope env root = .ok scope ∧
      Run.Reached (.ofScope env scope) (Progress.start.enter .discovering) log s ∧
      (log.map Prod.fst).Perm (Run.jobsOf scope.tree) ∧
      a.report = .ofDrafts (treeName env.files root)
        ((Run.intakes scope.tree.directories log).map Intake.draft) := by
  unfold analyzeTree analyzeScope at result
  cases found : treeScope env root with
  | error e =>
    rw [found] at result
    cases result
  | ok scope =>
    have positive : 0 < (Run.Plan.ofScope env scope).limit := Run.limit_pos valid
    obtain ⟨log,reached,stopped⟩ := Run.execute_over positive (Run.workers_pos valid)
      ⟨env.reader.delay,env.config.admissionTimeout⟩ (Progress.start.enter .discovering)
    simp only [found,ofResult_result] at result
    generalize Run.execute _ _ _ = s at result reached stopped
    unfold Run.State.conclude at result
    split at result
    · cases result
    · rename_i drafts failures collected
      obtain ⟨completed,rfl,-⟩ := (reached.ending positive stopped).of_ok collected
      cases result
      refine ⟨scope,log,s,rfl,reached,(reached.received_all positive completed).2,?_⟩
      rw [reached.collected.drafts, Run.merged_eq]
      rfl

/-! ## The assembly -/

/-- The report of a tree has a grouping for every name under which a draft finishes, and in it the units
of all drafts that do; where several have a unit of one name, it is that of the last directory. -/
theorem tree_assembly :
    (∀ env root a, env.config.validate = .ok () → (analyzeTree env root).result = .ok a →
      ∃ (scope : Scope) (log : List Run.Receipt) (s : Run.State), treeScope env root = .ok scope ∧
        Run.Reached (.ofScope env scope) (Progress.start.enter .discovering) log s ∧
        (log.map Prod.fst).Perm (Run.jobsOf scope.tree) ∧
        a.report = .ofDrafts (treeName env.files root)
          ((Run.intakes scope.tree.directories log).map Intake.draft)) ∧
    ∀ (name : String) (intakes : List Intake),
      let t := TreeReport.ofDrafts name (intakes.map Intake.draft)
      let drafts := (intakes.filter (!·.arrivals.isEmpty)).map Intake.draft
      (intakes.map Intake.draft).filterMap GroupingDraft.finish =
        drafts.map (fun d => d.report.rename d.name) ∧
      t.Keyed ∧
      (∀ g, (t.grouping? g).isSome ↔ ∃ d ∈ drafts, d.name = g) ∧
      (∀ g u r, t.unitIn? g u = some r ↔
        ∃ before d after, drafts = before ++ d :: after ∧ d.name = g ∧ d.report.unit? u = some r ∧
          ∀ e ∈ after, e.name = g → e.report.unit? u = none) ∧
      t.groupingCount = (drafts.map GroupingDraft.name).dedup.length ∧
      t.unitCount = (drafts.map GroupingDraft.name).dedup.foldr (fun g n =>
        ((drafts.filter (·.name == g)).flatMap (·.report.unitNames)).dedup.length + n) 0 := by
  refine ⟨fun env root a => analyzeTree_report,fun name intakes => ?_⟩
  intro t drafts
  have made : t = (drafts.map GroupingDraft.finished).foldl TreeReport.fold (.empty name) :=
    congrArg (List.foldl TreeReport.fold (.empty name)) (GroupingDraft.filterMap_finish intakes)
  have indexed : ∀ g ∈ drafts.map GroupingDraft.finished, g.Indexed := GroupingDraft.finished_indexed
  have keyed : t.Keyed := by
    rw [made]
    exact TreeReport.foldl_keyed indexed (TreeReport.empty_each name)
  have present (g : String) : (t.grouping? g).isSome ↔ ∃ d ∈ drafts, d.name = g := by
    rw [made, TreeReport.foldl_grouping?_isSome indexed (TreeReport.empty_each name)]
    simp [GroupingDraft.finished,GroupingReport.rename,TreeReport.empty,TreeReport.grouping?,Sorted.find?]
  have units (g u : String) : t.unitIn? g u =
      (drafts.map GroupingDraft.finished).reverse.findSome? (TreeReport.brought g u) := by
    rw [made, TreeReport.foldl_unitIn? indexed (TreeReport.empty_each name)]
    exact Option.or_none
  have counts := keyed.counts (fun g => (present g).trans List.mem_map.symm) fun g u =>
    (units g u) ▸ GroupingDraft.findSome?_brought_isSome
  exact ⟨GroupingDraft.filterMap_finish intakes,keyed,present,fun g u r =>
    (units g u) ▸ GroupingDraft.findSome?_brought,counts⟩

/-- A unit of a package, and a unit without one in a directory that is called like the package. -/
def sharedFiles : Environment where
  files := ⟨.directory "" [.directory "d" [.file "X.java" [],.directory "p" [.file "Y.java" []]]],[]⟩
  reader := ⟨fun unit => .text (if unit = ⟨"d/X.java"⟩ then "package p;" else ""),fun _ => 0⟩
  config := .default

def packaged : Intake :=
  ⟨⟨"src/a"⟩,[(⟨"src/a/X.java"⟩,⟨⟨"X",[]⟩,some "p"⟩),(⟨"src/a/Y.java"⟩,⟨⟨"Y",[]⟩,some "p"⟩)]⟩

def namesake : Intake :=
  ⟨⟨"src/p"⟩,[(⟨"src/p/X.java"⟩,⟨⟨"X",[⟨"X","Z",.field,"Z z",some 1⟩]⟩,none⟩)]⟩

def sharedName : List Intake := [packaged,⟨⟨"src/b"⟩,[]⟩,namesake]

theorem tree_assembly_sharedName :
    (∃ a scope log, (analyzeTree sharedFiles ⟨"d"⟩).result = .ok a ∧ a.report.unitCount = 2 ∧
      treeScope sharedFiles ⟨"d"⟩ = .ok scope ∧ (log.map Prod.fst).Perm (Run.jobsOf scope.tree) ∧
      a.report = .ofDrafts (treeName sharedFiles.files ⟨"d"⟩)
        ((Run.intakes scope.tree.directories log).map Intake.draft)) ∧
    let t := TreeReport.ofDrafts "src" (sharedName.map Intake.draft)
    t.groupingCount = 1 ∧ t.unitCount = 2 ∧
      t.unitIn? "p" "X" = some ⟨"X",[⟨"X","Z",.field,"Z z",some 1⟩]⟩ ∧
      t.unitIn? "p" "Y" = some ⟨"Y",[]⟩ := by
  obtain ⟨reported,assembled⟩ := tree_assembly
  constructor
  · have shown : (analyzeTree sharedFiles ⟨"d"⟩).result.toOption.map (·.report.unitCount) = some 2 := by
      decide +kernel
    cases ended : (analyzeTree sharedFiles ⟨"d"⟩).result with
    | error e => simp [ended,Except.toOption] at shown
    | ok a =>
      obtain ⟨scope,log,_,found,-,each,report⟩ := reported _ _ _ rfl ended
      exact ⟨a,scope,log,rfl,by simpa [ended,Except.toOption] using shown,found,each,report⟩
  · obtain ⟨-,-,-,units,groupingCount,unitCount⟩ := assembled "src" sharedName
    refine ⟨groupingCount.trans (by decide),unitCount.trans (by decide),?_,?_⟩
    · exact (units "p" "X" _).mpr ⟨[packaged.draft],namesake.draft,[],rfl,rfl,rfl,by simp⟩
    · exact (units "p" "Y" _).mpr ⟨[],packaged.draft,[namesake.draft],rfl,rfl,rfl,by decide⟩

end Coupling
