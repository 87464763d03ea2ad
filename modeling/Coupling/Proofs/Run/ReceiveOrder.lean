import Coupling.Proofs.Run.Aggregation
import Coupling.Proofs.SourceTree

/-! Outcomes come in any order. What they leave in the drafts shows that order only where two units of one
directory have the same name. -/
namespace Coupling.Run

open State

/-! ## Units of one directory -/

def arrival? (i : Nat) (r : Receipt) : Option Arrival :=
  match r.2 with
  | .ok unit => if r.1.grouping = i then some (r.1.path,unit) else none
  | .error _ => none

def arrivals (i : Nat) (log : List Receipt) : List Arrival := log.filterMap (arrival? i)

theorem arrivals_concat (i : Nat) (log : List Receipt) (r : Receipt) :
    arrivals i (log ++ [r]) = arrivals i log ++ (arrival? i r).toList := by
  cases found : arrival? i r <;> simp [arrivals,found]

theorem arrival?_eq_some_iff {i : Nat} {r : Receipt} {path : Path} {unit : ClassifiedUnit} :
    arrival? i r = some (path,unit) ↔ r = (⟨i,path⟩,.ok unit) := by
  obtain ⟨⟨grouping,p⟩,outcome⟩ := r
  cases outcome with
  | ok u =>
    by_cases here : grouping = i
    · simp [arrival?,here]
    · simp [arrival?,here]
  | error e => simp [arrival?]

theorem mem_arrivals {i : Nat} {log : List Receipt} {path : Path} {unit : ClassifiedUnit} :
    (path,unit) ∈ arrivals i log ↔ ((⟨i,path⟩,.ok unit) : Receipt) ∈ log := by
  simp only [arrivals,List.mem_filterMap,arrival?_eq_some_iff]
  constructor
  · rintro ⟨r,member,rfl⟩
    exact member
  · exact fun member => ⟨_,member,rfl⟩

/-- The last arrival under a name, found in the log itself. -/
theorem lastNamed_arrivals {i : Nat} {log : List Receipt} {name : String} {r : UnitReport} :
    lastNamed name (arrivals i log) = some r ↔ ∃ before path unit after,
      log = before ++ (⟨i,path⟩,.ok unit) :: after ∧ unit.report = r ∧ r.name = name ∧
      ∀ path' unit', ((⟨i,path'⟩,.ok unit') : Receipt) ∈ after → unit'.report.name ≠ name := by
  rw [lastNamed_eq_some_iff]
  constructor
  · rintro ⟨before,⟨path,unit⟩,after,split,report,named,later⟩
    obtain ⟨log₁,log₂,rfl,rfl,tail⟩ := List.filterMap_eq_append_iff.mp split
    obtain ⟨skipped,receipt,rest,rfl,silent,arrived,rfl⟩ := List.filterMap_eq_cons_iff.mp tail
    cases arrival?_eq_some_iff.mp arrived
    refine ⟨log₁ ++ skipped,path,unit,rest,by simp,report,named,?_⟩
    exact fun path' unit' member => later (path',unit') (mem_arrivals.mpr member)
  · rintro ⟨before,path,unit,after,rfl,report,named,later⟩
    refine ⟨arrivals i before,(path,unit),arrivals i after,?_,report,named,?_⟩
    · simp [arrivals,arrival?]
    · rintro ⟨path',unit'⟩ member
      exact later path' unit' (mem_arrivals.mp member)

/-! ## Drafts after receipts -/

/-- Each directory has a draft that holds its successful units. -/
structure Gathered (directories : List Path) (log : List Receipt) (drafts : List GroupingDraft) :
    Prop where
  length : drafts.length = directories.length
  holds : ∀ i directory, directories[i]? = some directory →
    ∃ d : GroupingDraft, drafts[i]? = some d ∧ d.Holds directory (arrivals i log)

theorem Gathered.receipt {directories : List Path} {log : List Receipt} {drafts : List GroupingDraft}
    (gathered : Gathered directories log drafts) (r : Receipt) :
    Gathered directories (log ++ [r]) (mergeReceipt drafts r) where
  length := by
    have length := gathered.length
    unfold mergeReceipt
    split <;> simpa using length
  holds i directory found := by
    obtain ⟨d,atIndex,holds⟩ := gathered.holds i directory found
    obtain ⟨job,outcome⟩ := r
    cases outcome with
    | error e =>
      refine ⟨d,atIndex,?_⟩
      simpa [arrivals_concat,arrival?] using holds
    | ok unit =>
      simp only [mergeReceipt,List.getElem?_modify,atIndex]
      by_cases here : job.grouping = i
      · refine ⟨d.merge job.path unit,by simp [here],?_⟩
        simpa [arrivals_concat,arrival?,here] using holds.merge job.path unit
      · refine ⟨d,by simp [here],?_⟩
        simpa [arrivals_concat,arrival?,here] using holds

theorem gathered_merged (directories : List Path) (log : List Receipt) :
    Gathered directories log (merged directories log) := by
  have run : ∀ (later earlier : List Receipt) (drafts : List GroupingDraft),
      Gathered directories earlier drafts →
      Gathered directories (earlier ++ later) (later.foldl mergeReceipt drafts) := by
    intro later
    induction later with
    | nil => simp
    | cons r rest ih =>
      intro earlier drafts gathered
      simpa using ih _ _ (gathered.receipt r)
  refine run log [] _ ⟨by simp,?_⟩
  intro i directory found
  exact ⟨.empty directory,by simp [found],GroupingDraft.empty_holds directory⟩

/-- Drafts of the same directories are compared one by one. -/
theorem Gathered.map_eq {β : Type} {directories : List Path} {log log' : List Receipt}
    {ds es : List GroupingDraft} {f : GroupingDraft → β} (left : Gathered directories log ds)
    (right : Gathered directories log' es)
    (agree : ∀ i directory (d e : GroupingDraft), d.Holds directory (arrivals i log) →
      e.Holds directory (arrivals i log') → f d = f e) : ds.map f = es.map f := by
  apply List.ext_getElem?
  intro i
  cases found : directories[i]? with
  | none =>
    have outside := List.getElem?_eq_none_iff.mp found
    have length := left.length
    have length' := right.length
    rw [List.getElem?_eq_none (by simp; omega), List.getElem?_eq_none (by simp; omega)]
  | some directory =>
    obtain ⟨d,atD,holdsD⟩ := left.holds i directory found
    obtain ⟨e,atE,holdsE⟩ := right.holds i directory found
    simp [atD,atE,agree i directory d e holdsD holdsE]

/-! ## Runs over a tree -/

structure Plan.Covers (plan : Plan) (tree : SourceTree) : Prop where
  positive : 0 < plan.limit
  directories : plan.directories = tree.directories
  jobs : plan.jobs = jobsOf tree

/-- A run over a tree that was not aborted, and in which each unit ended as it is assigned to. -/
structure Completes (tree : SourceTree) (assign : Job → Outcome) (log : List Receipt) (s : State) :
    Prop where
  planned : ∃ plan progress, plan.Covers tree ∧ Reached plan progress log s
  completed : s.status = .completed
  assigned : ∀ r ∈ log, r.2 = assign r.1

def Succeeds (assign : Job → Outcome) (i : Nat) (members : List Path) (path : Path)
    (unit : ClassifiedUnit) : Prop :=
  path ∈ members ∧ assign ⟨i,path⟩ = .ok unit

def Distinct (tree : SourceTree) (assign : Job → Outcome) : Prop :=
  ∀ i g, tree.groupings[i]? = some g → ∀ path unit path' unit',
    Succeeds assign i g.2 path unit → Succeeds assign i g.2 path' unit' →
    unit.report.name = unit'.report.name → path = path'

namespace Completes

variable {tree : SourceTree} {assign : Job → Outcome} {log log' : List Receipt} {s s' : State}

theorem mem_log (run : Completes tree assign log s) (r : Receipt) :
    r ∈ log ↔ r.1 ∈ jobsOf tree ∧ r.2 = assign r.1 := by
  obtain ⟨plan,progress,covers,reached⟩ := run.planned
  have all := reached.received_assigned covers.positive run.completed run.assigned
  rw [all.mem_iff, covers.jobs, List.mem_map]
  constructor
  · rintro ⟨job,scheduled,rfl⟩
    exact ⟨scheduled,rfl⟩
  · rintro ⟨scheduled,outcome⟩
    exact ⟨r.1,scheduled,Prod.ext rfl outcome.symm⟩

theorem gathered (run : Completes tree assign log s) : Gathered tree.directories log s.drafts := by
  obtain ⟨plan,progress,covers,reached⟩ := run.planned
  rw [reached.collected.drafts, covers.directories]
  exact gathered_merged tree.directories log

theorem mem_arrivals_iff (run : Completes tree assign log s) {i : Nat} {g : Path × List Path}
    (found : tree.groupings[i]? = some g) (path : Path) (unit : ClassifiedUnit) :
    (path,unit) ∈ arrivals i log ↔ Succeeds assign i g.2 path unit := by
  have inside : (⟨i,path⟩ : Job) ∈ jobsOf tree ↔ path ∈ g.2 := by
    rw [mem_jobsOf]
    simp only [found,Option.some.injEq,exists_eq_left']
  rw [mem_arrivals, run.mem_log, inside, Succeeds, eq_comm (a := Except.ok unit)]

theorem same_arrivals (run : Completes tree assign log s) (other : Completes tree assign log' s')
    (i : Nat) (a : Arrival) : a ∈ arrivals i log ↔ a ∈ arrivals i log' := by
  obtain ⟨path,unit⟩ := a
  rw [mem_arrivals, mem_arrivals, run.mem_log, other.mem_log]

/-- Units of one directory have different paths. -/
theorem apart (run : Completes tree assign log s) (ordered : tree.Ordered) (i : Nat) :
    ∀ a ∈ arrivals i log, ∀ b ∈ arrivals i log, compare a.1 b.1 = .eq → a = b := by
  rintro ⟨path,unit⟩ inA ⟨path',unit'⟩ inB equal
  obtain ⟨scheduled,-⟩ := (run.mem_log _).mp (mem_arrivals.mp inA)
  obtain ⟨g,found,-⟩ := mem_jobsOf.mp scheduled
  obtain ⟨memberA,outcomeA⟩ := (run.mem_arrivals_iff found path unit).mp inA
  obtain ⟨memberB,outcomeB⟩ := (run.mem_arrivals_iff found path' unit').mp inB
  have strict := ordered.units g (List.mem_of_getElem? found)
  cases strict.eq_of_compare memberA memberB equal
  cases outcomeA.symm.trans outcomeB
  rfl

theorem drafts_eq (run : Completes tree assign log s) (other : Completes tree assign log' s')
    (ordered : tree.Ordered) (distinct : Distinct tree assign) : s.drafts = s'.drafts := by
  have one : s.drafts.map id = s'.drafts.map id := by
    refine run.gathered.map_eq other.gathered ?_
    intro i directory d e holdsD holdsE
    refine holdsD.eq_of_distinct holdsE (run.same_arrivals other i) (run.apart ordered i) ?_
    rintro ⟨path,unit⟩ inA ⟨path',unit'⟩ inB named
    obtain ⟨scheduled,-⟩ := (run.mem_log _).mp (mem_arrivals.mp inA)
    obtain ⟨g,found,-⟩ := mem_jobsOf.mp scheduled
    have successA := (run.mem_arrivals_iff found path unit).mp inA
    have successB := (run.mem_arrivals_iff found path' unit').mp inB
    have same := distinct i g found path unit path' unit' successA successB named
    exact run.apart ordered i _ inA _ inB (by simp [same])
  simpa using one

theorem outlines_eq (run : Completes tree assign log s) (other : Completes tree assign log' s')
    (ordered : tree.Ordered) :
    s.drafts.map (fun d => d.finish.map GroupingReport.outline) =
      s'.drafts.map (fun d => d.finish.map GroupingReport.outline) := by
  refine run.gathered.map_eq other.gathered ?_
  intro i directory d e holdsD holdsE
  exact holdsD.outline_finish_eq holdsE (run.same_arrivals other i) (run.apart ordered i)

theorem indexed (run : Completes tree assign log s) : ∀ d ∈ s.drafts, d.report.Indexed := by
  intro d member
  obtain ⟨i,bound,rfl⟩ := List.mem_iff_getElem.mp member
  have length := run.gathered.length
  obtain ⟨e,atIndex,holds⟩ := run.gathered.holds i _ (List.getElem?_eq_getElem (length ▸ bound))
  cases (List.getElem?_eq_getElem bound).symm.trans atIndex
  exact holds.indexed

end Completes

/-- What a directory's grouping is, given how its units end and the order in which they came. -/
structure Described (assign : Job → Outcome) (log : List Receipt) (i : Nat) (directory : Path)
    (members : List Path) (g : GroupingReport) : Prop where
  named :
    (∃ path unit, Succeeds assign i members path unit ∧ unit.Declares g.name ∧
      ∀ path' unit' package, Succeeds assign i members path' unit' → unit'.Declares package →
        (compare path path').isLE) ∨
    ((∀ path unit package, Succeeds assign i members path unit → ¬unit.Declares package) ∧
      g.name = directory.directoryName)
  unitNames : ∀ name, name ∈ g.unitNames ↔
    ∃ path unit, Succeeds assign i members path unit ∧ unit.report.name = name
  latest : ∀ name r, g.unit? name = some r ↔ ∃ before path unit after,
    log = before ++ (⟨i,path⟩,.ok unit) :: after ∧ unit.report = r ∧ r.name = name ∧
    ∀ path' unit', ((⟨i,path'⟩,.ok unit') : Receipt) ∈ after → unit'.report.name ≠ name

theorem Completes.described {tree : SourceTree} {assign : Job → Outcome} {log : List Receipt}
    {s : State} (run : Completes tree assign log s) {i : Nat} {directory : Path} {members : List Path}
    (found : tree.groupings[i]? = some (directory,members)) {d : GroupingDraft} {g : GroupingReport}
    (holds : d.Holds directory (arrivals i log)) (finished : d.finish = some g) :
    Described assign log i directory members g := by
  have success := run.mem_arrivals_iff found
  rw [GroupingDraft.eq_rename_of_finish finished]
  refine ⟨?_,?_,?_⟩
  · rcases holds.name_cases with ⟨path,unit,member,declares,least⟩ | ⟨undeclared,name⟩
    · refine .inl ⟨path,unit,(success path unit).mp member,declares,?_⟩
      intro path' unit' package succeeds
      exact least (path',unit') ((success path' unit').mpr succeeds) package
    · refine .inr ⟨?_,name⟩
      intro path unit package succeeds
      exact undeclared (path,unit) ((success path unit).mpr succeeds) package
  · intro name
    have names : name ∈ (d.report.rename d.name).unitNames ↔
        ∃ a ∈ arrivals i log, a.2.report.name = name := holds.mem_unitNames
    simpa only [Prod.exists,success] using names
  · intro name r
    rw [← lastNamed_arrivals, ← holds.latest]
    rfl

/-- Each directory has its grouping, unless none of its units succeeds. The order of receipts decides which
of several units with one name is reported, and nothing else. -/
theorem completion_order (root : Path) (units : List Path) (assign : Job → Outcome)
    (log : List Receipt) (s : State) (run : Completes (.ofUnits root units) assign log s) :
    (s.drafts.length = (SourceTree.ofUnits root units).groupings.length ∧
      ∀ i directory members,
        (SourceTree.ofUnits root units).groupings[i]? = some (directory,members) →
        ∃ d : GroupingDraft, s.drafts[i]? = some d ∧
          (d.finish = none ↔ ∀ path unit, ¬Succeeds assign i members path unit) ∧
          ∀ g, d.finish = some g → Described assign log i directory members g) ∧
    ∀ log' s', Completes (.ofUnits root units) assign log' s' →
      s.drafts.map (fun d => d.finish.map GroupingReport.outline) =
        s'.drafts.map (fun d => d.finish.map GroupingReport.outline) ∧
      (∀ name, (TreeReport.ofDrafts name s.drafts).outline =
          (TreeReport.ofDrafts name s'.drafts).outline ∧
        (TreeReport.ofDrafts name s.drafts).unitCount =
          (TreeReport.ofDrafts name s'.drafts).unitCount) ∧
      (Distinct (.ofUnits root units) assign → s.drafts = s'.drafts ∧
        ∀ name, TreeReport.ofDrafts name s.drafts = TreeReport.ofDrafts name s'.drafts) := by
  have ordered := SourceTree.ofUnits_ordered root units
  have gathered := run.gathered
  refine ⟨⟨by simpa [SourceTree.directories] using gathered.length,?_⟩,?_⟩
  · intro i directory members found
    obtain ⟨d,atIndex,holds⟩ := gathered.holds i directory (by simp [SourceTree.directories,found])
    refine ⟨d,atIndex,?_,fun g finished => run.described found holds finished⟩
    rw [holds.finish_eq_none_iff, List.eq_nil_iff_forall_not_mem]
    simp only [Prod.forall,run.mem_arrivals_iff found]
  · intro log' s' other
    have outlines := run.outlines_eq other ordered
    refine ⟨outlines,?_,?_⟩
    · intro name
      have trees := TreeReport.outline_ofDrafts name outlines run.indexed other.indexed
      exact ⟨trees,by rw [TreeReport.unitCount_eq,TreeReport.unitCount_eq,trees]⟩
    · intro distinct
      have drafts := run.drafts_eq other ordered distinct
      exact ⟨drafts,fun name => by rw [drafts]⟩

def clash (path : Path) : Outcome :=
  if path = ⟨"d/A.java"⟩ then .ok ⟨⟨"X",[]⟩,some "first"⟩
  else .ok ⟨⟨"X",[⟨"X","Y",.extension,"Y",none⟩]⟩,some "second"⟩

def clashTree : SourceTree := .ofUnits ⟨"d"⟩ [⟨"d/B.java"⟩, ⟨"d/A.java"⟩]

def clashPlan : Plan where
  limit := 2
  workers := 2
  unitTimeout := 1
  failurePolicy := .failFast
  directories := clashTree.directories
  jobs := jobsOf clashTree
  classify := clash

def clashReceipt (path : Path) : Receipt := (⟨0,path⟩, clash path)

def clashMoves (first second : Nat) : List Move :=
  [.spawn, .spawn, .acquire 0, .acquire 1, .start 0, .start 1, .finish first, .finish second,
    .receive, .receive]

theorem clash_completes {moves : List Move} {log : List Receipt} {s : State}
    (made : replay clashPlan moves (initial clashPlan .start) = some (log,s))
    (completed : s.status = .completed) (assigned : ∀ r ∈ log, r.2 = clash r.1.path) :
    Completes clashTree (fun job => clash job.path) log s where
  planned := ⟨clashPlan,.start,⟨by decide,rfl,rfl⟩,by simpa using Reached.start.replay made⟩
  completed := completed
  assigned := assigned

/-- The name of the grouping is that of the least path in both orders, the edges are those of the unit
that came last. -/
theorem completion_order_clash : ∃ log s log' s',
    Completes clashTree (fun job => clash job.path) log s ∧
    Completes clashTree (fun job => clash job.path) log' s' ∧
    log.map (fun r => r.1.path) = [⟨"d/A.java"⟩, ⟨"d/B.java"⟩] ∧
    log'.map (fun r => r.1.path) = [⟨"d/B.java"⟩, ⟨"d/A.java"⟩] ∧
    (TreeReport.ofDrafts "d" s.drafts).outline = [("first", "first", ["X"])] ∧
    (TreeReport.ofDrafts "d" s.drafts).outline = (TreeReport.ofDrafts "d" s'.drafts).outline ∧
    (TreeReport.ofDrafts "d" s.drafts).dependencyCount = 1 ∧
    (TreeReport.ofDrafts "d" s'.drafts).dependencyCount = 0 := by
  have made : replay clashPlan (clashMoves 0 1) (initial clashPlan .start) =
      some ([clashReceipt ⟨"d/A.java"⟩, clashReceipt ⟨"d/B.java"⟩],_) := rfl
  have made' : replay clashPlan (clashMoves 1 0) (initial clashPlan .start) =
      some ([clashReceipt ⟨"d/B.java"⟩, clashReceipt ⟨"d/A.java"⟩],_) := rfl
  have run := clash_completes made rfl (by simp [clashReceipt])
  have run' := clash_completes made' rfl (by simp [clashReceipt])
  obtain ⟨-,outlines,-⟩ := (completion_order _ _ _ _ _ run).2 _ _ run'
  exact ⟨_,_,_,_,run,run',rfl,rfl,by decide,(outlines "d").1,by decide,by decide⟩

end Coupling.Run
