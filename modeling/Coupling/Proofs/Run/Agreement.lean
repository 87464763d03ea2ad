import Coupling.Proofs.Discovery
import Coupling.Proofs.Run.Courses
import Coupling.Proofs.Run.ReceiveOrder

/-! A unit alone and a unit in its directory. Both analyses look names up in the same index, so they
classify the unit alike; all that is left to differ is the path under which a failure names it. -/
namespace Coupling

open Run

/-! ## Spellings -/

/-- The error as it reads for its unit under another path. -/
def AnalysisError.about (path : Path) : AnalysisError → AnalysisError
  | .unreadable _ cause => .unreadable path cause
  | .unparsable _ diagnostic => .unparsable path diagnostic
  | .timeout _ milliseconds => .timeout path milliseconds
  | .taskFailed _ reason => .taskFailed path reason
  | e => e

theorem AnalysisError.Concerns.about_self {e : AnalysisError} {path : Path} (concerns : e.Concerns path) :
    e.about path = e := by
  obtain ⟨-,unit⟩ := concerns
  cases e <;> simp_all [AnalysisError.unit,AnalysisError.about]

theorem classifyUnit_respelled {index : SourceIndex} {policy : Policy} {read : Path → Reading}
    {p q : Path} (file : q.fileName? = p.fileName?) (same : read q = read p) :
    classifyUnit index policy read q = (classifyUnit index policy read p).mapError (·.about q) := by
  have stem : q.fileStem? = p.fileStem? := by rw [Path.fileStem?, Path.fileStem?, file]
  unfold classifyUnit
  rw [same]
  cases read p with
  | text source =>
    simp only [classifySource,stem]
    cases Source.parse source <;> rfl
  | failure cause => rfl
  | crash => rfl

theorem classifyUnit_taskFailed {index : SourceIndex} {policy : Policy} {read : Path → Reading}
    {path unit : Path} {reason : String}
    (failed : classifyUnit index policy read path = .error (.taskFailed unit reason)) :
    reason = "panicked" := by
  unfold classifyUnit at failed
  split at failed
  · unfold classifySource at failed
    split at failed <;> cases failed
  · cases failed
  · cases failed
    rfl

/-! ## Analyses without disturbance -/

/-- The errors that an analysis ends with: the one that ended it, or else those that it lists. -/
def Ended.errors {ρ : Type} (ended : Ended ρ) : List AnalysisError :=
  match ended.result with
  | .ok a => a.failures
  | .error e => [e]

/-- Errors that are about time and room, and not about what was read. -/
def AnalysisError.isDisturbance : AnalysisError → Bool
  | .timeout _ _ => true
  | .capacityExceeded _ _ => true
  | _ => false

/-- No unit ran out of time, and none waited too long to be scheduled. -/
def Ended.Undisturbed {ρ : Type} (ended : Ended ρ) : Prop :=
  ∀ e ∈ ended.errors, e.isDisturbance = false

instance {ρ : Type} (ended : Ended ρ) : Decidable ended.Undisturbed :=
  inferInstanceAs (Decidable (∀ e ∈ ended.errors, e.isDisturbance = false))

theorem Ended.Undisturbed.of_ok {ρ : Type} {ended : Ended ρ} {a : Analysis ρ}
    (undisturbed : ended.Undisturbed) (ok : ended.result = .ok a) {e : AnalysisError}
    (listed : e ∈ a.failures) : e.isDisturbance = false := by
  apply undisturbed
  rwa [Ended.errors, ok]

theorem Ended.Undisturbed.of_error {ρ : Type} {ended : Ended ρ} (undisturbed : ended.Undisturbed)
    {e : AnalysisError} (failed : ended.result = .error e) : e.isDisturbance = false := by
  apply undisturbed
  simp [Ended.errors,failed]

def Environment.under (env : Environment) (policy : FailurePolicy) : Environment :=
  { env with config := { env.config with failurePolicy := policy } }

/-! ## A unit alone -/

variable {env : Environment} {scope : Scope}

theorem UnitRun.outcome (valid : env.config.validate = .ok ()) {unit : Path} {ended : Ended UnitReport}
    (found : unitScope env unit = .ok scope) (run : UnitRun env unit ended) :
    ∃ outcome, Possible (.ofScope env scope) (⟨0,unit⟩,outcome) ∧
      ended.result = outcome.map fun u => ⟨u.report,[]⟩ := by
  cases run with
  | unscoped missing => cases found.symm.trans missing
  | ran within reached stopped =>
    cases found.symm.trans within
    obtain ⟨outcome,rfl⟩ := reached.received_single (limit_pos valid) (unitScope_jobs found) stopped
    refine ⟨outcome,reached.possible _ (by simp),?_⟩
    rw [ofResult_result]
    exact conclude_single valid found reached stopped

/-- There is always a run in which the unit has time enough. -/
theorem exists_unitRun (valid : env.config.validate = .ok ()) {unit : Path}
    (found : unitScope env unit = .ok scope) :
    ∃ ended, UnitRun env unit ended ∧
      ended.result = ((Plan.ofScope env scope).classify unit).map fun u => ⟨u.report,[]⟩ := by
  obtain ⟨reached,stopped⟩ := execute_single (limit_pos valid) (workers_pos valid) (unitScope_jobs found)
    ⟨fun _ => 0,0⟩ discovering
  refine ⟨_,.ran found reached stopped,?_⟩
  rw [ofResult_result, conclude_single valid found reached stopped]
  simp [dueOutcome]

/-- A unit that is analysed alone ends in its report or in a failure. -/
theorem UnitRun.reports (valid : env.config.validate = .ok ()) {unit : Path} {ended : Ended UnitReport}
    (run : UnitRun env unit ended) : ended.result ≠ .error (.taskFailed unit "no report produced") := by
  intro silent
  cases found : unitScope env unit with
  | error e =>
    obtain ⟨reason,rfl⟩ := discoverGrouping_error (map_eq_error found)
    cases run with
    | unscoped missing =>
      cases found.symm.trans missing
      cases silent
    | ran within => cases found.symm.trans within
  | ok scope =>
    obtain ⟨outcome,possible,result⟩ := run.outcome valid found
    have failed := map_eq_error (result.symm.trans silent)
    rcases possible with worked | expired
    · exact absurd (classifyUnit_taskFailed (worked.symm.trans failed)) (by decide)
    · cases failed.symm.trans expired

/-! ## Units of a directory -/

theorem Run.mem_failuresIn {log : List Receipt} {r : Receipt} {e : AnalysisError} (member : r ∈ log)
    (failed : r.2 = .error e) : e ∈ failuresIn log := by
  apply List.mem_filterMap.mpr
  exact ⟨r,member,by simp [failure?,failed]⟩

/-- What a run over a directory has seen if it was not disturbed: each unit ended as it is classified. -/
structure Saw (env : Environment) (scope : Scope) (directory : Path) (a : Analysis GroupingReport)
    (log : List Receipt) (s : State) : Prop where
  completes : Completes scope.tree (fun job => (Plan.ofScope env scope).classify job.path) log s
  report : a.report = groupingReport directory s.drafts
  failures : env.config.failurePolicy = .bestEffort → a.failures = failuresIn log

theorem GroupingRun.saw (valid : env.config.validate = .ok ()) {directory : Path}
    {ended : Ended GroupingReport} {a : Analysis GroupingReport}
    (found : groupingScope env directory = .ok scope) (run : GroupingRun env directory ended)
    (undisturbed : ended.Undisturbed) (ok : ended.result = .ok a) :
    ∃ log s, Saw env scope directory a log s := by
  have timely {e : AnalysisError} (listed : e ∈ a.failures) := undisturbed.of_ok ok listed
  cases run with
  | unscoped missing => cases found.symm.trans missing
  | @ran _ log s within reached stopped =>
    cases found.symm.trans within
    have positive : 0 < (Plan.ofScope env scope).limit := limit_pos valid
    rw [ofResult_result] at ok
    unfold State.conclude at ok
    split at ok
    · cases ok
    · rename_i collected
      cases ok
      obtain ⟨completed,rfl,rfl,spared⟩ := (reached.ending positive stopped).of_ok collected
      have failures : env.config.failurePolicy = .bestEffort → s.failures = failuresIn log := by
        intro lenient
        have lenient : (Plan.ofScope env scope).failurePolicy = .bestEffort := lenient
        rw [reached.collected.failures, lenient]
      have assigned : ∀ r ∈ log, r.2 = (Plan.ofScope env scope).classify r.1.path := by
        intro r member
        rcases reached.possible r (List.mem_append_left _ member) with worked | expired
        · exact worked
        · cases policy : env.config.failurePolicy with
          | failFast =>
            obtain ⟨unit,succeeded⟩ := failuresIn_eq_nil_iff.mp (spared policy) r member
            cases expired.symm.trans succeeded
          | bestEffort =>
            have listed := mem_failuresIn member expired
            rw [← failures policy] at listed
            cases timely listed
      exact ⟨log,s,⟨⟨_,_,⟨positive,rfl,rfl⟩,reached⟩,completed,assigned⟩,rfl,failures⟩

/-- Failures do not end a lenient run. -/
theorem GroupingRun.ok_of_lenient (valid : env.config.validate = .ok ()) {directory : Path}
    {ended : Ended GroupingReport} (lenient : env.config.failurePolicy = .bestEffort)
    (found : groupingScope env directory = .ok scope) (run : GroupingRun env directory ended)
    (undisturbed : ended.Undisturbed) : ∃ a, ended.result = .ok a := by
  have unblocked {e : AnalysisError} (failed : ended.result = .error e) := undisturbed.of_error failed
  cases run with
  | unscoped missing => cases found.symm.trans missing
  | @ran _ log s within reached stopped =>
    cases found.symm.trans within
    have positive : 0 < (Plan.ofScope env scope).limit := limit_pos valid
    cases collected : s.collected with
    | ok found => exact ⟨_,by rw [ofResult_result,State.conclude,collected]⟩
    | error e =>
      have unblocked := unblocked (by rw [ofResult_result,State.conclude,collected])
      rcases (reached.ending positive stopped).of_error collected with stalled | ⟨strict,-⟩
      · obtain ⟨-,job,rest,-,rfl⟩ := stalled
        cases unblocked
      · cases lenient.symm.trans strict

/-- The report of a directory with a unit that succeeds is that of its one grouping. -/
theorem Run.Completes.described_single {tree : SourceTree} {assign : Job → Outcome} {log : List Receipt}
    {s : State} (run : Completes tree assign log s) {d p : Path} {us : List Path} {unit : ClassifiedUnit}
    (one : tree.groupings = [(d,us)]) (succeeds : Succeeds assign 0 us p unit) (directory : Path) :
    Described assign log 0 d us (groupingReport directory s.drafts) := by
  have found : tree.groupings[0]? = some (d,us) := by simp [one]
  have length := run.gathered.length
  simp only [SourceTree.directories,one,List.map_cons,List.map_nil,List.length_singleton] at length
  obtain ⟨draft,drafts⟩ := List.length_eq_one_iff.mp length
  obtain ⟨_,first,holds⟩ := run.gathered.holds 0 d (by simp [SourceTree.directories,one])
  rw [drafts] at first
  cases first
  have arrived := (run.mem_arrivals_iff found p unit).mpr succeeds
  cases finished : draft.finish with
  | none =>
    rw [holds.finish_eq_none_iff] at finished
    rw [finished] at arrived
    cases arrived
  | some g =>
    have kept : groupingReport directory s.drafts = g := by simp [groupingReport,drafts,finished]
    rw [kept]
    exact run.described found holds finished

/-- Of the groupings of a single directory, keeping the first one that is finished loses none. -/
theorem Run.Reached.finished_single {plan : Plan} {progress : Progress} {log : List Receipt} {s : State}
    (reached : Reached plan progress log s) (one : plan.directories.length ≤ 1) :
    s.drafts.filterMap GroupingDraft.finish = (s.drafts.findSome? GroupingDraft.finish).toList := by
  have length := (gathered_merged plan.directories log).length
  rw [← reached.collected.drafts] at length
  match drafts : s.drafts with
  | [] => rfl
  | [draft] => cases finished : draft.finish <;> simp [finished]
  | _ :: _ :: _ =>
    simp only [drafts,List.length_cons] at length
    omega

/-! ## Agreement -/

/-- No other unit of the tree is reported under the name by an analysis of its own. -/
def Unshared (env : Environment) (tree : SourceTree) (p : Path) (name : String) : Prop :=
  ∀ p' ∈ tree.units, p' ≠ p → ∀ ended a, UnitRun env p' ended → ended.result = .ok a →
    a.report.name ≠ name

/-- What the analysis of a unit alone, spelled as `q`, tells of the analyses of the directory in which the
unit was found as `p`. -/
structure Foretells (env : Environment) (directory : Path) (tree : SourceTree) (p q : Path)
    (alone : Ended UnitReport) : Prop where
  reported : ∀ a, alone.result = .ok a → ∀ policy together b,
    GroupingRun (env.under policy) directory together → together.Undisturbed → together.result = .ok b →
      a.report.name ∈ b.report.unitNames ∧
        (Unshared env tree p a.report.name → b.report.unit? a.report.name = some a.report)
  failed : ∀ e, alone.result = .error e → e.Concerns q ∧ ∀ together,
    GroupingRun (env.under .bestEffort) directory together → together.Undisturbed →
      ∃ b, together.result = .ok b ∧ e.about p ∈ b.failures ∧ (q = p → e ∈ b.failures)

section Found

variable {directory : Path} {tree : SourceTree} {p q : Path}

theorem groupingScope_of_found
    (found : discoverGrouping env.files directory env.config.discoveryOptions = .ok tree)
    (policy : FailurePolicy) : groupingScope (env.under policy) directory = .ok (.ofTree tree) := by
  have same : discoverGrouping (env.under policy).files directory
      (env.under policy).config.discoveryOptions = .ok tree := found
  rw [groupingScope, same]
  rfl

/-- A unit of a directory is classified by the same rules when it is alone. -/
theorem unitScope_of_found (named : env.files.root.wellNamed)
    (found : discoverGrouping env.files directory env.config.discoveryOptions = .ok tree)
    (member : p ∈ tree.units) (respells : Respells env.files p q) :
    ∃ scope, unitScope env q = .ok scope ∧ ∀ policy,
      (Plan.ofScope env scope).classify = (Plan.ofScope (env.under policy) (.ofTree tree)).classify := by
  obtain ⟨siblings,around,index⟩ := siblings_index named found member respells
  refine ⟨⟨(SourceTree.empty (unitDirectory q)).add q,SourceIndex.ofPaths (siblings.add q).units⟩,?_,?_⟩
  · rw [unitScope, around]
    rfl
  · intro policy
    rw [index]
    rfl

/-- Under any policy, the unit of a directory is reported as its classification says, unless a unit of the
same name takes its place. -/
theorem reported_of_found (valid : env.config.validate = .ok ()) (named : env.files.root.wellNamed)
    (found : discoverGrouping env.files directory env.config.discoveryOptions = .ok tree)
    (member : p ∈ tree.units) {policy : FailurePolicy} {unit : ClassifiedUnit}
    (succeeds : (Plan.ofScope (env.under policy) (.ofTree tree)).classify p = .ok unit)
    {together : Ended GroupingReport} {b : Analysis GroupingReport}
    (run : GroupingRun (env.under policy) directory together) (undisturbed : together.Undisturbed)
    (ok : together.result = .ok b) :
    unit.report.name ∈ b.report.unitNames ∧
      (Unshared env tree p unit.report.name → b.report.unit? unit.report.name = some unit.report) := by
  have valid' : (env.under policy).config.validate = .ok () := valid
  obtain ⟨log,s,saw⟩ := run.saw valid' (groupingScope_of_found found policy) undisturbed ok
  obtain ⟨d,us,one⟩ : ∃ d us, tree.groupings = [(d,us)] := by
    rcases groupings_discoverGrouping named found with none | one
    · simp [SourceTree.units,none] at member
    · exact one
  have inside : p ∈ us := by simpa [SourceTree.units,one] using member
  have described := saw.completes.described_single one ⟨inside,succeeds⟩ directory
  rw [← saw.report] at described
  have known := (described.unitNames unit.report.name).mpr ⟨p,unit,⟨inside,succeeds⟩,rfl⟩
  refine ⟨known,?_⟩
  intro unshared
  obtain ⟨r,shown⟩ := Option.isSome_iff_exists.mp (GroupingReport.mem_unitNames_iff.mp known)
  obtain ⟨before,path,unit',after,rfl,rfl,same,-⟩ := (described.latest _ _).mp shown
  obtain ⟨scheduled,outcome⟩ := (saw.completes.mem_log (⟨0,path⟩,.ok unit')).mp (by simp)
  change .ok unit' = (Plan.ofScope (env.under policy) (.ofTree tree)).classify path at outcome
  have there : path ∈ tree.units := by
    obtain ⟨g,atIndex,inside⟩ := mem_jobsOf.mp scheduled
    exact List.mem_flatMap.mpr ⟨g,List.mem_of_getElem? atIndex,inside⟩
  by_cases itself : path = p
  · subst itself
    cases outcome.trans succeeds
    exact shown
  · obtain ⟨scope,alone,classify⟩ := unitScope_of_found named found there (Respells.refl env.files path)
    obtain ⟨ended,run,result⟩ := exists_unitRun valid alone
    rw [classify policy, ← outcome] at result
    exact absurd same (unshared path there itself ended _ run result)

theorem listed_of_found (valid : env.config.validate = .ok ())
    (found : discoverGrouping env.files directory env.config.discoveryOptions = .ok tree)
    (member : p ∈ tree.units) {e : AnalysisError}
    (fails : (Plan.ofScope (env.under .bestEffort) (.ofTree tree)).classify p = .error e)
    {together : Ended GroupingReport} (run : GroupingRun (env.under .bestEffort) directory together)
    (undisturbed : together.Undisturbed) : ∃ b, together.result = .ok b ∧ e ∈ b.failures := by
  have valid' : (env.under .bestEffort).config.validate = .ok () := valid
  have within := groupingScope_of_found found .bestEffort
  obtain ⟨b,ok⟩ := run.ok_of_lenient valid' rfl within undisturbed
  obtain ⟨log,s,saw⟩ := run.saw valid' within undisturbed ok
  obtain ⟨job,scheduled,rfl⟩ : ∃ job ∈ jobsOf tree, job.path = p := by
    rw [← paths_jobsOf] at member
    exact List.mem_map.mp member
  have received := (saw.completes.mem_log (job,.error e)).mpr ⟨scheduled,fails.symm⟩
  refine ⟨b,ok,?_⟩
  rw [saw.failures rfl]
  exact mem_failuresIn received rfl

theorem foretells_of_found (valid : env.config.validate = .ok ()) (named : env.files.root.wellNamed)
    (found : discoverGrouping env.files directory env.config.discoveryOptions = .ok tree)
    (member : p ∈ tree.units) (respells : Respells env.files p q)
    (read : env.reader.read q = env.reader.read p) {alone : Ended UnitReport} (run : UnitRun env q alone)
    (undisturbed : alone.Undisturbed) : Foretells env directory tree p q alone := by
  obtain ⟨scope,within,classify⟩ := unitScope_of_found named found member respells
  obtain ⟨outcome,possible,result⟩ := run.outcome valid within
  have worked : outcome = (Plan.ofScope env scope).classify q := by
    rcases possible with worked | expired
    · exact worked
    · have failed : alone.result = .error (.timeout q (Plan.ofScope env scope).unitTimeout) :=
        result.trans (congrArg (Except.map _) expired)
      cases undisturbed.of_error failed
  have respelled : (Plan.ofScope env scope).classify p = outcome.mapError (·.about p) := by
    rw [worked]
    exact classifyUnit_respelled respells.file.symm read.symm
  constructor
  · intro a ok policy together b run undisturbed ok'
    cases outcome with
    | error e => cases result.symm.trans ok
    | ok unit =>
      cases result.symm.trans ok
      rw [classify policy] at respelled
      exact reported_of_found valid named found member respelled run undisturbed ok'
  · intro e failed
    cases map_eq_error (result.symm.trans failed)
    have concerns : e.Concerns q := classifyUnit_error worked.symm
    refine ⟨concerns,?_⟩
    intro together run undisturbed
    rw [classify .bestEffort] at respelled
    obtain ⟨b,ok,listed⟩ := listed_of_found valid found member respelled run undisturbed
    refine ⟨b,ok,listed,?_⟩
    rintro rfl
    have same : e.about q = e := concerns.about_self
    exact same ▸ listed

end Found

/-- The analysis of a unit agrees with that of its directory, for every spelling of the unit that writes
the same names. The directory has one grouping at most, so that keeping the first loses none, and a unit is
never left without a report or a failure. -/
theorem unit_and_grouping_agree (env : Environment) (valid : env.config.validate = .ok ()) :
    (∀ directory tree, env.files.root.wellNamed →
      discoverGrouping env.files directory env.config.discoveryOptions = .ok tree →
      (∀ p ∈ tree.units,
        (∀ q, q.route = p.route → Respells env.files p q) ∧
        ∀ q, Respells env.files p q → env.reader.read q = env.reader.read p →
          ∀ alone, UnitRun env q alone → alone.Undisturbed → Foretells env directory tree p q alone) ∧
      ∀ policy scope log s, groupingScope (env.under policy) directory = .ok scope →
        Reached (.ofScope (env.under policy) scope) discovering log s →
        s.drafts.filterMap GroupingDraft.finish = (s.drafts.findSome? GroupingDraft.finish).toList) ∧
    ∀ unit alone, UnitRun env unit alone →
      alone.result ≠ .error (.taskFailed unit "no report produced") := by
  refine ⟨?_,fun unit alone run => run.reports valid⟩
  intro directory tree named found
  refine ⟨?_,?_⟩
  · intro p member
    refine ⟨?_,fun q respells read alone run => foretells_of_found valid named found member respells read run⟩
    intro q route
    obtain ⟨place,located,there,rfl⟩ := discoverGrouping_eq_ok named found
    obtain ⟨name,inside,rfl⟩ := List.mem_map.mp (SourceTree.mem_of_mem_ofUnits member)
    have entry := isEntryName_of_mem_unitNamesAt named inside
    exact Respells.of_route (Path.fileName?_join directory entry)
      (locate_unitDirectory_join entry located there) there route
  · intro policy scope log s within reached
    cases (groupingScope_of_found found policy).symm.trans within
    apply reached.finished_single
    change tree.directories.length ≤ 1
    rcases groupings_discoverGrouping named found with none | ⟨d,us,one⟩
    · simp [SourceTree.directories,none]
    · simp [SourceTree.directories,one]

def workshop (first second : Reading) : Environment where
  files := ⟨.directory "" [.directory "work" [.file "A.java" [], .file "B.java" []]],["work"]⟩
  reader := ⟨fun p => if p.fileName? = some "A.java" then first else second,fun _ => 0⟩
  config := { Config.default with failurePolicy := .bestEffort }

def workshopTree : SourceTree := ⟨⟨"."⟩,[(⟨"."⟩, [⟨"./A.java"⟩, ⟨"./B.java"⟩])]⟩

def workPackage : Environment := workshop (.text "package work;class A extends B{}") (.text "")

def halfReadable : Environment := workshop (.text "class A extends B{}") (.failure "gone")

theorem halfReadable_errors :
    (analyzeGrouping halfReadable ⟨"."⟩).errors = [.unreadable ⟨"./B.java"⟩ "gone"] := by
  decide +kernel

def pickyReader : Environment :=
  { workPackage with reader := ⟨fun p => if p = ⟨"A.java"⟩ then .failure "gone" else .text "",fun _ => 0⟩ }

/-- What the spelling of a unit can change: a path that writes the name of the working directory makes a
package of that name known, a failure names the unit as it was asked for, and what is read may depend on
the path. -/
theorem spelling_matters :
    (discoverGrouping workPackage.files ⟨"."⟩ workPackage.config.discoveryOptions = .ok workshopTree ∧
      workPackage.files.locate ⟨"../work/A.java"⟩ = workPackage.files.locate ⟨"./A.java"⟩ ∧
      (analyzeUnit workPackage ⟨"../work/A.java"⟩).result.toOption.map
        (fun a => (a.report.name, a.report.targets)) = some ("work.A", ["work.B"]) ∧
      (analyzeGrouping workPackage ⟨"."⟩).result.toOption.map
        (fun a => a.report.units.map fun u => (u.1, u.2.targets)) = some [("B", []), ("work.A", ["B"])]) ∧
    ((analyzeUnit halfReadable ⟨"B.java"⟩).errors = [.unreadable ⟨"B.java"⟩ "gone"] ∧
      (analyzeGrouping halfReadable ⟨"."⟩).errors = [.unreadable ⟨"./B.java"⟩ "gone"]) ∧
    (analyzeUnit pickyReader ⟨"A.java"⟩).errors = [.unreadable ⟨"A.java"⟩ "gone"] ∧
    (analyzeGrouping pickyReader ⟨"."⟩).errors = [] := by
  refine ⟨⟨rfl,rfl,?_,?_⟩,⟨rfl,halfReadable_errors⟩,rfl,?_⟩
  all_goals decide +kernel

/-- The bare names of units in the working directory, against the paths under which they are found
there. -/
theorem unit_and_grouping_agree_bare :
    halfReadable.config.validate = .ok () ∧ halfReadable.files.root.wellNamed ∧
    discoverGrouping halfReadable.files ⟨"."⟩ halfReadable.config.discoveryOptions = .ok workshopTree ∧
    Path.route ⟨"A.java"⟩ = Path.route ⟨"./A.java"⟩ ∧ Path.route ⟨"B.java"⟩ = Path.route ⟨"./B.java"⟩ ∧
    ∃ a b e, (analyzeGrouping halfReadable ⟨"."⟩).result = .ok b ∧
      (analyzeUnit halfReadable ⟨"A.java"⟩).result = .ok a ∧ a.report.targets = ["B"] ∧
      b.report.unit? "A" = some a.report ∧
      (analyzeUnit halfReadable ⟨"B.java"⟩).result = .error e ∧ e.unit = some ⟨"B.java"⟩ ∧
      e.about ⟨"./B.java"⟩ ∈ b.failures := by
  obtain ⟨agree,-⟩ := unit_and_grouping_agree halfReadable rfl
  obtain ⟨units,-⟩ := agree ⟨"."⟩ workshopTree rfl rfl
  obtain ⟨spellings,foretells⟩ := units ⟨"./A.java"⟩ (by decide)
  obtain ⟨spellings',foretells'⟩ := units ⟨"./B.java"⟩ (by decide)
  have same : halfReadable.under .bestEffort = halfReadable := rfl
  have together : GroupingRun halfReadable ⟨"."⟩ (analyzeGrouping halfReadable ⟨"."⟩) := analyzeScope_analyzed rfl _ _
  have quiet : (analyzeGrouping halfReadable ⟨"."⟩).Undisturbed := by
    rw [Ended.Undisturbed, halfReadable_errors]
    decide
  have gone : (analyzeUnit halfReadable ⟨"B.java"⟩).result = .error (.unreadable ⟨"B.java"⟩ "gone") := rfl
  have second := foretells' ⟨"B.java"⟩ (spellings' _ rfl) rfl _ (analyzeScope_analyzed rfl _ _)
    (by decide +kernel)
  obtain ⟨-,lists⟩ := second.failed _ gone
  obtain ⟨b,ok,listed,-⟩ := lists _ together quiet
  have unshared : Unshared halfReadable workshopTree ⟨"./A.java"⟩ "A" := by
    intro p inside other ended a run result
    obtain rfl : p = ⟨"./B.java"⟩ := by simpa [workshopTree,SourceTree.units,other] using inside
    obtain ⟨scope,found⟩ : ∃ scope, unitScope halfReadable ⟨"./B.java"⟩ = .ok scope := ⟨_,rfl⟩
    have fails : (Plan.ofScope halfReadable scope).classify ⟨"./B.java"⟩ =
      .error (.unreadable ⟨"./B.java"⟩ "gone") := rfl
    obtain ⟨outcome,worked | expired,conclusion⟩ := run.outcome rfl found
    · cases result.symm.trans (conclusion.trans (congrArg _ (worked.trans fails)))
    · cases result.symm.trans (conclusion.trans (congrArg _ expired))
  have first := foretells ⟨"A.java"⟩ (spellings _ rfl) rfl _ (analyzeScope_analyzed rfl _ _)
    (by decide +kernel)
  have shown : (analyzeUnit halfReadable ⟨"A.java"⟩).result.toOption.map
      (fun a => (a.report.name, a.report.targets)) = some ("A", ["B"]) := by decide +kernel
  cases alone : (analyzeUnit halfReadable ⟨"A.java"⟩).result with
  | error e =>
    rw [alone] at shown
    cases shown
  | ok a =>
    rw [alone] at shown
    obtain ⟨name,targets⟩ : a.report.name = "A" ∧ a.report.targets = ["B"] := by
      simpa [Except.toOption] using shown
    have reported := (first.reported a alone .bestEffort _ b together quiet ok).2
    rw [name] at reported
    exact ⟨rfl,rfl,rfl,rfl,rfl,a,b,_,ok,rfl,targets,reported unshared,gone,rfl,listed⟩

end Coupling
