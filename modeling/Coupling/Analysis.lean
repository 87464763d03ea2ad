import Coupling.Run.Schedule

/-! The units of a tree, of one directory, or a single unit are found, classified in a run, and put
together in a report. A run that is not aborted lists the failures of its units beside the report. -/
namespace Coupling

structure Analysis (ρ : Type) where
  report : ρ
  failures : List AnalysisError

structure Ended (ρ : Type) where
  result : Except AnalysisError (Analysis ρ)
  events : List Event

structure Environment where
  files : FileSystem
  reader : Reader
  config : Config

def Environment.ofFiles (files : FileSystem) (config : Config) : Environment :=
  ⟨files,Reader.ofFiles files,config⟩

/-- Units to classify, and the index in which their names are looked up. -/
structure Scope where
  tree : SourceTree
  index : SourceIndex

def Scope.ofTree (tree : SourceTree) : Scope := ⟨tree,SourceIndex.ofPaths tree.units⟩

namespace Run

def jobsOf (tree : SourceTree) : List Job :=
  (tree.groupings.mapIdx fun i g => g.2.map (Job.mk i)).flatten

def Plan.ofScope (env : Environment) (scope : Scope) : Plan :=
  let policy := env.config.policy
  { limit := env.config.backpressureLimit
    workers := env.config.workers
    unitTimeout := env.config.unitTimeout
    failurePolicy := env.config.failurePolicy
    directories := scope.tree.directories
    jobs := jobsOf scope.tree
    classify := classifyUnit scope.index policy env.reader.read }

def State.collected (s : State) : Except AnalysisError (List GroupingDraft × List AnalysisError) :=
  match s.status with
  | .aborted e => .error e
  | _ => .ok (s.drafts, s.failures)

/-- What is made of a run: the error that aborted it, or else what is reported of the collected. -/
def State.conclude {ρ : Type} (s : State)
    (report : List GroupingDraft → List AnalysisError → Except AnalysisError (Analysis ρ)) :
    Except AnalysisError (Analysis ρ) :=
  match s.collected with
  | .error e => .error e
  | .ok (drafts, failures) => report drafts failures

end Run

def Ended.ofResult {ρ : Type} (progress : Progress) (result : Except AnalysisError (Analysis ρ)) :
    Ended ρ :=
  match result with
  | .ok a => ⟨.ok a,(progress.enter .completed).events⟩
  | .error e => ⟨.error e,(progress.enter .failed).events⟩

/-- Runs over a scope, and makes the report from what has been collected. The limits of the run are taken
to fit; `attempt` says what becomes of an analysis for which they do not. -/
def analyzeScope {ρ : Type} (env : Environment) (scope : Except AnalysisError Scope)
    (report : List GroupingDraft → List AnalysisError → Except AnalysisError (Analysis ρ)) : Ended ρ :=
  let progress := Progress.start.enter .discovering
  match scope with
  | .error e => Ended.ofResult progress (.error e)
  | .ok scope =>
    let s := Run.execute (Run.Plan.ofScope env scope)
      ⟨env.reader.delay,env.config.admissionTimeout⟩ progress
    Ended.ofResult s.progress (s.conclude report)

/-- How an analysis comes out. One that breaks down returns nothing, not even an error. -/
inductive Attempt (ρ : Type)
  | ended (e : Ended ρ)
  | broken (events : List Event)

/-- The queue and the workers of a run are set up when its units have been found and none of them is
scheduled. If there cannot be as many as the limits say, the analysis breaks down there. -/
def attempt {ρ : Type} (env : Environment) (scope : Except AnalysisError Scope) (ended : Ended ρ) :
    Attempt ρ :=
  match scope with
  | .error _ => .ended ended
  | .ok found =>
    if (Run.Plan.ofScope env found).fits then .ended ended
    else .broken (Progress.start.enter .discovering).events

/-! ## Trees -/

/-- The name of a tree: the last name in its path, also if that is only found by following the path. -/
def treeName (fs : FileSystem) (root : Path) : String :=
  (root.fileName?.orElse fun _ => (fs.canonical? root).bind Path.fileName?).getD root.text

def treeScope (env : Environment) (root : Path) : Except AnalysisError Scope :=
  (discover env.files root env.config.discoveryOptions).map Scope.ofTree

def analyzeTree (env : Environment) (root : Path) : Ended TreeReport :=
  analyzeScope env (treeScope env root) fun drafts failures =>
    .ok ⟨TreeReport.ofDrafts (treeName env.files root) drafts,failures⟩

def attemptTree (env : Environment) (root : Path) : Attempt TreeReport :=
  attempt env (treeScope env root) (analyzeTree env root)

/-! ## Directories -/

def groupingScope (env : Environment) (directory : Path) : Except AnalysisError Scope :=
  (discoverGrouping env.files directory env.config.discoveryOptions).map Scope.ofTree

def groupingReport (directory : Path) (drafts : List GroupingDraft) : GroupingReport :=
  (drafts.findSome? GroupingDraft.finish).getD (GroupingReport.empty directory.directoryName)

def analyzeGrouping (env : Environment) (directory : Path) : Ended GroupingReport :=
  analyzeScope env (groupingScope env directory) fun drafts failures =>
    .ok ⟨groupingReport directory drafts,failures⟩

def attemptGrouping (env : Environment) (directory : Path) : Attempt GroupingReport :=
  attempt env (groupingScope env directory) (analyzeGrouping env directory)

/-! ## Single units -/

/-- The directory of a unit, which is `.` for a bare name. -/
def unitDirectory (unit : Path) : Path :=
  match unit.parent? with
  | some directory => if directory.text.isEmpty then ⟨"."⟩ else directory
  | none => ⟨"."⟩

/-- A unit alone, with its siblings in the index so that names of the same package are known. -/
def unitScope (env : Environment) (unit : Path) : Except AnalysisError Scope :=
  let directory := unitDirectory unit
  (discoverGrouping env.files directory env.config.discoveryOptions).map fun siblings =>
    ⟨(SourceTree.empty directory).add unit,SourceIndex.ofPaths (siblings.add unit).units⟩

/-- The only report of a run over one unit, or the failure of that unit. -/
def unitReport (unit : Path) (drafts : List GroupingDraft) (failures : List AnalysisError) :
    Except AnalysisError (Analysis UnitReport) :=
  match failures.getLast? with
  | some e => .error e
  | none =>
    match drafts.findSome? fun d => d.report.unitReports.head? with
    | some report => .ok ⟨report,[]⟩
    | none => .error (.taskFailed unit "no report produced")

def analyzeUnit (env : Environment) (unit : Path) : Ended UnitReport :=
  analyzeScope env (unitScope env unit) (unitReport unit)

def attemptUnit (env : Environment) (unit : Path) : Attempt UnitReport :=
  attempt env (unitScope env unit) (analyzeUnit env unit)

end Coupling
