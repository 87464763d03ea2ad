import Coupling.Proofs.Run.Phases

/-! How analyses come out: the phases that each one goes through, what is told of its units on the way, and
the limits with which it breaks down before it has scheduled any. -/
namespace Coupling

open Run

/-- The ways in which an analysis can end: without units to look for at once, and otherwise with any run
over them that has come to its end. -/
inductive Analyzed {ρ : Type} (env : Environment) (scope : Except AnalysisError Scope)
    (report : List GroupingDraft → List AnalysisError → Except AnalysisError (Analysis ρ)) :
    Ended ρ → Prop
  | unscoped {e} (missing : scope = .error e) :
      Analyzed env scope report (.ofResult discovering (.error e))
  | ran {found log s} (within : scope = .ok found)
      (reached : Reached (.ofScope env found) discovering log s) (stopped : s.status ≠ .active) :
      Analyzed env scope report (.ofResult s.progress (s.conclude report))

theorem analyzeScope_analyzed {ρ : Type} {env : Environment} (valid : env.config.validate = .ok ())
    (scope : Except AnalysisError Scope)
    (report : List GroupingDraft → List AnalysisError → Except AnalysisError (Analysis ρ)) :
    Analyzed env scope report (analyzeScope env scope report) := by
  cases scope with
  | error e => exact .unscoped rfl
  | ok found =>
    have positive : 0 < (Plan.ofScope env found).limit := limit_pos valid
    have staffed : 0 < (Plan.ofScope env found).workers := workers_pos valid
    obtain ⟨log,reached,stopped⟩ := execute_over positive staffed
      ⟨env.reader.delay,env.config.admissionTimeout⟩ discovering
    exact .ran rfl reached stopped

def TreeRun (env : Environment) (root : Path) : Ended TreeReport → Prop :=
  Analyzed env (treeScope env root) fun drafts failures =>
    .ok ⟨TreeReport.ofDrafts (treeName env.files root) drafts,failures⟩

def GroupingRun (env : Environment) (directory : Path) : Ended GroupingReport → Prop :=
  Analyzed env (groupingScope env directory) fun drafts failures =>
    .ok ⟨groupingReport directory drafts,failures⟩

def UnitRun (env : Environment) (unit : Path) : Ended UnitReport → Prop :=
  Analyzed env (unitScope env unit) (unitReport unit)

def courses : List (List Phase) :=
  [[.discovering, .failed],
   [.discovering, .classifying, .failed],
   [.discovering, .classifying, .aggregating, .failed],
   [.discovering, .classifying, .aggregating, .completed],
   [.discovering, .aggregating, .completed]]

structure Course {ρ : Type} (scope : Except AnalysisError Scope) (ended : Ended ρ) : Prop where
  course : phases ended.events ∈ courses
  completed : (phases ended.events).getLast? = some .completed ↔ ∃ a, ended.result = .ok a
  between : ∀ before e after, ended.events = before ++ e :: after → e.phase? = none →
    .entered .classifying ∈ before ∧ (.entered .completed ∈ after ∨ .entered .failed ∈ after)
  /-- The pipeline is full only while units are left to schedule. -/
  capacity : ∀ limit unit, ended.result = .error (.capacityExceeded limit unit) →
    phases ended.events = [.discovering, .classifying, .failed]
  counted : ∀ a, ended.result = .ok a → ∃ found, scope = .ok found ∧
    (unitEvents ended.events).length = found.tree.unitCount

def lastPhase {ρ : Type} : Except AnalysisError (Analysis ρ) → Phase
  | .ok _ => .completed
  | .error _ => .failed

theorem lastPhase_eq_completed_iff {ρ : Type} {result : Except AnalysisError (Analysis ρ)} :
    lastPhase result = .completed ↔ ∃ a, result = .ok a := by
  cases result <;> simp [lastPhase]

theorem ofResult_events {ρ : Type} {progress : Progress} (result : Except AnalysisError (Analysis ρ))
    (going : progress.phase ≠ .completed ∧ progress.phase ≠ .failed) :
    (Ended.ofResult progress result).events = progress.events ++ [.entered (lastPhase result)] := by
  cases result with
  | ok a => simp [Ended.ofResult,Progress.enter_of_ne going.1,lastPhase]
  | error e => simp [Ended.ofResult,Progress.enter_of_ne going.2,lastPhase]

/-- Whatever is told of a unit stands behind the first two phases and in front of the last one. -/
theorem unit_between {body before after : List Event} {e : Event} {last : Phase}
    (split : .entered .discovering :: .entered .classifying :: (body ++ [.entered last]) =
      before ++ e :: after) (unit : e.phase? = none) :
    .entered .classifying ∈ before ∧ .entered last ∈ after := by
  have not_phase (phase : Phase) : e ≠ .entered phase := by
    rintro rfl
    cases unit
  match before with
  | [] => exact absurd (List.cons.inj split).1.symm (not_phase _)
  | [_] => exact absurd (List.cons.inj (List.cons.inj split).2).1.symm (not_phase _)
  | first :: second :: rest =>
    simp only [List.cons_append,List.cons.injEq] at split
    obtain ⟨rfl,rfl,tail⟩ := split
    refine ⟨by simp,?_⟩
    have ends : (e :: after).getLast? = some (.entered last) := by
      have same := congrArg List.getLast? tail
      simpa [List.getLast?_append] using same.symm
    rcases List.mem_cons.mp (List.mem_of_getLast? ends) with here | later
    · exact absurd here.symm (not_phase last)
    · exact later

section Conclude

variable {ρ : Type} {env : Environment} {found : Scope} {log : List Receipt} {s : State}
  {report : List GroupingDraft → List AnalysisError → Except AnalysisError (Analysis ρ)}

theorem completed_of_conclude {a : Analysis ρ} (stopped : s.status ≠ .active)
    (ok : s.conclude report = .ok a) : s.status = .completed := by
  cases status : s.status with
  | active => exact absurd status stopped
  | completed => rfl
  | aborted e =>
    simp only [State.conclude,collected_of_aborted status] at ok
    cases ok

/-- Reports fail for nothing but a unit, so that only the run itself can be short of capacity. -/
theorem pending_of_capacity {progress : Progress} (valid : env.config.validate = .ok ())
    (reached : Reached (.ofScope env found) progress log s) (stopped : s.status ≠ .active)
    (faithful : ∀ drafts failures e, report drafts failures = .error e →
      e ∈ failures ∨ e.isUnitFailure = true)
    {limit : Nat} {unit : Path} (full : s.conclude report = .error (.capacityExceeded limit unit)) :
    s.pending ≠ [] := by
  cases status : s.status with
  | active => exact absurd status stopped
  | completed =>
    simp only [State.conclude,collected_of_completed status] at full
    rcases faithful _ _ _ full with listed | unitFailure
    · obtain ⟨job,-,concerns⟩ := reached.failure_concerns listed
      cases concerns.1
    · cases unitFailure
  | aborted e =>
    simp only [State.conclude,collected_of_aborted status] at full
    cases full
    obtain ⟨-,job,rest,pending,-⟩ := capacity_stalled reached (limit_pos valid) status
    simp [pending]

theorem jobs_length_eq (env : Environment) (found : Scope) :
    (Plan.ofScope env found).jobs.length = found.tree.unitCount :=
  length_jobsOf found.tree

/-- A run without units has nothing to wait for. -/
theorem completed_of_idle {progress : Progress} (valid : env.config.validate = .ok ())
    (reached : Reached (.ofScope env found) progress log s) (stopped : s.status ≠ .active)
    (jobs : (Plan.ofScope env found).jobs = []) : s.status = .completed := by
  have order := reached.account.order
  rw [jobs] at order
  cases reached.ending (limit_pos valid) stopped with
  | completed status _ _ => exact status
  | stalled _ stalled =>
    obtain ⟨-,job,rest,pending,-⟩ := stalled
    simp [pending] at order
  | @failed earlier job e _ _ last _ =>
    have scheduled := reached.account.received_scheduled (r := (job,.error e)) (by simp [last])
    rw [jobs] at scheduled
    cases scheduled

end Conclude

/-- The last phase tells the result, so that only the phases in front of it are left to be known. -/
theorem Course.of_front {ρ : Type} {scope : Except AnalysisError Scope} {ended : Ended ρ}
    (front : List Phase) (told : phases ended.events = front ++ [lastPhase ended.result])
    (allowed : front ++ [lastPhase ended.result] ∈ courses)
    (between : ∀ before e after, ended.events = before ++ e :: after → e.phase? = none →
      .entered .classifying ∈ before ∧ .entered (lastPhase ended.result) ∈ after)
    (capacity : ∀ limit unit, ended.result = .error (.capacityExceeded limit unit) →
      front = [.discovering, .classifying])
    (counted : ∀ a, ended.result = .ok a → ∃ found, scope = .ok found ∧
      (unitEvents ended.events).length = found.tree.unitCount) : Course scope ended where
  course := told ▸ allowed
  completed := by
    rw [told, List.getLast?_concat, Option.some.injEq]
    exact lastPhase_eq_completed_iff
  between before e after split unit := by
    obtain ⟨classifying,last⟩ := between before e after split unit
    refine ⟨classifying,?_⟩
    cases result : ended.result with
    | ok a =>
      rw [result] at last
      exact .inl last
    | error e =>
      rw [result] at last
      exact .inr last
  capacity limit unit full := by
    rw [told, capacity limit unit full, full]
    rfl
  counted := counted

/-- An analysis that has units tells of nothing but them between its second and its last phase, apart
from the start of aggregating. -/
theorem Course.of_body {ρ : Type} {scope : Except AnalysisError Scope} {ended : Ended ρ}
    (body : List Event) (events : ended.events = .entered .discovering :: .entered .classifying ::
      (body ++ [.entered (lastPhase ended.result)]))
    (allowed : .discovering :: .classifying :: (phases body ++ [lastPhase ended.result]) ∈ courses)
    (capacity : ∀ limit unit, ended.result = .error (.capacityExceeded limit unit) → phases body = [])
    (counted : ∀ a, ended.result = .ok a → ∃ found, scope = .ok found ∧
      (unitEvents body).length = found.tree.unitCount) : Course scope ended := by
  refine .of_front (.discovering :: .classifying :: phases body) (by simp [events]) allowed ?_ ?_ ?_
  · intro before e after split unit
    rw [events] at split
    exact unit_between split unit
  · intro limit unit full
    rw [capacity limit unit full]
  · intro a ok
    obtain ⟨found,within,count⟩ := counted a ok
    exact ⟨found,within,by simpa [events] using count⟩

/-- Nothing is told of units where all that is told are phases. -/
theorem no_unit_between {events before after : List Event} {e : Event}
    (quiet : ∀ e ∈ events, e.phase? ≠ none) (split : events = before ++ e :: after) :
    e.phase? ≠ none :=
  quiet e (by simp [split])

section Ran

variable {ρ : Type} {env : Environment} {scope : Except AnalysisError Scope} {found : Scope}
  {log : List Receipt} {s : State}
  {report : List GroupingDraft → List AnalysisError → Except AnalysisError (Analysis ρ)}

theorem course_of_idle (valid : env.config.validate = .ok ()) (within : scope = .ok found)
    (reached : Reached (.ofScope env found) discovering log s) (stopped : s.status ≠ .active)
    (jobs : (Plan.ofScope env found).jobs = [])
    (sure : ∀ drafts failures, ∃ a, report drafts failures = .ok a)
    (progress : s.progress = ⟨.aggregating,[.entered .discovering, .entered .aggregating]⟩) :
    Course scope (.ofResult s.progress (s.conclude report)) := by
  have status := completed_of_idle valid reached stopped jobs
  obtain ⟨a,ok⟩ : ∃ a, s.conclude report = .ok a := by
    simp only [State.conclude,collected_of_completed status]
    exact sure _ _
  have events : (Ended.ofResult s.progress (s.conclude report)).events =
      [.entered .discovering, .entered .aggregating, .entered .completed] := by
    rw [ofResult_events _ (by simp [progress]), progress, ok]
    rfl
  have result := ofResult_result s.progress (s.conclude report)
  refine .of_front [.discovering, .aggregating] ?_ ?_ ?_ ?_ ?_
  · rw [events, result, ok]
    rfl
  · rw [result, ok]
    simp [lastPhase,courses]
  · intro before e after split unit
    rw [events] at split
    exact absurd unit (no_unit_between (by simp [Event.phase?]) split)
  · intro limit unit full
    rw [result, ok] at full
    cases full
  · intro _ _
    refine ⟨found,within,?_⟩
    rw [events, ← jobs_length_eq env, jobs]
    rfl

theorem course_of_classifying (valid : env.config.validate = .ok ())
    (reached : Reached (.ofScope env found) discovering log s) (stopped : s.status ≠ .active)
    (pending : s.pending ≠ []) (progress : s.progress = ⟨.classifying,
      .entered .discovering :: .entered .classifying :: told (.ofScope env found) log⟩) :
    Course scope (.ofResult s.progress (s.conclude report)) := by
  obtain ⟨e,failed⟩ : ∃ e, s.conclude report = .error e := by
    cases result : s.conclude report with
    | ok a =>
      have status := completed_of_conclude stopped result
      exact absurd (reached.received_all (limit_pos valid) status).1 pending
    | error e => exact ⟨e,rfl⟩
  have units : phases (told (.ofScope env found) log) = [] :=
    phases_of_units fun e => phase?_of_mem_told
  have result := ofResult_result s.progress (s.conclude report)
  refine .of_body (told (.ofScope env found) log) ?_ ?_ ?_ ?_
  · rw [ofResult_events _ (by simp [progress]), result, progress]
    rfl
  · rw [result, failed, units]
    simp [lastPhase,courses]
  · exact fun _ _ _ => units
  · intro a ok
    rw [result, failed] at ok
    cases ok

theorem course_of_aggregating (valid : env.config.validate = .ok ()) (within : scope = .ok found)
    (reached : Reached (.ofScope env found) discovering log s) (stopped : s.status ≠ .active)
    (faithful : ∀ drafts failures e, report drafts failures = .error e →
      e ∈ failures ∨ e.isUnitFailure = true)
    {early late : List Event} (pending : s.pending = [])
    (split : told (.ofScope env found) log = early ++ late) (progress : s.progress = ⟨.aggregating,
      .entered .discovering :: .entered .classifying :: (early ++ .entered .aggregating :: late)⟩) :
    Course scope (.ofResult s.progress (s.conclude report)) := by
  have told_unit : ∀ e ∈ early ++ late, e.phase? = none := fun e member =>
    phase?_of_mem_told (split ▸ member)
  obtain ⟨unitEarly,unitLate⟩ := List.forall_mem_append.mp told_unit
  have result := ofResult_result s.progress (s.conclude report)
  refine .of_body (early ++ .entered .aggregating :: late) ?_ ?_ ?_ ?_
  · rw [ofResult_events _ (by simp [progress]), result, progress]
    rfl
  · rw [result]
    simp only [phases_append,phases_entered,phases_of_units unitEarly,phases_of_units unitLate]
    cases s.conclude report <;> simp [lastPhase,courses]
  · intro limit unit full
    rw [result] at full
    exact absurd pending (pending_of_capacity valid reached stopped faithful full)
  · intro a ok
    rw [result] at ok
    have status := completed_of_conclude stopped ok
    refine ⟨found,within,?_⟩
    cases reached.ending (limit_pos valid) stopped with
    | completed _ all spared =>
      simp only [unitEvents_append,unitEvents_entered,unitEvents_of_units unitEarly,
        unitEvents_of_units unitLate, ← split]
      rw [length_told spared, ← List.length_map Prod.fst, all.length_eq, jobs_length_eq]
    | stalled aborted _ => cases status.symm.trans aborted
    | failed aborted _ _ _ => cases status.symm.trans aborted

end Ran

theorem Analyzed.course {ρ : Type} {env : Environment} {scope : Except AnalysisError Scope}
    {report : List GroupingDraft → List AnalysisError → Except AnalysisError (Analysis ρ)}
    {ended : Ended ρ} (run : Analyzed env scope report ended) (valid : env.config.validate = .ok ())
    (unfound : ∀ e, scope = .error e → ∃ path reason, e = .invalidRoot path reason)
    (faithful : ∀ drafts failures e, report drafts failures = .error e →
      e ∈ failures ∨ e.isUnitFailure = true)
    (needed : ∀ found, scope = .ok found → jobsOf found.tree = [] →
      ∀ drafts failures, ∃ a, report drafts failures = .ok a) : Course scope ended := by
  cases run with
  | @unscoped e missing =>
    obtain ⟨path,reason,rfl⟩ := unfound e missing
    refine .of_front [.discovering] rfl (by simp [Ended.ofResult,lastPhase,courses]) ?_ ?_ ?_
    · intro before e after split unit
      have quiet : ∀ e ∈ [Event.entered .discovering, .entered .failed], e.phase? ≠ none := by
        simp [Event.phase?]
      exact absurd unit (no_unit_between quiet split)
    · intro limit unit impossible
      cases impossible
    · intro a impossible
      cases impossible
  | @ran found log s within reached stopped =>
    cases reached.narrated with
    | idle jobs progress =>
      exact course_of_idle valid within reached stopped jobs (needed found within jobs) progress
    | classifying pending progress =>
      exact course_of_classifying valid reached stopped pending progress
    | aggregating early late jobs pending split progress =>
      exact course_of_aggregating valid within reached stopped faithful pending split progress

/-- A report that cannot fail leaves open only why no units are found. -/
theorem Analyzed.course_of_sure {ρ : Type} {env : Environment} {scope : Except AnalysisError Scope}
    {made : List GroupingDraft → List AnalysisError → Analysis ρ} {ended : Ended ρ}
    (run : Analyzed env scope (fun drafts failures => .ok (made drafts failures)) ended)
    (valid : env.config.validate = .ok ())
    (unfound : ∀ e, scope = .error e → ∃ path reason, e = .invalidRoot path reason) :
    Course scope ended := by
  refine run.course valid unfound ?_ fun _ _ _ drafts failures => ⟨_,rfl⟩
  intro drafts failures e impossible
  cases impossible

/-! ## The three analyses -/

theorem checkRoot_error {fs : FileSystem} {root : Path} {e : AnalysisError}
    (failed : fs.checkRoot root = .error e) : ∃ reason, e = .invalidRoot root reason := by
  unfold FileSystem.checkRoot at failed
  split at failed
  · cases failed
    exact ⟨_,rfl⟩
  · split at failed
    · cases failed
      exact ⟨_,rfl⟩
    · cases failed

theorem discover_error {fs : FileSystem} {root : Path} {o : DiscoveryOptions} {e : AnalysisError}
    (failed : discover fs root o = .error e) : ∃ reason, e = .invalidRoot root reason := by
  unfold discover at failed
  split at failed
  · cases failed
    exact checkRoot_error ‹_›
  · cases failed

theorem discoverGrouping_error {fs : FileSystem} {directory : Path} {o : DiscoveryOptions}
    {e : AnalysisError} (failed : discoverGrouping fs directory o = .error e) :
    ∃ reason, e = .invalidRoot directory reason := by
  unfold discoverGrouping at failed
  split at failed
  · cases failed
    exact checkRoot_error ‹_›
  · cases failed

/-- The report of a unit fails with a failure of the run, or for want of a report. -/
theorem unitReport_error {unit : Path} {drafts : List GroupingDraft} {failures : List AnalysisError}
    {e : AnalysisError} (failed : unitReport unit drafts failures = .error e) :
    e ∈ failures ∨ e.isUnitFailure = true := by
  unfold unitReport at failed
  split at failed
  · cases failed
    exact .inl (List.mem_of_getLast? ‹_›)
  · split at failed
    · cases failed
    · cases failed
      exact .inr rfl

theorem TreeRun.course {env : Environment} {root : Path} {ended : Ended TreeReport}
    (valid : env.config.validate = .ok ()) (run : TreeRun env root ended) :
    Course (treeScope env root) ended :=
  Analyzed.course_of_sure run valid fun _ missing => ⟨root,discover_error (map_eq_error missing)⟩

theorem GroupingRun.course {env : Environment} {directory : Path} {ended : Ended GroupingReport}
    (valid : env.config.validate = .ok ()) (run : GroupingRun env directory ended) :
    Course (groupingScope env directory) ended :=
  Analyzed.course_of_sure run valid fun _ missing =>
    ⟨directory,discoverGrouping_error (map_eq_error missing)⟩

theorem UnitRun.course {env : Environment} {unit : Path} {ended : Ended UnitReport}
    (valid : env.config.validate = .ok ()) (run : UnitRun env unit ended) :
    Course (unitScope env unit) ended := by
  refine Analyzed.course run valid ?_ ?_ ?_
  · exact fun _ missing => ⟨unitDirectory unit,discoverGrouping_error (map_eq_error missing)⟩
  · exact fun drafts failures e => unitReport_error
  · intro found within none
    have lone : jobsOf found.tree = [⟨0,unit⟩] := unitScope_jobs within
    rw [none] at lone
    cases lone

/-! ## Analyses that break down -/

section Attempt

variable {ρ : Type} {env : Environment} {scope : Except AnalysisError Scope} {run : Ended ρ → Prop}

end Attempt

end Coupling
