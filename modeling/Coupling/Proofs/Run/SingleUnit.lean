import Coupling.Proofs.Run.Aggregation
import Coupling.Proofs.Run.Termination

/-! Runs over one unit. All that can differ between them is the outcome of that unit, and the schedule
settles this by comparing the time that the work takes with the time that it is given. -/
namespace Coupling.Run

open State

variable {plan : Plan} {job : Job}

/-! ## Any run -/

def collectedFrom (plan : Plan) (job : Job) :
    Outcome → Except AnalysisError (List GroupingDraft × List AnalysisError)
  | .ok unit => .ok (merged plan.directories [(job,.ok unit)],[])
  | .error e =>
    match plan.failurePolicy with
    | .failFast => .error e
    | .bestEffort => .ok (merged plan.directories [],[e])

/-- A single unit never waits for room. -/
theorem Reached.not_stalled_single {progress : Progress} {log : List Receipt} {s : State}
    {e : AnalysisError} (reached : Reached plan progress log s) (positive : 0 < plan.limit)
    (jobs : plan.jobs = [job]) : ¬Stalled plan s e := by
  rintro ⟨blocked,_,rest,pending,-⟩
  have counted := reached.account.inFlight
  have order := congrArg List.length reached.account.order
  simp only [pending,jobs,List.length_append,List.length_map,List.length_cons,List.length_nil] at order
  omega

theorem Reached.collected_single {progress : Progress} {s : State} {outcome : Outcome}
    (reached : Reached plan progress [(job,outcome)] s) (positive : 0 < plan.limit)
    (jobs : plan.jobs = [job]) (stopped : s.status ≠ .active) :
    s.collected = collectedFrom plan job outcome := by
  have drafts := reached.collected.drafts
  have failures := reached.collected.failures
  cases reached.ending positive stopped with
  | completed status _ spared =>
    rw [collected_of_completed status, drafts, failures]
    cases outcome with
    | ok unit => cases policy : plan.failurePolicy <;> simp [collectedFrom]
    | error e =>
      cases policy : plan.failurePolicy with
      | failFast => cases spared policy
      | bestEffort => simp [collectedFrom,policy,merged,mergeReceipt]
  | stalled _ stalled => exact absurd stalled (reached.not_stalled_single positive jobs)
  | @failed earlier _ e status strict last _ =>
    rw [collected_of_aborted status]
    have lone : earlier = [] := by simpa using congrArg List.length last
    subst lone
    cases last
    simp [collectedFrom,strict]

/-- Nothing is received but the one outcome of the one unit. -/
theorem Reached.log_single {progress : Progress} {log : List Receipt} {s : State} {r : Receipt}
    (reached : Reached plan progress log s) (jobs : plan.jobs = [job]) (member : r ∈ log) :
    log = [(job,r.2)] := by
  have counted := reached.account.inFlight
  have length := congrArg List.length reached.account.order
  simp only [jobs,List.length_append,List.length_map,List.length_singleton] at length
  have received := List.length_pos_of_mem member
  obtain ⟨r',alone⟩ := List.length_eq_one_iff.mp (show log.length = 1 by omega)
  have scheduled := reached.account.received_scheduled member
  rw [jobs] at scheduled
  rw [alone] at member ⊢
  rw [← List.mem_singleton.mp member, ← List.mem_singleton.mp scheduled]

/-- A run over one unit ends with the outcome of that unit. -/
theorem Reached.received_single {progress : Progress} {log : List Receipt} {s : State}
    (reached : Reached plan progress log s) (positive : 0 < plan.limit) (jobs : plan.jobs = [job])
    (stopped : s.status ≠ .active) : ∃ outcome, log = [(job,outcome)] := by
  have single {r : Receipt} (member : r ∈ log) : ∃ outcome, log = [(job,outcome)] :=
    ⟨_,reached.log_single jobs member⟩
  cases reached.ending positive stopped with
  | completed _ all _ =>
    have length := all.length_eq
    simp only [jobs,List.length_map,List.length_singleton] at length
    obtain ⟨r,rfl⟩ := List.length_eq_one_iff.mp length
    exact single (List.mem_singleton_self r)
  | stalled _ stalled => exact absurd stalled (reached.not_stalled_single positive jobs)
  | @failed earlier lastJob e _ _ last _ =>
    apply single (r := (lastJob,.error e))
    simp [last]

/-! ## The schedule -/

def lone (plan : Plan) (task : Task) (channel : List Receipt) (progress : Progress) : State where
  pending := []
  tasks := [task]
  channel := channel
  inFlight := 1
  drafts := plan.directories.map GroupingDraft.empty
  failures := []
  progress := progress
  status := .active

/-- The outcome of a unit under the clock: the work counts if it is done in time. -/
def dueOutcome (plan : Plan) (timing : Timing) (job : Job) : Outcome :=
  if timing.work job.path ≤ plan.unitTimeout then plan.classify job.path
  else .error (.timeout job.path plan.unitTimeout)

theorem follow_move {timing : Timing} {s s' : State} {c : Clock} {m : Nat × Move} (fuel : Nat)
    (chosen : next plan timing s c = some m) (moved : step plan s m.2 = some s') :
    follow plan timing (fuel + 1) s c = follow plan timing fuel s' (c.advance m.1 m.2) := by
  simp [follow,chosen,moved]

theorem follow_of_over {timing : Timing} {s : State} {c : Clock} (fuel : Nat)
    (stopped : s.status ≠ .active) : follow plan timing fuel s c = s := by
  cases fuel with
  | zero => rfl
  | succ fuel => simp [follow,next,stopped]

section Lone

variable (timing : Timing) (c : Clock) (p : Progress)

theorem next_spawn (positive : 0 < plan.limit) (jobs : plan.jobs = [job]) :
    next plan timing (initial plan p) c = some (c.now,.spawn) := by
  simp [next,State.initial,settle,canSpawn,jobs,positive]

theorem step_spawn (positive : 0 < plan.limit) (jobs : plan.jobs = [job]) :
    ∃ p', step plan (initial plan p) .spawn = some (lone plan ⟨job,.waiting,false⟩ [] p') := by
  simp [step,spawn,State.initial,settle,canSpawn,jobs,positive,lone]

theorem next_acquire (staffed : 0 < plan.workers) :
    next plan timing (lone plan ⟨job,.waiting,false⟩ [] p) c = some (c.now,.acquire 0) := by
  simp [next,lone,canSpawn,busyWorkers,Stage.holdsWorker,staffed]

theorem step_acquire (staffed : 0 < plan.workers) :
    step plan (lone plan ⟨job,.waiting,false⟩ [] p) (.acquire 0) =
      some (lone plan ⟨job,.cleared,false⟩ [] p) := by
  simp [step,acquire,lone,busyWorkers,Stage.holdsWorker,staffed,setTask]

theorem next_start :
    next plan timing (lone plan ⟨job,.cleared,false⟩ [] p) c = some (c.now,.start 0) := by
  simp [next,lone,canSpawn]

theorem step_start :
    step plan (lone plan ⟨job,.cleared,false⟩ [] p) (.start 0) =
      some (lone plan ⟨job,.running,false⟩ [] p) := by
  simp [step,start,lone,setTask]

theorem next_end : next plan timing (lone plan ⟨job,.running,false⟩ [] p) c =
    if timing.work job.path ≤ plan.unitTimeout then
      some (c.startOf 0 + timing.work job.path,.finish 0)
    else some (c.startOf 0 + plan.unitTimeout,.expire 0) := by
  by_cases inTime : timing.work job.path ≤ plan.unitTimeout
  · simp [next,lone,canSpawn,dueMoves,earliest,Stage.holdsWorker,inTime]
  · simp [next,lone,canSpawn,dueMoves,earliest,Stage.holdsWorker,inTime,Nat.lt_of_not_le inTime]

/-- The work ends or the time does, and either way the outcome is sent. -/
theorem step_end : ∃ m t, next plan timing (lone plan ⟨job,.running,false⟩ [] p) c = some m ∧
    step plan (lone plan ⟨job,.running,false⟩ [] p) m.2 =
      some (lone plan t [(job,dueOutcome plan timing job)] p) ∧
    m.2 ≠ .receive ∧ (t.stage = .running ∨ t.stage = .ended) := by
  by_cases inTime : timing.work job.path ≤ plan.unitTimeout
  · refine ⟨_,⟨job,.ended,true⟩,by rw [next_end,if_pos inTime],?_,by simp,.inr rfl⟩
    simp [step,finish,lone,setTask,send,dueOutcome,inTime]
  · refine ⟨_,⟨job,.running,true⟩,by rw [next_end,if_neg inTime],?_,by simp,.inl rfl⟩
    simp [step,expire,lone,setTask,send,dueOutcome,inTime,Stage.holdsWorker]

theorem next_receive {t : Task} {r : Receipt} (busy : t.stage = .running ∨ t.stage = .ended) :
    next plan timing (lone plan t [r] p) c = some (c.now,.receive) := by
  rcases busy with running | ended
  · simp [next,lone,canSpawn,running]
  · simp [next,lone,canSpawn,ended]

theorem step_receive (t : Task) (r : Receipt) :
    ∃ s, step plan (lone plan t [r] p) .receive = some s ∧ s.status ≠ .active := by
  refine ⟨take plan { lone plan t [r] p with channel := [], inFlight := 0 } r.1 r.2,
    by simp [step,receive,lone,canSpawn],?_⟩
  rw [take_status]
  split <;> simp [lone,canSpawn]

end Lone

/-- The schedule receives the outcome that is due, and nothing else. -/
theorem execute_single (positive : 0 < plan.limit) (staffed : 0 < plan.workers)
    (jobs : plan.jobs = [job]) (timing : Timing) (progress : Progress) :
    Reached plan progress [(job,dueOutcome plan timing job)] (execute plan timing progress) ∧
      (execute plan timing progress).status ≠ .active := by
  obtain ⟨p,spawned⟩ := step_spawn progress positive jobs
  have acquired : step plan (lone plan ⟨job,.waiting,false⟩ [] p) (.acquire 0) = _ :=
    step_acquire p staffed
  have started : step plan (lone plan ⟨job,.cleared,false⟩ [] p) (.start 0) = _ := step_start p
  obtain ⟨m,t,chosen,sent,silent,busy⟩ := @step_end plan job timing ⟨0,[(0,0)],0⟩ p
  obtain ⟨s,received,stopped⟩ := @step_receive plan p t (job,dueOutcome plan timing job)
  have working : Reached plan progress [] (lone plan ⟨job,.running,false⟩ [] p) :=
    ((Reached.start.next spawned).next acquired).next started
  have buffered : Reached plan progress [] (lone plan t [(job,dueOutcome plan timing job)] p) := by
    have quiet : Run.received (lone plan ⟨job,.running,false⟩ [] p) m.2 = [] := by
      unfold Run.received
      split
      · exact absurd ‹_› silent
      · rfl
    simpa [quiet] using working.next sent
  have final : execute plan timing progress = s := by
    calc execute plan timing progress
      _ = follow plan timing 7 (initial plan progress) Clock.zero := by simp [execute,maxMoves,jobs]
      _ = follow plan timing 6 _ _ := follow_move 6 (next_spawn timing _ progress positive jobs) spawned
      _ = follow plan timing 5 _ _ := follow_move 5 (next_acquire timing _ p staffed) acquired
      _ = follow plan timing 4 _ _ := follow_move 4 (next_start timing _ p) started
      _ = follow plan timing 3 _ _ := follow_move 3 chosen sent
      _ = follow plan timing 2 s _ := follow_move 2 (next_receive timing _ p busy) received
      _ = s := follow_of_over 2 stopped
  rw [final]
  exact ⟨buffered.next received,stopped⟩

end Coupling.Run

namespace Coupling

open Run

/-! ## The analysis of a unit -/

variable {env : Environment} {unit : Path} {scope : Scope}

theorem unitScope_groupings (found : unitScope env unit = .ok scope) :
    ∃ directory, scope.tree.groupings = [(directory,[unit])] := by
  cases siblings : discoverGrouping env.files (unitDirectory unit) env.config.discoveryOptions with
  | error e =>
    simp only [unitScope,siblings] at found
    cases found
  | ok tree =>
    simp only [unitScope,siblings] at found
    cases found
    exact ⟨_,rfl⟩

theorem unitScope_jobs (found : unitScope env unit = .ok scope) :
    (Plan.ofScope env scope).jobs = [⟨0,unit⟩] := by
  obtain ⟨directory,groupings⟩ := unitScope_groupings found
  simp [Plan.ofScope,jobsOf,groupings]

/-- Whatever the policy, the outcome of the unit is what its analysis ends in. -/
theorem conclude_single {progress : Progress} {s : State} {outcome : Outcome}
    (valid : env.config.validate = .ok ()) (found : unitScope env unit = .ok scope)
    (reached : Reached (Plan.ofScope env scope) progress [(⟨0,unit⟩,outcome)] s)
    (stopped : s.status ≠ .active) :
    s.conclude (unitReport unit) = outcome.map fun u => ⟨u.report,[]⟩ := by
  obtain ⟨directory,groupings⟩ := unitScope_groupings found
  have directories : (Plan.ofScope env scope).directories = [directory] := by
    simp [Plan.ofScope,SourceTree.directories,groupings]
  have collected := reached.collected_single (limit_pos valid) (unitScope_jobs found) stopped
  cases outcome with
  | ok u =>
    simp only [State.conclude,collected,collectedFrom,directories]
    rfl
  | error e =>
    cases policy : (Plan.ofScope env scope).failurePolicy with
    | failFast =>
      simp only [State.conclude,collected,collectedFrom,policy]
      rfl
    | bestEffort =>
      simp only [State.conclude,collected,collectedFrom,policy]
      rfl

theorem ofResult_result {ρ : Type} (progress : Progress)
    (result : Except AnalysisError (Analysis ρ)) : (Ended.ofResult progress result).result = result := by
  cases result <;> rfl

theorem analyzeUnit_result (valid : env.config.validate = .ok ())
    (found : unitScope env unit = .ok scope) :
    (analyzeUnit env unit).result =
      (dueOutcome (Plan.ofScope env scope) ⟨env.reader.delay,env.config.admissionTimeout⟩
        ⟨0,unit⟩).map fun u => ⟨u.report,[]⟩ := by
  have single := execute_single (limit_pos valid) (workers_pos valid) (unitScope_jobs found)
    ⟨env.reader.delay,env.config.admissionTimeout⟩ (Progress.start.enter .discovering)
  simp only [analyzeUnit,analyzeScope,found,ofResult_result]
  exact conclude_single valid found single.1 single.2

end Coupling
