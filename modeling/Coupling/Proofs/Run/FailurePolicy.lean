import Coupling.Proofs.Run.Outcome
import Coupling.Proofs.Run.SingleUnit

/-! What the failure of a unit does to a run, under either policy and in any order of receipts. -/
namespace Coupling.Run

open State

theorem failuresIn_eq_nil_iff {log : List Receipt} :
    failuresIn log = [] ↔ ∀ r ∈ log, ∃ unit, r.2 = .ok unit := by
  simp only [failuresIn,List.filterMap_eq_nil_iff]
  constructor
  · intro spared r member
    have none := spared r member
    unfold failure? at none
    split at none
    · exact ⟨_,‹_›⟩
    · cases none
  · intro succeeded r member
    obtain ⟨unit,ok⟩ := succeeded r member
    simp [failure?,ok]

theorem receipt_of_mem_failuresIn {log : List Receipt} {e : AnalysisError}
    (member : e ∈ failuresIn log) : ∃ job, ((job,.error e) : Receipt) ∈ log := by
  obtain ⟨⟨job,outcome⟩,received,failed⟩ := List.mem_filterMap.mp member
  cases outcome with
  | ok unit => cases failed
  | error e' =>
    cases failed
    exact ⟨job,received⟩

/-- A run that is over, given how each of its units ends. -/
structure Contract (plan : Plan) (assign : Job → Outcome) (log : List Receipt) (s : State) : Prop where
  strict_ok : plan.failurePolicy = .failFast → ∀ drafts failures,
    s.collected = .ok (drafts,failures) →
      failures = [] ∧ (∀ job ∈ plan.jobs, ∃ unit, assign job = .ok unit) ∧
      log.Perm (plan.jobs.map fun job => (job,assign job)) ∧ drafts = merged plan.directories log
  strict_error : plan.failurePolicy = .failFast → ∀ e, s.collected = .error e →
    Stalled plan s e ∨ ∃ earlier job, log = earlier ++ [(job,.error e)] ∧
      (∀ r ∈ earlier, ∃ unit, r.2 = .ok unit) ∧ s.drafts = merged plan.directories earlier
  strict_lone : plan.failurePolicy = .failFast → ∀ job e, job ∈ plan.jobs → assign job = .error e →
    (∀ other ∈ plan.jobs, other ≠ job → ∃ unit, assign other = .ok unit) →
    (∀ limit unit, s.collected ≠ .error (.capacityExceeded limit unit)) → s.collected = .error e
  lenient_error : plan.failurePolicy = .bestEffort → ∀ e, s.collected = .error e → Stalled plan s e
  lenient_ok : plan.failurePolicy = .bestEffort → ∀ drafts failures,
    s.collected = .ok (drafts,failures) →
      failures = failuresIn log ∧ log.Perm (plan.jobs.map fun job => (job,assign job)) ∧
      drafts = merged plan.directories log

theorem Reached.contract {plan : Plan} {assign : Job → Outcome} {progress : Progress}
    {log : List Receipt} {s : State} (reached : Reached plan progress log s)
    (positive : 0 < plan.limit) (stopped : s.status ≠ .active)
    (assigned : ∀ r ∈ log, r.2 = assign r.1) : Contract plan assign log s := by
  have collected := reached.collected
  have ending := reached.ending positive stopped
  have received (completed : s.status = .completed) :=
    reached.received_assigned positive completed assigned
  have succeeded (strict : plan.failurePolicy = .failFast)
      {found : List GroupingDraft × List AnalysisError} (ok : s.collected = .ok found) :
      ∀ job ∈ plan.jobs, ∃ unit, assign job = .ok unit := by
    intro job scheduled
    obtain ⟨completed,-,-,spared⟩ := ending.of_ok ok
    have member : (job,assign job) ∈ log :=
      (received completed).mem_iff.mpr (List.mem_map_of_mem scheduled)
    exact failuresIn_eq_nil_iff.mp (spared strict) _ member
  refine ⟨?_,?_,?_,?_,?_⟩
  · intro strict drafts failures ok
    obtain ⟨completed,rfl,rfl,-⟩ := ending.of_ok ok
    exact ⟨by rw [collected.failures,strict],succeeded strict ok,received completed,collected.drafts⟩
  · intro _ e error
    rcases ending.of_error error with stalled | ⟨-,earlier,job,last,spared⟩
    · exact .inl stalled
    · refine .inr ⟨earlier,job,last,failuresIn_eq_nil_iff.mp spared,?_⟩
      rw [collected.drafts, last]
      simp [merged,mergeReceipt]
  · intro strict job e scheduled fails others uncapped
    cases result : s.collected with
    | ok found =>
      obtain ⟨unit,ok⟩ := succeeded strict result job scheduled
      cases fails.symm.trans ok
    | error e' =>
      rcases ending.of_error result with stalled | ⟨-,earlier,job',last,-⟩
      · obtain ⟨-,blocked,rest,-,rfl⟩ := stalled
        exact absurd result (uncapped _ _)
      · have member : ((job',.error e') : Receipt) ∈ log := by simp [last]
        have fails' : assign job' = .error e' := (assigned _ member).symm
        by_cases same : job' = job
        · rw [same] at fails'
          cases fails.symm.trans fails'
          rfl
        · obtain ⟨unit,ok⟩ := others job' (reached.account.received_scheduled member) same
          cases fails'.symm.trans ok
  · intro lenient e error
    rcases ending.of_error error with stalled | ⟨strict,-⟩
    · exact stalled
    · rw [lenient] at strict
      cases strict
  · intro lenient drafts failures ok
    obtain ⟨completed,rfl,rfl,-⟩ := ending.of_ok ok
    exact ⟨by rw [collected.failures,lenient],received completed,collected.drafts⟩

/-- Each failure that is listed was received, and names the unit that it was received for. -/
theorem Reached.failure_concerns {env : Environment} {scope : Scope} {progress : Progress}
    {log : List Receipt} {s : State} (reached : Reached (Plan.ofScope env scope) progress log s)
    {e : AnalysisError} (listed : e ∈ s.failures) :
    ∃ job, ((job,.error e) : Receipt) ∈ log ∧ e.Concerns job.path := by
  have member : e ∈ failuresIn log := by
    rw [reached.collected.failures] at listed
    split at listed
    · cases listed
    · exact listed
  obtain ⟨job,received⟩ := receipt_of_mem_failuresIn member
  exact ⟨job,received,(reached.possible _ (List.mem_append_left _ received)).concerns rfl⟩

/-- No run goes on for ever, and the schedule brings each one to its end. A strict run ends with the first
failure that it receives, a lenient one lists all of them, each with its unit, and the analysis of a single
unit makes no difference between the two. -/
theorem failure_policy_contract :
    (∀ (plan : Plan) (progress : Progress),
      (∀ moves log s, replay plan moves (initial plan progress) = some (log,s) →
        moves.length ≤ maxMoves plan) ∧
      ∀ timing, 0 < plan.limit → 0 < plan.workers →
        ∃ log, Reached plan progress log (execute plan timing progress) ∧
          (execute plan timing progress).status ≠ .active) ∧
    (∀ (plan : Plan) (assign : Job → Outcome) (progress : Progress) (log : List Receipt) (s : State),
      0 < plan.limit → Reached plan progress log s → s.status ≠ .active →
      (∀ r ∈ log, r.2 = assign r.1) → Contract plan assign log s) ∧
    (∀ (env : Environment) (scope : Scope) (progress : Progress) (log : List Receipt) (s : State),
      Reached (Plan.ofScope env scope) progress log s → ∀ e ∈ s.failures,
        ∃ job, ((job,.error e) : Receipt) ∈ log ∧ e.isUnitFailure = true ∧ e.unit = some job.path) ∧
    (∀ (env : Environment) (unit : Path) (scope : Scope), env.config.validate = .ok () →
      unitScope env unit = .ok scope →
      (∀ (progress : Progress) (log : List Receipt) (s : State) (job : Job) (e : AnalysisError),
        Reached (Plan.ofScope env scope) progress log s → s.status ≠ .active →
        ((job,.error e) : Receipt) ∈ log → s.conclude (unitReport unit) = .error e) ∧
      ∀ e, dueOutcome (Plan.ofScope env scope) ⟨env.reader.delay,env.config.admissionTimeout⟩
          ⟨0,unit⟩ = .error e →
        (analyzeUnit env unit).result = .error e) := by
  refine ⟨?_,?_,?_,?_⟩
  · intro plan progress
    refine ⟨?_,fun timing positive staffed => execute_over positive staffed timing progress⟩
    intro moves log s made
    have spent := replay_length made
    have budget := rank_initial_le plan progress
    omega
  · exact fun plan assign progress log s positive reached stopped assigned =>
      reached.contract positive stopped assigned
  · exact fun env scope progress log s reached e listed => reached.failure_concerns listed
  · intro env unit scope valid found
    refine ⟨?_,?_⟩
    · intro progress log s job e reached stopped received
      have alone := reached.log_single (unitScope_jobs found) received
      rw [alone] at reached
      exact conclude_single valid found reached stopped
    · intro e failed
      rw [analyzeUnit_result valid found, failed]
      rfl

def firstGone (path : Path) : Outcome :=
  if path = ⟨"d/A.java"⟩ then .error (.unreadable path "gone") else .ok ⟨⟨"B",[]⟩,none⟩

def firstGonePlan : Plan where
  limit := 2
  workers := 2
  unitTimeout := 1
  failurePolicy := .failFast
  directories := [⟨"d"⟩]
  jobs := [⟨0,⟨"d/A.java"⟩⟩, ⟨0,⟨"d/B.java"⟩⟩]
  classify := firstGone

def firstGoneMoves : List Move :=
  [.spawn, .spawn, .acquire 0, .acquire 1, .start 1, .start 0, .finish 1, .finish 0, .receive, .receive]

def unreadable (policy : FailurePolicy) : Environment where
  files := FileSystem.empty []
  reader := ⟨fun _ => .failure "gone",fun _ => 0⟩
  config := { Config.default with failurePolicy := policy }

theorem failure_policy_unreadable :
    (∃ log s, replay firstGonePlan firstGoneMoves (initial firstGonePlan .start) =
        some (log,s) ∧
      log.map (fun r => r.1.path) = [⟨"d/B.java"⟩, ⟨"d/A.java"⟩] ∧
      s.collected = .error (.unreadable ⟨"d/A.java"⟩ "gone")) ∧
    ∀ policy, (analyzeUnit (unreadable policy) ⟨"A.java"⟩).result =
      .error (.unreadable ⟨"A.java"⟩ "gone") := by
  obtain ⟨-,contract,-,single⟩ := failure_policy_contract
  constructor
  · have made : replay firstGonePlan firstGoneMoves (initial firstGonePlan .start) =
        some ([(⟨0,⟨"d/B.java"⟩⟩,firstGone ⟨"d/B.java"⟩),
          (⟨0,⟨"d/A.java"⟩⟩,firstGone ⟨"d/A.java"⟩)],_) := rfl
    refine ⟨_,_,made,rfl,?_⟩
    have reached := Reached.start.replay made
    have kept := contract firstGonePlan (fun job => firstGone job.path) _ _ _ (by decide)
      reached (by decide) (by simp)
    refine kept.strict_lone rfl ⟨0,⟨"d/A.java"⟩⟩ _ (by decide) rfl ?_ ?_
    · intro other scheduled different
      simp only [firstGonePlan,List.mem_cons,List.not_mem_nil,or_false] at scheduled
      rcases scheduled with rfl | rfl
      · exact absurd rfl different
      · exact ⟨_,rfl⟩
    · intro limit unit impossible
      cases impossible
  · intro policy
    exact (single (unreadable policy) ⟨"A.java"⟩ _ rfl rfl).2 _ rfl

end Coupling.Run
