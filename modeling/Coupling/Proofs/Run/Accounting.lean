import Coupling.Proofs.Run.History

/-! Where the outcome of each scheduled unit is. It is received, buffered, still owed by its task, or was
sent to a run that is over; the number of units in flight and the load of the channel follow from that
alone. -/
namespace Coupling.Run

open State

/-! ## Outcomes that tasks owe -/

def owing (tasks : List Task) : List Task := tasks.filter fun t => !t.reported

theorem mem_owing {t : Task} {tasks : List Task} : t ∈ owing tasks ↔ t ∈ tasks ∧ t.reported = false := by
  simp [owing]

/-- A task keeps its unit for good. -/
theorem jobs_set {tasks : List Task} {i : Nat} {t : Task} (found : tasks[i]? = some t) (t' : Task)
    (same : t'.job = t.job) : (tasks.set i t').map Task.job = tasks.map Task.job := by
  obtain ⟨bound,rfl⟩ := List.getElem?_eq_some_iff.mp found
  apply List.ext_getElem?
  intro j
  by_cases here : i = j
  · subst j
    simp [bound,same]
  · simp [here]

theorem owing_set_of_same {tasks : List Task} {i : Nat} {t : Task} (found : tasks[i]? = some t)
    (t' : Task) (job : t'.job = t.job) (reported : t'.reported = t.reported) :
    (owing (tasks.set i t')).map Task.job = (owing tasks).map Task.job := by
  induction tasks generalizing i with
  | nil => simp at found
  | cons head rest ih =>
    cases i with
    | zero =>
      cases found
      by_cases told : t.reported = true <;> simp [owing,reported,job,told]
    | succ i =>
      have later := ih found
      simp only [owing] at later
      by_cases told : head.reported = true <;> simp [owing,told,later]

/-- A task that sends its outcome owes nothing more. -/
theorem owing_set_of_reported {tasks : List Task} {i : Nat} {t : Task} (found : tasks[i]? = some t)
    (t' : Task) (fresh : t.reported = false) (reported : t'.reported = true) :
    ((owing tasks).map Task.job).Perm (t.job :: (owing (tasks.set i t')).map Task.job) := by
  induction tasks generalizing i with
  | nil => simp at found
  | cons head rest ih =>
    cases i with
    | zero =>
      cases found
      simp [owing,fresh,reported]
    | succ i =>
      have later := ih found
      by_cases told : head.reported = true
      · simpa [owing,List.filter_cons,told] using later
      · simp only [owing] at later
        simp only [owing,List.set_cons_succ,List.filter_cons,told,Bool.not_false,if_true,
          List.map_cons]
        exact (later.cons _).trans (.swap ..)

/-! ## The account of a run -/

structure Account (plan : Plan) (log : List Receipt) (s : State) : Prop where
  order : s.tasks.map Task.job ++ s.pending = plan.jobs
  inFlight : s.inFlight + log.length = s.tasks.length
  bound : s.inFlight ≤ plan.limit
  conserved : ∃ lost, (log.map Prod.fst ++ s.channel.map Prod.fst ++
      (owing s.tasks).map Task.job ++ lost).Perm (s.tasks.map Task.job) ∧
    (lost = [] ∨ s.status ≠ .active)

theorem initial_account (plan : Plan) (progress : Progress) :
    Account plan [] (State.initial plan progress) := by
  constructor <;> simp [State.initial,owing]

namespace Account

variable {plan : Plan} {log : List Receipt} {s : State}

/-- While a run is active, what is in flight is buffered or owed. -/
theorem load (account : Account plan log s) (active : s.status = .active) :
    s.inFlight = s.channel.length + (owing s.tasks).length := by
  obtain ⟨lost,perm,rfl | stopped⟩ := account.conserved
  · have length := perm.length_eq
    simp only [List.length_append,List.length_map,List.length_nil] at length
    have := account.inFlight
    omega
  · exact absurd active stopped

theorem load_le (account : Account plan log s) :
    s.channel.length + (owing s.tasks).length ≤ s.inFlight := by
  obtain ⟨lost,perm,-⟩ := account.conserved
  have length := perm.length_eq
  simp only [List.length_append,List.length_map] at length
  have := account.inFlight
  omega

/-- With nothing in flight, the outcome of every scheduled unit has been received. -/
theorem all_received (account : Account plan log s) (landed : s.inFlight = 0) :
    (log.map Prod.fst).Perm (s.tasks.map Task.job) := by
  obtain ⟨lost,perm,-⟩ := account.conserved
  have length := perm.length_eq
  have counted := account.inFlight
  simp only [List.length_append,List.length_map] at length
  have channel : s.channel = [] := List.eq_nil_of_length_eq_zero (by omega)
  have owed : owing s.tasks = [] := List.eq_nil_of_length_eq_zero (by omega)
  have none : lost = [] := List.eq_nil_of_length_eq_zero (by omega)
  simpa [channel,owed,none] using perm

theorem received_scheduled (account : Account plan log s) {r : Receipt} (member : r ∈ log) :
    r.1 ∈ plan.jobs := by
  obtain ⟨lost,perm,-⟩ := account.conserved
  have known : r.1 ∈ s.tasks.map Task.job := perm.mem_iff.mp (by simp [List.mem_map_of_mem member])
  rw [← account.order]
  exact List.mem_append_left s.pending known

/-! ## What each effect does to the account -/

theorem spawned {job : Job} {rest : List Job} (account : Account plan log s)
    (active : s.status = .active) (room : s.inFlight < plan.limit)
    (pending : s.pending = job :: rest) :
    Account plan log (settle plan { s with
      pending := rest
      tasks := s.tasks ++ [⟨job,.waiting,false⟩]
      inFlight := s.inFlight + 1 }) where
  order := by simpa [pending] using account.order
  inFlight := by
    have := account.inFlight
    simp only [settle_inFlight,settle_tasks,List.length_append,List.length_singleton]
    omega
  bound := by
    rw [settle_inFlight]
    exact room
  conserved := by
    obtain ⟨lost,perm,rfl | stopped⟩ := account.conserved
    · refine ⟨[],?_,.inl rfl⟩
      simpa [owing] using perm.append_right [job]
    · exact absurd active stopped

theorem advanced {i : Nat} {t : Task} (account : Account plan log s) (found : s.tasks[i]? = some t)
    (stage : Stage) : Account plan log (s.setTask i { t with stage := stage }) := by
  have jobs := jobs_set found { t with stage := stage } rfl
  have owed := owing_set_of_same found { t with stage := stage } rfl rfl
  constructor
  · rw [setTask_tasks, jobs]
    exact account.order
  · simpa using account.inFlight
  · exact account.bound
  · rw [setTask_tasks, jobs, owed]
    exact account.conserved

/-- The outcome goes from its task to the channel, or is lost if nobody listens. -/
theorem reported {i : Nat} {t : Task} (account : Account plan log s) (found : s.tasks[i]? = some t)
    (fresh : t.reported = false) (stage : Stage) (outcome : Outcome) :
    Account plan log
      ((s.setTask i { t with stage := stage, reported := true }).send t.job outcome) := by
  have jobs := jobs_set found { t with stage := stage, reported := true } rfl
  have owed := owing_set_of_reported found { t with stage := stage, reported := true } fresh rfl
  constructor
  · rw [send_tasks, setTask_tasks, jobs]
    simpa using account.order
  · simpa using account.inFlight
  · simpa using account.bound
  · obtain ⟨lost,perm,gone⟩ := account.conserved
    rw [send_tasks, send_channel, send_status, setTask_tasks, setTask_status, setTask_channel, jobs]
    by_cases active : s.status = .active
    · refine ⟨lost,?_,gone⟩
      rw [if_pos active]
      refine .trans ?_ perm
      simp only [List.map_append,List.map_cons,List.map_nil,List.append_assoc,List.singleton_append]
      exact ((owed.append_right lost).symm.append_left _).append_left _
    · refine ⟨t.job :: lost,?_,.inr active⟩
      rw [if_neg active]
      refine .trans ?_ perm
      simp only [List.append_assoc]
      exact ((List.perm_middle.trans (owed.append_right lost).symm).append_left _).append_left _

theorem received {job : Job} {outcome : Outcome} {rest : List Receipt}
    (account : Account plan log s) (active : s.status = .active)
    (channel : s.channel = (job,outcome) :: rest) :
    Account plan (log ++ [(job,outcome)])
      (take plan { s with channel := rest, inFlight := s.inFlight - 1 } job outcome) where
  order := by simpa using account.order
  inFlight := by
    have counted := account.inFlight
    have loaded := account.load_le
    rw [channel] at loaded
    simp only [List.length_cons] at loaded
    simp only [take_inFlight,take_tasks,List.length_append,List.length_singleton]
    omega
  bound := by
    have := account.bound
    simp only [take_inFlight]
    omega
  conserved := by
    obtain ⟨lost,perm,rfl | stopped⟩ := account.conserved
    · exact ⟨[],by simpa [channel] using perm,.inl rfl⟩
    · exact absurd active stopped

/-- A run that ends takes its account with it. -/
theorem ended (account : Account plan log s) (active : s.status = .active) (status : Status) :
    Account plan log { s with status := status } where
  order := account.order
  inFlight := account.inFlight
  bound := account.bound
  conserved := by
    obtain ⟨lost,perm,rfl | stopped⟩ := account.conserved
    · exact ⟨[],perm,.inl rfl⟩
    · exact absurd active stopped

theorem preserved {receipts : List Receipt} {s' : State} (account : Account plan log s)
    (effect : Effect plan s receipts s') : Account plan (log ++ receipts) s' := by
  cases effect with
  | spawned active room pending => simpa using account.spawned active room pending
  | advanced found _ => simpa using account.advanced found _
  | reported found fresh _ => simpa using account.reported found fresh _ _
  | received active _ channel => exact account.received active channel
  | stalled active _ _ _ => simpa using account.ended active _
  | disconnected active _ => simpa using account.ended active _

end Account

theorem Reached.account {plan : Plan} {progress : Progress} {log : List Receipt} {s : State}
    (reached : Reached plan progress log s) : Account plan log s :=
  reached.invariant (Account plan) (initial_account plan progress)
    fun _ _ _ _ account effect => account.preserved effect

/-! ## How a run ends -/

/-- No unit was received in time while as many were in flight as may be. -/
def Stalled (plan : Plan) (s : State) (e : AnalysisError) : Prop :=
  s.inFlight = plan.limit ∧
    ∃ job rest, s.pending = job :: rest ∧ e = .capacityExceeded plan.limit job.path

/-- The last outcome that was received is a failure that the run does not bear. -/
def Failed (plan : Plan) (log : List Receipt) (e : AnalysisError) : Prop :=
  plan.failurePolicy = .failFast ∧ ∃ earlier job, log = earlier ++ [(job,.error e)]

structure Standing (plan : Plan) (log : List Receipt) (s : State) : Prop where
  active : s.status = .active → s.canSpawn plan = true ∨ 0 < s.inFlight
  completed : s.status = .completed → s.pending = [] ∧ s.inFlight = 0
  aborted : ∀ e, s.status = .aborted e → Stalled plan s e ∨ Failed plan log e

theorem canSpawn_eq_false {plan : Plan} {s : State} :
    s.canSpawn plan = false ↔ plan.limit ≤ s.inFlight ∨ s.pending = [] := by
  simp [canSpawn,Decidable.imp_iff_not_or]

namespace Standing

variable {plan : Plan} {log : List Receipt} {s : State}

/-- A run is completed only when no unit is left, since one unit at least may be in flight. -/
theorem settled (positive : 0 < plan.limit) (active : s.status = .active) (log : List Receipt) :
    Standing plan log (settle plan s) where
  active going := by
    rw [settle_status] at going
    rw [settle_canSpawn, settle_inFlight]
    by_cases stopped : s.canSpawn plan = false ∧ s.inFlight = 0
    · rw [if_pos stopped] at going
      cases going
    · by_cases room : s.canSpawn plan = true
      · exact .inl room
      · have := Bool.eq_false_iff.mpr room
        exact .inr (Nat.pos_of_ne_zero fun landed => stopped ⟨this,landed⟩)
  completed done := by
    rw [settle_status] at done
    rw [settle_pending, settle_inFlight]
    split at done
    · rename_i stopped
      refine ⟨?_,stopped.2⟩
      rcases canSpawn_eq_false.mp stopped.1 with full | none
      · omega
      · exact none
    · rw [active] at done
      cases done
  aborted e failed := by
    rw [settle_status] at failed
    split at failed
    · cases failed
    · rw [active] at failed
      cases failed

theorem initial (positive : 0 < plan.limit) (progress : Progress) :
    Standing plan [] (State.initial plan progress) :=
  settled positive rfl []

/-- Tasks by themselves move neither counters nor status. -/
theorem congr {s' : State} (standing : Standing plan log s) (pending : s'.pending = s.pending)
    (inFlight : s'.inFlight = s.inFlight) (status : s'.status = s.status) : Standing plan log s' where
  active := by simpa [canSpawn,pending,inFlight,status] using standing.active
  completed := by simpa [pending,inFlight,status] using standing.completed
  aborted := by simpa [Stalled,pending,inFlight,status] using standing.aborted

theorem received (positive : 0 < plan.limit) (active : s.status = .active) (log : List Receipt)
    (job : Job) (outcome : Outcome) :
    Standing plan (log ++ [(job,outcome)]) (take plan s job outcome) := by
  cases outcome with
  | ok unit =>
    apply settled positive
    exact active
  | error e =>
    cases policy : plan.failurePolicy with
    | failFast =>
      have status : (take plan s job (.error e)).status = .aborted e := by
        rw [take_status, policy]
      refine ⟨?_,?_,?_⟩
      · rw [status]
        intro impossible
        cases impossible
      · rw [status]
        intro impossible
        cases impossible
      · rw [status]
        rintro e' equal
        cases equal
        exact .inr ⟨policy,log,job,rfl⟩
    | bestEffort =>
      simp only [take,policy]
      apply settled positive
      exact active

theorem preserved {receipts : List Receipt} {s' : State} (positive : 0 < plan.limit)
    (account : Account plan log s) (standing : Standing plan log s)
    (effect : Effect plan s receipts s') : Standing plan (log ++ receipts) s' := by
  cases effect with
  | spawned active room pending =>
    apply settled positive
    exact active
  | advanced found _ =>
    rw [List.append_nil]
    exact standing.congr rfl rfl rfl
  | reported found fresh _ =>
    rw [List.append_nil]
    exact standing.congr (by simp) (by simp) (by simp)
  | received active full channel =>
    apply received positive
    exact active
  | stalled active full empty pending =>
    refine ⟨?_,?_,?_⟩
    · intro impossible
      cases impossible
    · intro impossible
      cases impossible
    · rintro e equal
      cases equal
      refine .inl ⟨?_,_,_,pending,rfl⟩
      rcases canSpawn_eq_false.mp full with limit | none
      · exact Nat.le_antisymm account.bound limit
      · rw [pending] at none
        cases none
  | disconnected active lone => simp [senders,active] at lone

end Standing

theorem Reached.standing {plan : Plan} {progress : Progress} {log : List Receipt} {s : State}
    (reached : Reached plan progress log s) (positive : 0 < plan.limit) : Standing plan log s := by
  induction reached with
  | start => exact .initial positive progress
  | next before moved ih => exact ih.preserved positive before.account (step_effect moved)

/-- A completed run has received an outcome for each of its units, and for each exactly one. -/
theorem Reached.received_all {plan : Plan} {progress : Progress} {log : List Receipt} {s : State}
    (reached : Reached plan progress log s) (positive : 0 < plan.limit)
    (completed : s.status = .completed) : s.pending = [] ∧ (log.map Prod.fst).Perm plan.jobs := by
  obtain ⟨pending,landed⟩ := (reached.standing positive).completed completed
  have order := reached.account.order
  rw [pending, List.append_nil] at order
  exact ⟨pending,order ▸ reached.account.all_received landed⟩

/-- If units end as they are assigned to, a completed run has received just these outcomes. -/
theorem Reached.received_assigned {plan : Plan} {progress : Progress} {log : List Receipt} {s : State}
    {assign : Job → Outcome} (reached : Reached plan progress log s) (positive : 0 < plan.limit)
    (completed : s.status = .completed) (assigned : ∀ r ∈ log, r.2 = assign r.1) :
    log.Perm (plan.jobs.map fun job => (job,assign job)) := by
  have same : log = (log.map Prod.fst).map fun job => (job,assign job) := by
    rw [List.map_map]
    refine (List.map_id log).symm.trans (List.map_congr_left ?_)
    exact fun r member => Prod.ext rfl (assigned r member)
  rw [same]
  exact (reached.received_all positive completed).2.map _

/-- While the aggregator waits for an outcome, some task owes one. -/
theorem Reached.waiting_owed {plan : Plan} {progress : Progress} {log : List Receipt} {s : State}
    (reached : Reached plan progress log s) (positive : 0 < plan.limit) (active : s.status = .active)
    (full : s.canSpawn plan = false) (empty : s.channel = []) :
    ∃ t ∈ s.tasks, t.reported = false := by
  have flying : 0 < s.inFlight := by
    rcases (reached.standing positive).active active with room | flying
    · rw [full] at room
      cases room
    · exact flying
  have load := reached.account.load active
  rw [empty] at load
  have owed : 0 < (owing s.tasks).length := by
    simp only [List.length_nil] at load
    omega
  obtain ⟨t,member⟩ := List.exists_mem_of_length_pos owed
  exact ⟨t,mem_owing.mp member⟩

end Coupling.Run
