import Coupling.Proofs.Run.Accounting

/-! No run goes on for ever, whatever moves it makes, and an active one can always move. So a schedule
that always finds a possible move ends every run. -/
namespace Coupling.Run

open State

/-! ## Every move brings the end nearer -/

/-- How many moves a task can still make, with the receipt of its outcome if that is not sent. -/
def Task.weight (t : Task) : Nat :=
  match t.stage with
  | .waiting => 5
  | .cleared => if t.reported then 2 else 4
  | .running => if t.reported then 1 else 3
  | .ended => 0
  | .cancelled => 0

def Status.weight : Status → Nat
  | .active => 1
  | .completed => 0
  | .aborted _ => 0

theorem Status.weight_le (status : Status) : status.weight ≤ 1 := by
  cases status <;> simp [weight]

def load (tasks : List Task) : Nat := tasks.foldr (fun t n => t.weight + n) 0

def rank (s : State) : Nat :=
  6 * s.pending.length + load s.tasks + s.channel.length + s.status.weight

@[simp] theorem load_nil : load [] = 0 := rfl

@[simp] theorem load_cons (t : Task) (tasks : List Task) : load (t :: tasks) = t.weight + load tasks :=
  rfl

theorem load_concat (tasks : List Task) (t : Task) : load (tasks ++ [t]) = load tasks + t.weight := by
  induction tasks with
  | nil => simp
  | cons head rest ih =>
    simp only [List.cons_append,load_cons,ih]
    omega

theorem load_set {tasks : List Task} {i : Nat} {t : Task} (found : tasks[i]? = some t) (t' : Task) :
    load (tasks.set i t') + t.weight = load tasks + t'.weight := by
  induction tasks generalizing i with
  | nil => simp at found
  | cons head rest ih =>
    cases i with
    | zero =>
      cases found
      simp only [List.set_cons_zero,load_cons]
      omega
    | succ i =>
      have later := ih found
      simp only [List.set_cons_succ,load_cons]
      omega

theorem Advance.weight_lt {plan : Plan} {s : State} {t : Task} {stage : Stage}
    (advance : Advance plan s t stage) : ({ t with stage := stage } : Task).weight < t.weight := by
  cases advance with
  | acquired waiting _ =>
    by_cases active : s.status = .active <;> simp only [active,if_true,if_false,Task.weight,waiting]
    · split <;> decide
    · decide
  | started cleared =>
    simp only [Task.weight,cleared]
    split <;> decide
  | ended running reported => simp [Task.weight,running,reported]

/-- A task that sends its outcome makes room for two moves, of which the receipt is one. -/
theorem Report.weight_lt {plan : Plan} {t : Task} {stage : Stage} {outcome : Outcome}
    (report : Report plan t stage outcome) (fresh : t.reported = false) :
    ({ t with stage := stage, reported := true } : Task).weight + 1 < t.weight := by
  cases report with
  | finished running => simp [Task.weight,running,fresh]
  | expired holds =>
    cases stage : t.stage <;> simp [Task.weight,stage,fresh,Stage.holdsWorker] at holds ⊢

theorem rank_settle_le (plan : Plan) (s : State) : rank (settle plan s) ≤ rank s := by
  have status : (settle plan s).status.weight ≤ s.status.weight := by
    rw [settle_status]
    split
    · exact Nat.zero_le _
    · exact Nat.le_refl _
  simp only [rank,settle_pending,settle_tasks,settle_channel]
  omega

theorem Effect.rank_lt {plan : Plan} {s s' : State} {receipts : List Receipt}
    (effect : Effect plan s receipts s') : rank s' < rank s := by
  cases effect with
  | spawned active room pending =>
    refine Nat.lt_of_le_of_lt (rank_settle_le plan _) ?_
    simp only [rank,pending,load_concat,List.length_cons,Task.weight]
    omega
  | @advanced i t stage found advance =>
    have sum := load_set found { t with stage := stage }
    have less := advance.weight_lt
    simp only [rank,setTask_pending,setTask_tasks,setTask_channel,setTask_status]
    omega
  | @reported i t stage outcome found fresh report =>
    have sum := load_set found { t with stage := stage, reported := true }
    have less := report.weight_lt fresh
    have channel : ((s.setTask i { t with stage := stage, reported := true }).send t.job
        outcome).channel.length ≤ s.channel.length + 1 := by
      rw [send_channel]
      split <;> simp
    simp only [rank,send_pending,send_tasks,send_status,setTask_pending,setTask_tasks,setTask_status]
      at channel ⊢
    omega
  | @received job outcome rest active full channel =>
    have status := Status.weight_le
      (take plan { s with channel := rest, inFlight := s.inFlight - 1 } job outcome).status
    have before : s.status.weight = 1 := by rw [active]; rfl
    simp only [rank,take_pending,take_tasks,take_channel,channel,List.length_cons]
    omega
  | stalled active full empty pending => simp [rank,active,Status.weight]
  | disconnected active lone => simp [rank,active,Status.weight]

/-- A run makes at most as many moves as its first state has rank. -/
theorem replay_length {plan : Plan} {s s' : State} {moves : List Move} {receipts : List Receipt}
    (made : replay plan moves s = some (receipts,s')) : moves.length + rank s' ≤ rank s := by
  induction moves generalizing s receipts with
  | nil =>
    cases made
    simp
  | cons move moves ih =>
    simp only [replay] at made
    split at made
    · cases made
    · rename_i next moved
      obtain ⟨⟨rest,last⟩,later,equal⟩ := Option.map_eq_some_iff.mp made
      cases equal
      have less := (step_effect moved).rank_lt
      have bound := ih later
      simp only [List.length_cons] at bound ⊢
      omega

theorem rank_initial_le (plan : Plan) (progress : Progress) :
    rank (State.initial plan progress) ≤ maxMoves plan := by
  refine Nat.le_trans (rank_settle_le plan _) ?_
  simp [rank,maxMoves,Status.weight]

/-! ## An active run can move -/

/-- Work is not done before its outcome is sent, and no task is cancelled while the run is active. -/
structure Healthy (s : State) : Prop where
  ended : ∀ t ∈ s.tasks, t.stage = .ended → t.reported = true
  cancelled : ∀ t ∈ s.tasks, t.stage = .cancelled → s.status ≠ .active

namespace Healthy

variable {plan : Plan} {s s' : State}

theorem congr (healthy : Healthy s) (tasks : s'.tasks = s.tasks)
    (status : s'.status = .active → s.status = .active) : Healthy s' where
  ended := by
    rw [tasks]
    exact healthy.ended
  cancelled t member stage active := by
    rw [tasks] at member
    exact healthy.cancelled t member stage (status active)

theorem set (healthy : Healthy s) (i : Nat) {t : Task} (ended : t.stage = .ended → t.reported = true)
    (cancelled : t.stage = .cancelled → s.status ≠ .active) : Healthy (s.setTask i t) where
  ended u member := by
    rcases List.mem_or_eq_of_mem_set member with old | rfl
    · exact healthy.ended u old
    · exact ended
  cancelled u member := by
    rcases List.mem_or_eq_of_mem_set member with old | rfl
    · exact healthy.cancelled u old
    · exact cancelled

theorem preserved {receipts : List Receipt} (healthy : Healthy s)
    (effect : Effect plan s receipts s') : Healthy s' := by
  cases effect with
  | spawned active room pending =>
    refine ⟨?_,?_⟩ <;> rw [settle_tasks]
    · exact List.forall_mem_append.mpr ⟨healthy.ended,by simp⟩
    · refine List.forall_mem_append.mpr ⟨?_,by simp⟩
      exact fun t member stage => absurd active (healthy.cancelled t member stage)
  | @advanced i t stage found advance =>
    cases advance with
    | acquired waiting free =>
      by_cases active : s.status = .active
      · exact healthy.set i (by simp [active]) (by simp [active])
      · exact healthy.set i (by simp [active]) (by simp [active])
    | started cleared => exact healthy.set i (by simp) (by simp)
    | ended running reported => exact healthy.set i (by simp [reported]) (by simp)
  | @reported i t stage outcome found fresh report =>
    have told : Healthy (s.setTask i { t with stage := stage, reported := true }) := by
      refine healthy.set i (by simp) ?_
      cases report with
      | finished running => simp
      | expired holds =>
        intro cancelled
        have stage : t.stage = .cancelled := cancelled
        simp [stage,Stage.holdsWorker] at holds
    exact told.congr (by simp) (by simp)
  | received active full channel => exact healthy.congr (by simp) fun _ => active
  | stalled active full empty pending => exact healthy.congr rfl fun _ => active
  | disconnected active lone => exact healthy.congr rfl fun _ => active

end Healthy

theorem Reached.healthy {plan : Plan} {progress : Progress} {log : List Receipt} {s : State}
    (reached : Reached plan progress log s) : Healthy s :=
  reached.invariant (fun _ s => Healthy s) ⟨by simp [State.initial],by simp [State.initial]⟩
    fun _ _ _ _ healthy effect => healthy.preserved effect

section Possible

variable {plan : Plan} {s : State} {i : Nat} {t : Task}

theorem spawn_possible (active : s.status = .active) (room : s.canSpawn plan = true) :
    (step plan s .spawn).isSome := by
  simp only [canSpawn,Bool.and_eq_true,decide_eq_true_eq] at room
  cases pending : s.pending with
  | nil => simp [pending] at room
  | cons job rest => simp [step,spawn,active,room.1,pending]

theorem acquire_possible (found : s.tasks[i]? = some t) (waiting : t.stage = .waiting)
    (free : s.busyWorkers < plan.workers) : (step plan s (.acquire i)).isSome := by
  simp [step,acquire,found,waiting,free]

theorem start_possible (found : s.tasks[i]? = some t) (cleared : t.stage = .cleared) :
    (step plan s (.start i)).isSome := by
  simp [step,start,found,cleared]

theorem finish_possible (found : s.tasks[i]? = some t) (running : t.stage = .running) :
    (step plan s (.finish i)).isSome := by
  simp [step,finish,found,running]

theorem expire_possible (found : s.tasks[i]? = some t) (holds : t.stage.holdsWorker = true)
    (fresh : t.reported = false) : (step plan s (.expire i)).isSome := by
  simp [step,expire,found,holds,fresh]

theorem receive_possible (active : s.status = .active) (full : s.canSpawn plan = false)
    (buffered : s.channel ≠ []) : (step plan s .receive).isSome := by
  cases channel : s.channel with
  | nil => exact absurd channel buffered
  | cons r rest => simp [step,receive,active,full,channel]

theorem stall_possible (active : s.status = .active) (full : s.canSpawn plan = false)
    (empty : s.channel = []) (blocked : s.pending ≠ []) : (step plan s .stall).isSome := by
  cases pending : s.pending with
  | nil => exact absurd pending blocked
  | cons job rest => simp [step,stall,active,full,empty,pending]

end Possible

theorem mem_of_earliest {ms : List (Nat × Move)} {m : Nat × Move} (first : earliest ms = some m) :
    m ∈ ms := by
  induction ms generalizing m with
  | nil => cases first
  | cons head rest ih =>
    simp only [earliest] at first
    split at first
    · cases first
      exact List.mem_cons_self ..
    · rename_i n found
      split at first
      · cases first
        exact List.mem_cons_of_mem _ (ih found)
      · cases first
        exact List.mem_cons_self ..

theorem earliest_isSome {ms : List (Nat × Move)} {m : Nat × Move} (member : m ∈ ms) :
    (earliest ms).isSome := by
  cases ms with
  | nil => cases member
  | cons head rest =>
    simp only [earliest]
    split
    · rfl
    · split <;> rfl

theorem due_possible {plan : Plan} {timing : Timing} {s : State} {c : Clock} {m : Nat × Move}
    (active : s.status = .active) (full : s.canSpawn plan = false) (empty : s.channel = [])
    (due : m ∈ dueMoves plan timing s c) : (step plan s m.2).isSome := by
  simp only [dueMoves,List.mem_append,List.mem_map,List.mem_filter,Prod.exists,
    List.mem_zipIdx_iff_getElem?] at due
  rcases due with (⟨t,i,⟨found,running⟩,rfl⟩ | ⟨t,i,⟨found,holding⟩,rfl⟩) | blocked
  · exact finish_possible found (by simpa using running)
  · simp only [Bool.and_eq_true,Bool.not_eq_true'] at holding
    exact expire_possible found holding.1 holding.2
  · split at blocked
    · cases blocked
    · rename_i pending
      cases List.mem_singleton.mp blocked
      exact stall_possible active full empty (by simpa using pending)

section Schedule

variable {plan : Plan} {progress : Progress} {log : List Receipt} {s : State}

/-- When the aggregator waits and no task can get on at once, some task is at work. -/
theorem Reached.running_exists (reached : Reached plan progress log s) (positive : 0 < plan.limit)
    (staffed : 0 < plan.workers) (active : s.status = .active) (full : s.canSpawn plan = false)
    (empty : s.channel = []) (uncleared : ∀ t ∈ s.tasks, t.stage ≠ .cleared)
    (busy : (∀ t ∈ s.tasks, t.stage ≠ .waiting) ∨ plan.workers ≤ s.busyWorkers) :
    ∃ t ∈ s.tasks, t.stage = .running := by
  obtain ⟨t,member,fresh⟩ := reached.waiting_owed positive active full empty
  cases stage : t.stage with
  | waiting =>
    rcases busy with none | taken
    · exact absurd stage (none t member)
    · obtain ⟨u,inside,holds⟩ := List.countP_pos_iff.mp (Nat.lt_of_lt_of_le staffed taken)
      refine ⟨u,inside,?_⟩
      cases held : u.stage <;> simp [held,Stage.holdsWorker] at holds
      · exact absurd held (uncleared u inside)
      · rfl
  | cleared => exact absurd stage (uncleared t member)
  | running => exact ⟨t,member,stage⟩
  | ended =>
    have told := reached.healthy.ended t member stage
    rw [fresh] at told
    cases told
  | cancelled => exact absurd active (reached.healthy.cancelled t member stage)

theorem due_of_running {t : Task} (timing : Timing) (c : Clock) (member : t ∈ s.tasks)
    (running : t.stage = .running) : ∃ m, m ∈ dueMoves plan timing s c := by
  obtain ⟨i,found⟩ := List.mem_iff_getElem?.mp member
  refine ⟨(c.startOf i + timing.work t.job.path,.finish i),?_⟩
  simp only [dueMoves,List.mem_append,List.mem_map,List.mem_filter]
  exact .inl (.inl ⟨(t,i),⟨List.mem_zipIdx_iff_getElem?.mpr found,by simp [running]⟩,rfl⟩)

/-- Without a task that can get on at once, the schedule receives or lets time pass. -/
theorem next_of_idle (timing : Timing) (c : Clock) (active : s.status = .active)
    (full : s.canSpawn plan = false) (cleared : s.tasks.findIdx? (·.stage == .cleared) = none)
    (idle : s.tasks.findIdx? (·.stage == .waiting) = none ∨ plan.workers ≤ s.busyWorkers) :
    next plan timing s c =
      if s.channel.isEmpty then earliest (dueMoves plan timing s c) else some (c.now,.receive) := by
  simp only [next,active,full,cleared]
  rcases idle with none | taken
  · simp [none]
  · have busy : ¬s.busyWorkers < plan.workers := Nat.not_lt.mpr taken
    simp [busy]

theorem idle_possible (reached : Reached plan progress log s) (positive : 0 < plan.limit)
    (staffed : 0 < plan.workers) (active : s.status = .active) (full : s.canSpawn plan = false)
    (cleared : s.tasks.findIdx? (·.stage == .cleared) = none)
    (idle : s.tasks.findIdx? (·.stage == .waiting) = none ∨ plan.workers ≤ s.busyWorkers)
    (timing : Timing) (c : Clock) :
    ∃ m, next plan timing s c = some m ∧ (step plan s m.2).isSome := by
  rw [next_of_idle timing c active full cleared idle]
  by_cases empty : s.channel = []
  · have uncleared : ∀ t ∈ s.tasks, t.stage ≠ .cleared := by
      simpa using List.findIdx?_eq_none_iff.mp cleared
    have busy := idle.imp_left fun none => by simpa using List.findIdx?_eq_none_iff.mp none
    obtain ⟨t,member,running⟩ :=
      reached.running_exists positive staffed active full empty uncleared busy
    obtain ⟨_,due⟩ := due_of_running timing c member running
    obtain ⟨m,first⟩ := Option.isSome_iff_exists.mp (earliest_isSome due)
    exact ⟨m,by simp [empty,first],due_possible active full empty (mem_of_earliest first)⟩
  · exact ⟨(c.now,.receive),by simp [empty],receive_possible active full empty⟩

theorem next_possible (reached : Reached plan progress log s) (positive : 0 < plan.limit)
    (staffed : 0 < plan.workers) (active : s.status = .active) (timing : Timing) (c : Clock) :
    ∃ m, next plan timing s c = some m ∧ (step plan s m.2).isSome := by
  by_cases room : s.canSpawn plan = true
  · exact ⟨(c.now,.spawn),by simp [next,active,room],spawn_possible active room⟩
  have full := Bool.eq_false_iff.mpr room
  cases cleared : s.tasks.findIdx? (·.stage == .cleared) with
  | some i =>
    obtain ⟨bound,stage,-⟩ := List.findIdx?_eq_some_iff_getElem.mp cleared
    exact ⟨(c.now,.start i),by simp [next,active,full,cleared],
      start_possible (List.getElem?_eq_getElem bound) (by simpa using stage)⟩
  | none =>
    by_cases free : s.busyWorkers < plan.workers
    · cases waiting : s.tasks.findIdx? (·.stage == .waiting) with
      | some i =>
        obtain ⟨bound,stage,-⟩ := List.findIdx?_eq_some_iff_getElem.mp waiting
        exact ⟨(c.now,.acquire i),by simp [next,active,full,cleared,waiting,free],
          acquire_possible (List.getElem?_eq_getElem bound) (by simpa using stage) free⟩
      | none => exact idle_possible reached positive staffed active full cleared (.inl waiting) timing c
    · exact idle_possible reached positive staffed active full cleared (.inr (by omega)) timing c

/-- The schedule only makes moves of the machine, and with enough of them it comes to an end. -/
theorem follow_over (positive : 0 < plan.limit) (staffed : 0 < plan.workers) (timing : Timing)
    {fuel : Nat} (reached : Reached plan progress log s) (enough : rank s ≤ fuel) (c : Clock) :
    ∃ log', Reached plan progress log' (follow plan timing fuel s c) ∧
      (follow plan timing fuel s c).status ≠ .active := by
  induction fuel generalizing log s c with
  | zero =>
    refine ⟨log,reached,?_⟩
    intro active
    have live : s.status.weight = 1 := by rw [show s.status = .active from active]; rfl
    unfold rank at enough
    omega
  | succ fuel ih =>
    by_cases active : s.status = .active
    · obtain ⟨m,chosen,can⟩ := next_possible reached positive staffed active timing c
      obtain ⟨s',moved⟩ := Option.isSome_iff_exists.mp can
      have less := (step_effect moved).rank_lt
      simp only [follow,chosen,moved]
      exact ih (reached.next moved) (by omega) _
    · have stopped : follow plan timing (fuel + 1) s c = s := by simp [follow,next,active]
      rw [stopped]
      exact ⟨log,reached,active⟩

theorem execute_over (positive : 0 < plan.limit) (staffed : 0 < plan.workers) (timing : Timing)
    (progress : Progress) : ∃ log, Reached plan progress log (execute plan timing progress) ∧
      (execute plan timing progress).status ≠ .active :=
  follow_over positive staffed timing .start (rank_initial_le plan progress) Clock.zero

end Schedule

end Coupling.Run
