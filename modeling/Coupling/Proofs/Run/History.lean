import Coupling.Analysis

/-! Runs of the machine with what they have received. Nothing is assumed about the choice of moves: a
reached state is one that some sequence of possible moves leads to. What a single move can do is said
once, in `Effect`, and every invariant of a run is proved from that. -/
namespace Coupling.Run

/-- An outcome as the aggregator receives it, with the unit that it belongs to. -/
abbrev Receipt := Job × Outcome

def received (s : State) : Move → List Receipt
  | .receive => s.channel.head?.toList
  | _ => []

/-- The states of a run, each with all that was received on the way, the first outcome first. -/
inductive Reached (plan : Plan) (progress : Progress) : List Receipt → State → Prop
  | start : Reached plan progress [] (State.initial plan progress)
  | next {log s move s'} (before : Reached plan progress log s)
      (moved : step plan s move = some s') : Reached plan progress (log ++ received s move) s'

def replay (plan : Plan) : List Move → State → Option (List Receipt × State)
  | [], s => some ([], s)
  | move :: moves, s =>
    match step plan s move with
    | none => none
    | some s' => (replay plan moves s').map fun (log, last) => (received s move ++ log, last)

theorem Reached.replay {plan : Plan} {progress : Progress} {log receipts : List Receipt}
    {s s' : State} {moves : List Move} (reached : Reached plan progress log s)
    (made : replay plan moves s = some (receipts,s')) : Reached plan progress (log ++ receipts) s' := by
  induction moves generalizing log s receipts with
  | nil =>
    cases made
    simpa using reached
  | cons move moves ih =>
    simp only [Run.replay] at made
    split at made
    · cases made
    · rename_i next moved
      obtain ⟨⟨rest,last⟩,later,equal⟩ := Option.map_eq_some_iff.mp made
      cases equal
      rw [← List.append_assoc]
      exact ih (reached.next moved) later

/-! ## Plans of a valid configuration -/

theorem no_fault {c : Config} (valid : c.validate = .ok ()) : c.fault? = none := by
  unfold Config.validate at valid
  split at valid
  · cases valid
  · assumption

theorem limit_pos {c : Config} (valid : c.validate = .ok ()) : 0 < c.backpressureLimit := by
  have sound := no_fault valid
  unfold Config.fault? at sound
  split at sound
  · cases sound
  · exact Nat.pos_of_ne_zero ‹_›

theorem workers_pos {c : Config} (valid : c.validate = .ok ()) : 0 < c.workers := by
  have sound := no_fault valid
  unfold Config.fault? at sound
  split at sound
  · cases sound
  · split at sound
    · cases sound
    · rename_i given
      unfold Config.workers
      cases number : c.maxConcurrency with
      | none => exact Nat.zero_lt_succ 3
      | some n =>
        rw [number] at given
        exact Nat.pos_of_ne_zero fun zero => given (congrArg some zero)

/-! ## Parts of a state -/

namespace State

variable (plan : Plan) (s : State)

@[simp] theorem settle_pending : (settle plan s).pending = s.pending := by
  unfold settle; split <;> rfl
@[simp] theorem settle_tasks : (settle plan s).tasks = s.tasks := by
  unfold settle; split <;> rfl
@[simp] theorem settle_channel : (settle plan s).channel = s.channel := by
  unfold settle; split <;> rfl
@[simp] theorem settle_inFlight : (settle plan s).inFlight = s.inFlight := by
  unfold settle; split <;> rfl
@[simp] theorem settle_drafts : (settle plan s).drafts = s.drafts := by
  unfold settle; split <;> rfl
@[simp] theorem settle_failures : (settle plan s).failures = s.failures := by
  unfold settle; split <;> rfl

@[simp] theorem settle_canSpawn : (settle plan s).canSpawn plan = s.canSpawn plan := by
  simp [canSpawn]

theorem settle_status : (settle plan s).status =
    if s.canSpawn plan = false ∧ s.inFlight = 0 then .completed else s.status := by
  unfold settle
  by_cases room : s.canSpawn plan = true
  · simp [room]
  · simp [room]

@[simp] theorem setTask_pending (i : Nat) (t : Task) : (s.setTask i t).pending = s.pending := rfl
@[simp] theorem setTask_tasks (i : Nat) (t : Task) : (s.setTask i t).tasks = s.tasks.set i t := rfl
@[simp] theorem setTask_channel (i : Nat) (t : Task) : (s.setTask i t).channel = s.channel := rfl
@[simp] theorem setTask_inFlight (i : Nat) (t : Task) : (s.setTask i t).inFlight = s.inFlight := rfl
@[simp] theorem setTask_drafts (i : Nat) (t : Task) : (s.setTask i t).drafts = s.drafts := rfl
@[simp] theorem setTask_failures (i : Nat) (t : Task) : (s.setTask i t).failures = s.failures := rfl
@[simp] theorem setTask_progress (i : Nat) (t : Task) : (s.setTask i t).progress = s.progress := rfl
@[simp] theorem setTask_status (i : Nat) (t : Task) : (s.setTask i t).status = s.status := rfl

variable (job : Job) (outcome : Outcome)

@[simp] theorem send_pending : (s.send job outcome).pending = s.pending := by
  unfold send; split <;> rfl
@[simp] theorem send_tasks : (s.send job outcome).tasks = s.tasks := by
  unfold send; split <;> rfl
@[simp] theorem send_inFlight : (s.send job outcome).inFlight = s.inFlight := by
  unfold send; split <;> rfl
@[simp] theorem send_drafts : (s.send job outcome).drafts = s.drafts := by
  unfold send; split <;> rfl
@[simp] theorem send_failures : (s.send job outcome).failures = s.failures := by
  unfold send; split <;> rfl
@[simp] theorem send_progress : (s.send job outcome).progress = s.progress := by
  unfold send; split <;> rfl
@[simp] theorem send_status : (s.send job outcome).status = s.status := by
  unfold send; split <;> rfl

theorem send_channel : (s.send job outcome).channel =
    if s.status = .active then s.channel ++ [(job,outcome)] else s.channel := by
  unfold send; split <;> rfl

@[simp] theorem take_pending : (take plan s job outcome).pending = s.pending := by
  unfold take; split
  · simp
  · split <;> simp
@[simp] theorem take_tasks : (take plan s job outcome).tasks = s.tasks := by
  unfold take; split
  · simp
  · split <;> simp
@[simp] theorem take_channel : (take plan s job outcome).channel = s.channel := by
  unfold take; split
  · simp
  · split <;> simp
@[simp] theorem take_inFlight : (take plan s job outcome).inFlight = s.inFlight := by
  unfold take; split
  · simp
  · split <;> simp

/-- Only a failure that the policy does not bear ends a run at once. -/
theorem take_status : (take plan s job outcome).status =
    match outcome, plan.failurePolicy with
    | .error e, .failFast => .aborted e
    | _, _ => if s.canSpawn plan = false ∧ s.inFlight = 0 then .completed else s.status := by
  unfold take
  split
  · rw [settle_status]
    cases plan.failurePolicy <;> rfl
  · split
    · rename_i policy
      rw [policy]
    · rename_i policy
      rw [policy, settle_status]
      rfl

end State

/-! ## What a move can do -/

open State

inductive Advance (plan : Plan) (s : State) (t : Task) : Stage → Prop
  | acquired (waiting : t.stage = .waiting) (free : s.busyWorkers < plan.workers) :
      Advance plan s t (if s.status = .active then .cleared else .cancelled)
  | started (cleared : t.stage = .cleared) : Advance plan s t .running
  | ended (running : t.stage = .running) (reported : t.reported = true) : Advance plan s t .ended

/-- How a task comes to send its only outcome, and in which stage that leaves it. -/
inductive Report (plan : Plan) (t : Task) : Stage → Outcome → Prop
  | finished (running : t.stage = .running) : Report plan t .ended (plan.classify t.job.path)
  | expired (holds : t.stage.holdsWorker = true) :
      Report plan t t.stage (.error (.timeout t.job.path plan.unitTimeout))

/-- The moves by what they do, with what they receive. -/
inductive Effect (plan : Plan) (s : State) : List Receipt → State → Prop
  | spawned {job rest} (active : s.status = .active) (room : s.inFlight < plan.limit)
      (pending : s.pending = job :: rest) :
      Effect plan s [] (settle plan { s with
        pending := rest
        tasks := s.tasks ++ [⟨job,.waiting,false⟩]
        inFlight := s.inFlight + 1 })
  | advanced {i t stage} (found : s.tasks[i]? = some t) (advance : Advance plan s t stage) :
      Effect plan s [] (s.setTask i { t with stage := stage })
  | reported {i t stage outcome} (found : s.tasks[i]? = some t) (fresh : t.reported = false)
      (report : Report plan t stage outcome) :
      Effect plan s [] ((s.setTask i { t with stage := stage, reported := true }).send t.job outcome)
  | received {job outcome rest} (active : s.status = .active) (full : s.canSpawn plan = false)
      (channel : s.channel = (job,outcome) :: rest) :
      Effect plan s [(job,outcome)]
        (take plan { s with channel := rest, inFlight := s.inFlight - 1 } job outcome)
  | stalled {job rest} (active : s.status = .active) (full : s.canSpawn plan = false)
      (empty : s.channel = []) (pending : s.pending = job :: rest) :
      Effect plan s [] { s with status := .aborted (.capacityExceeded plan.limit job.path) }
  | disconnected (active : s.status = .active) (lone : s.senders = 0) :
      Effect plan s [] { s with status := .completed }

theorem step_effect {plan : Plan} {s s' : State} {move : Move} (moved : step plan s move = some s') :
    Effect plan s (received s move) s' := by
  cases move with
  | spawn =>
    simp only [step,spawn] at moved
    split at moved
    · rename_i possible
      split at moved
      · cases moved
      · rename_i job rest pending
        cases moved
        exact .spawned possible.1 possible.2 pending
    · cases moved
  | acquire i =>
    simp only [step,acquire] at moved
    split at moved
    · cases moved
    · rename_i t found
      split at moved
      · rename_i possible
        cases moved
        exact .advanced found (.acquired possible.1 possible.2)
      · cases moved
  | start i =>
    simp only [step,start] at moved
    split at moved
    · cases moved
    · rename_i t found
      split at moved
      · rename_i cleared
        cases moved
        exact .advanced found (.started cleared)
      · cases moved
  | finish i =>
    simp only [step,finish] at moved
    split at moved
    · cases moved
    · rename_i t found
      split at moved
      · rename_i running
        cases moved
        by_cases reported : t.reported = true
        · rw [if_pos reported]
          have same : ({ t with stage := .ended, reported := true } : Task) =
              { t with stage := .ended } := by rw [← reported]
          rw [same]
          exact .advanced found (.ended running reported)
        · rw [if_neg reported]
          exact .reported found (Bool.eq_false_iff.mpr reported) (.finished running)
      · cases moved
  | expire i =>
    simp only [step,expire] at moved
    split at moved
    · cases moved
    · rename_i t found
      split at moved
      · rename_i possible
        cases moved
        exact .reported found (by simpa using possible.2) (.expired possible.1)
      · cases moved
  | receive =>
    simp only [step,receive] at moved
    split at moved
    · rename_i possible
      split at moved
      · cases moved
      · rename_i job outcome rest channel
        cases moved
        simp only [Run.received,channel,List.head?_cons,Option.toList_some]
        exact .received possible.1 (by simpa using possible.2) channel
    · cases moved
  | stall =>
    simp only [step,stall] at moved
    split at moved
    · rename_i possible
      split at moved
      · cases moved
      · rename_i job rest pending
        cases moved
        exact .stalled possible.1 (by simpa using possible.2.1) (by simpa using possible.2.2) pending
    · cases moved
  | disconnect =>
    simp only [step,disconnect] at moved
    split at moved
    · rename_i possible
      cases moved
      exact .disconnected possible.1 possible.2.2.2
    · cases moved

/-- What holds at the start and passes over every effect holds in all reached states. -/
theorem Reached.invariant {plan : Plan} {progress : Progress} {log : List Receipt} {s : State}
    (property : List Receipt → State → Prop) (reached : Reached plan progress log s)
    (initial : property [] (State.initial plan progress))
    (preserved : ∀ log s receipts s', property log s → Effect plan s receipts s' →
      property (log ++ receipts) s') : property log s := by
  induction reached with
  | start => exact initial
  | next before moved ih => exact preserved _ _ _ _ ih (step_effect moved)

end Coupling.Run
