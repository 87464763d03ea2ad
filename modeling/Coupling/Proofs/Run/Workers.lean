import Coupling.Proofs.Run.Accounting
import Coupling.Proofs.SourceTree

/-! How many units are worked on at once, how often each of them is, and which of them still are when the
run is over. A task keeps its worker until its work is done, also if its time was over before and that has
been received, so the units at work are not counted by those in flight. -/
namespace Coupling.Run

open State

/-! ## What a move does to the tasks -/

/-- The tasks after a move. Other than an effect, this tells which move was made. -/
inductive Shift (plan : Plan) (s : State) : Move → List Task → Prop
  | spawned {job} (active : s.status = .active) :
      Shift plan s .spawn (s.tasks ++ [⟨job,.waiting,false⟩])
  | acquired {i t} (found : s.tasks[i]? = some t) (waiting : t.stage = .waiting)
      (free : s.busyWorkers < plan.workers) :
      Shift plan s (.acquire i)
        (s.tasks.set i { t with stage := if s.status = .active then .cleared else .cancelled })
  | started {i t} (found : s.tasks[i]? = some t) (cleared : t.stage = .cleared) :
      Shift plan s (.start i) (s.tasks.set i { t with stage := .running })
  | finished {i t} (found : s.tasks[i]? = some t) (running : t.stage = .running) :
      Shift plan s (.finish i) (s.tasks.set i { t with stage := .ended, reported := true })
  | expired {i t} (found : s.tasks[i]? = some t) :
      Shift plan s (.expire i) (s.tasks.set i { t with reported := true })
  | received (active : s.status = .active) : Shift plan s .receive s.tasks
  | stalled (active : s.status = .active) : Shift plan s .stall s.tasks
  | disconnected (active : s.status = .active) : Shift plan s .disconnect s.tasks

theorem step_shift {plan : Plan} {s s' : State} {move : Move} (moved : step plan s move = some s') :
    Shift plan s move s'.tasks := by
  cases move with
  | spawn =>
    simp only [step,spawn] at moved
    split at moved
    · rename_i possible
      split at moved
      · cases moved
      · cases moved
        rw [settle_tasks]
        exact .spawned possible.1
    · cases moved
  | acquire i =>
    simp only [step,acquire] at moved
    split at moved
    · cases moved
    · rename_i t found
      split at moved
      · rename_i possible
        cases moved
        exact .acquired found possible.1 possible.2
      · cases moved
  | start i =>
    simp only [step,start] at moved
    split at moved
    · cases moved
    · rename_i t found
      split at moved
      · rename_i cleared
        cases moved
        exact .started found cleared
      · cases moved
  | finish i =>
    simp only [step,finish] at moved
    split at moved
    · cases moved
    · rename_i t found
      split at moved
      · rename_i running
        cases moved
        split
        · exact .finished found running
        · rw [send_tasks]
          exact .finished found running
      · cases moved
  | expire i =>
    simp only [step,expire] at moved
    split at moved
    · cases moved
    · rename_i t found
      split at moved
      · cases moved
        rw [send_tasks]
        exact .expired found
      · cases moved
  | receive =>
    simp only [step,receive] at moved
    split at moved
    · rename_i possible
      split at moved
      · cases moved
      · cases moved
        rw [take_tasks]
        exact .received possible.1
    · cases moved
  | stall =>
    simp only [step,stall] at moved
    split at moved
    · rename_i possible
      split at moved
      · cases moved
      · cases moved
        exact .stalled possible.1
    · cases moved
  | disconnect =>
    simp only [step,disconnect] at moved
    split at moved
    · rename_i possible
      cases moved
      exact .disconnected possible.1
    · cases moved

/-! ## Workers -/

section Count

variable {α : Type} {p : α → Bool} {l : List α} {i : Nat} {a : α}

theorem countP_set_le_succ (b : α) : (l.set i b).countP p ≤ l.countP p + 1 := by
  by_cases bound : i < l.length
  · rw [List.countP_set bound]
    split <;> split <;> omega
  · rw [List.set_eq_of_length_le (Nat.le_of_not_lt bound)]
    exact Nat.le_succ _

theorem countP_set_le (found : l[i]? = some a) (b : α) (kept : p b = true → p a = true) :
    (l.set i b).countP p ≤ l.countP p := by
  obtain ⟨bound,rfl⟩ := List.getElem?_eq_some_iff.mp found
  rw [List.countP_set bound]
  by_cases new : p b = true
  · have old := kept new
    have present : 0 < l.countP p := List.countP_pos_iff.mpr ⟨_,List.getElem_mem bound,old⟩
    simp only [new,old,if_true]
    omega
  · simp only [new,Bool.false_eq_true,if_false]
    omega

end Count

/-- A worker is taken only where one is free, and by one task at a time. -/
theorem Shift.busy_le {plan : Plan} {s : State} {move : Move} {tasks : List Task}
    (shift : Shift plan s move tasks) (bounded : s.busyWorkers ≤ plan.workers) :
    tasks.countP (·.stage.holdsWorker) ≤ plan.workers := by
  cases shift with
  | spawned active => simpa [busyWorkers,Stage.holdsWorker] using bounded
  | acquired found waiting free => exact Nat.le_trans (countP_set_le_succ _) free
  | started found cleared =>
    exact Nat.le_trans (countP_set_le found _ fun _ => by rw [cleared]; rfl) bounded
  | finished found running =>
    exact Nat.le_trans (countP_set_le found _ fun impossible => by cases impossible) bounded
  | expired found => exact Nat.le_trans (countP_set_le found _ id) bounded
  | received active => exact bounded
  | stalled active => exact bounded
  | disconnected active => exact bounded

theorem Reached.busy_le {plan : Plan} {progress : Progress} {log : List Receipt} {s : State}
    (reached : Reached plan progress log s) : s.busyWorkers ≤ plan.workers := by
  induction reached with
  | start => simp [State.initial,busyWorkers]
  | next before moved ih => exact (step_shift moved).busy_le ih

/-- The tasks at work, with those that were given up and work on. -/
def running (s : State) : Nat := s.tasks.countP (·.stage == .running)

theorem running_le_busy (s : State) : running s ≤ s.busyWorkers := by
  refine List.countP_mono_left ?_
  intro t _ working
  rw [eq_of_beq working]
  rfl

/-! ## Work that was started -/

def Stage.begun : Stage → Bool
  | .waiting => false
  | .cleared => false
  | .running => true
  | .ended => true
  | .cancelled => false

def begun (tasks : List Task) : List Job := (tasks.filter (·.stage.begun)).map Task.job

def begins (s : State) : Move → List Job
  | .start i => (s.tasks[i]?.map Task.job).toList
  | _ => []

def bodies (plan : Plan) : List Move → State → List Job
  | [], _ => []
  | move :: moves, s =>
    match step plan s move with
    | none => []
    | some s' => begins s move ++ bodies plan moves s'

theorem begun_set_of_same {tasks : List Task} {i : Nat} {t : Task} (found : tasks[i]? = some t)
    (t' : Task) (job : t'.job = t.job) (same : t'.stage.begun = t.stage.begun) :
    begun (tasks.set i t') = begun tasks := by
  induction tasks generalizing i with
  | nil => simp at found
  | cons head rest ih =>
    cases i with
    | zero =>
      cases found
      by_cases working : t.stage.begun = true <;> simp [begun,same,job,working]
    | succ i =>
      have later := ih found
      simp only [begun] at later
      by_cases working : head.stage.begun = true <;> simp [begun,working,later]

theorem begun_set_of_started {tasks : List Task} {i : Nat} {t : Task} (found : tasks[i]? = some t)
    (t' : Task) (job : t'.job = t.job) (idle : t.stage.begun = false) (working : t'.stage.begun = true) :
    (begun (tasks.set i t')).Perm (t.job :: begun tasks) := by
  induction tasks generalizing i with
  | nil => simp at found
  | cons head rest ih =>
    cases i with
    | zero =>
      cases found
      simp [begun,idle,working,job]
    | succ i =>
      have later := ih found
      by_cases busy : head.stage.begun = true
      · simp only [begun] at later
        simp only [begun,List.set_cons_succ,List.filter_cons,busy,if_true,List.map_cons]
        exact (later.cons _).trans (.swap ..)
      · simpa [begun,List.filter_cons,busy] using later

/-- What is at work or done was started by the move, or before it. -/
theorem Shift.begun_perm {plan : Plan} {s : State} {move : Move} {tasks : List Task}
    (shift : Shift plan s move tasks) : (begun tasks).Perm (begins s move ++ begun s.tasks) := by
  cases shift with
  | spawned active => simp [begins,begun,Stage.begun]
  | @acquired i t found waiting free =>
    have same := begun_set_of_same found
      { t with stage := if s.status = .active then .cleared else .cancelled } rfl
      (by rw [waiting]; dsimp only; split <;> rfl)
    rw [same]
    rfl
  | @started i t found cleared =>
    simp only [begins,found,Option.map_some,Option.toList_some,List.singleton_append]
    exact begun_set_of_started found _ rfl (by rw [cleared]; rfl) rfl
  | @finished i t found running =>
    rw [begun_set_of_same found { t with stage := .ended, reported := true } rfl (by rw [running]; rfl)]
    rfl
  | @expired i t found =>
    rw [begun_set_of_same found { t with reported := true } rfl rfl]
    rfl
  | received active => rfl
  | stalled active => rfl
  | disconnected active => rfl

theorem replay_begun {plan : Plan} {moves : List Move} {s s' : State} {log : List Receipt}
    (made : replay plan moves s = some (log,s')) :
    (begun s'.tasks).Perm (bodies plan moves s ++ begun s.tasks) := by
  induction moves generalizing s log with
  | nil =>
    cases made
    rfl
  | cons move moves ih =>
    simp only [replay] at made
    split at made
    · cases made
    · rename_i next moved
      obtain ⟨⟨rest,last⟩,later,equal⟩ := Option.map_eq_some_iff.mp made
      cases equal
      simp only [bodies,moved]
      refine (ih later).trans ?_
      refine ((step_shift moved).begun_perm.append_left _).trans ?_
      rw [← List.append_assoc]
      exact List.perm_append_comm.append_right _

/-- No unit is worked on more often than it is scheduled. -/
theorem bodies_count_le {plan : Plan} {progress : Progress} {moves : List Move}
    {log : List Receipt} {s : State}
    (made : replay plan moves (initial plan progress) = some (log,s)) (job : Job) :
    (bodies plan moves (initial plan progress)).count job ≤ plan.jobs.count job := by
  have reached : Reached plan progress log s := by simpa using Reached.start.replay made
  have perm : (begun s.tasks).Perm (bodies plan moves (initial plan progress)) := by
    simpa [State.initial,begun] using replay_begun made
  have inTasks : (begun s.tasks).Sublist (s.tasks.map Task.job) := List.filter_sublist.map _
  rw [← perm.count_eq, ← reached.account.order, List.count_append]
  exact Nat.le_trans (inTasks.count_le job) (Nat.le_add_right ..)

/-! ## When the run is over -/

/-- Nothing of what is reported has changed. -/
structure SameReport (s s' : State) : Prop where
  drafts : s'.drafts = s.drafts
  failures : s'.failures = s.failures
  progress : s'.progress = s.progress
  status : s'.status = s.status

theorem Effect.over {plan : Plan} {s s' : State} {receipts : List Receipt}
    (effect : Effect plan s receipts s') (stopped : s.status ≠ .active) :
    receipts = [] ∧ SameReport s s' := by
  cases effect with
  | spawned active _ _ => exact absurd active stopped
  | advanced _ _ => exact ⟨rfl,⟨rfl,rfl,rfl,rfl⟩⟩
  | reported _ _ _ => exact ⟨rfl,⟨by simp,by simp,by simp,by simp⟩⟩
  | received active _ _ => exact absurd active stopped
  | stalled active _ _ _ => exact absurd active stopped
  | disconnected active _ => exact absurd active stopped

/-- A task that gets its worker too late is cancelled, so no task is cleared any more. -/
theorem Shift.cleared_before {plan : Plan} {s : State} {move : Move} {tasks : List Task}
    (shift : Shift plan s move tasks) (stopped : s.status ≠ .active) {i : Nat} {t : Task}
    (found : tasks[i]? = some t) (cleared : t.stage = .cleared) :
    ∃ u, s.tasks[i]? = some u ∧ u.stage = .cleared := by
  have unless_set {j : Nat} {v w : Task} (old : s.tasks[j]? = some v)
      (later : (s.tasks.set j w)[i]? = some t) (kept : w.stage = .cleared → v.stage = .cleared) :
      ∃ u, s.tasks[i]? = some u ∧ u.stage = .cleared := by
    rw [List.getElem?_set] at later
    split at later
    · rename_i same
      split at later
      · cases later
        exact ⟨v,same ▸ old,kept cleared⟩
      · cases later
    · exact ⟨t,later,cleared⟩
  cases shift with
  | spawned active => exact absurd active stopped
  | acquired old _ _ => exact unless_set old found (by simp [stopped])
  | started old _ => exact unless_set old found (by simp)
  | finished old _ => exact unless_set old found (by simp)
  | expired old => exact unless_set old found id
  | received active => exact absurd active stopped
  | stalled active => exact absurd active stopped
  | disconnected active => exact absurd active stopped

theorem Shift.cleared_of_start {plan : Plan} {s : State} {i : Nat} {tasks : List Task}
    (shift : Shift plan s (.start i) tasks) : ∃ t, s.tasks[i]? = some t ∧ t.stage = .cleared := by
  cases shift with
  | started found cleared => exact ⟨_,found,cleared⟩

/-- Work that is started after the run had been cleared for it before, and nothing comes of it. -/
theorem replay_over {plan : Plan} {moves : List Move} {s s' : State} {log : List Receipt}
    (made : replay plan moves s = some (log,s')) (stopped : s.status ≠ .active) :
    log = [] ∧ SameReport s s' ∧
      ∀ i, .start i ∈ moves → ∃ t, s.tasks[i]? = some t ∧ t.stage = .cleared := by
  induction moves generalizing s log with
  | nil =>
    cases made
    exact ⟨rfl,⟨rfl,rfl,rfl,rfl⟩,by simp⟩
  | cons move moves ih =>
    simp only [replay] at made
    split at made
    · cases made
    · rename_i next moved
      obtain ⟨⟨rest,last⟩,later,equal⟩ := Option.map_eq_some_iff.mp made
      cases equal
      obtain ⟨quiet,same⟩ := (step_effect moved).over stopped
      obtain ⟨silent,kept,cleared⟩ := ih later (by rw [same.status]; exact stopped)
      refine ⟨by simp [quiet,silent],?_,?_⟩
      · exact ⟨kept.drafts.trans same.drafts,kept.failures.trans same.failures,
          kept.progress.trans same.progress,kept.status.trans same.status⟩
      · intro i member
        have shift := step_shift moved
        rcases List.mem_cons.mp member with rfl | further
        · exact shift.cleared_of_start
        · obtain ⟨t,found,stage⟩ := cleared i further
          exact shift.cleared_before stopped found stage

/-- Units at work never outnumber the workers, each is worked on at most once, and a run that is over
neither starts a task that was not cleared before nor changes what it reports. -/
theorem worker_bound (env : Environment) (scope : Scope) (progress : Progress) (moves : List Move)
    (log : List Receipt) (s : State)
    (made : replay (.ofScope env scope) moves (initial (.ofScope env scope) progress) = some (log,s)) :
    running s ≤ env.config.workers ∧
    (∀ job, (bodies (.ofScope env scope) moves (initial (.ofScope env scope) progress)).count job ≤
      (jobsOf scope.tree).count job) ∧
    (scope.Analysed env →
      (bodies (.ofScope env scope) moves (initial (.ofScope env scope) progress)).Nodup) ∧
    (s.status ≠ .active → ∀ later receipts s',
      replay (.ofScope env scope) later s = some (receipts,s') →
        (∀ i, .start i ∈ later → ∃ t, s.tasks[i]? = some t ∧ t.stage = .cleared) ∧
        receipts = [] ∧ SameReport s s') := by
  have reached : Reached (.ofScope env scope) progress log s := by
    simpa using Reached.start.replay made
  have once : ∀ job, (bodies (.ofScope env scope) moves (initial (.ofScope env scope) progress)).count
      job ≤ (jobsOf scope.tree).count job := bodies_count_le made
  refine ⟨Nat.le_trans (running_le_busy s) reached.busy_le,once,?_,?_⟩
  · intro analysed
    have scheduled := List.nodup_iff_count.mp (jobsOf_nodup analysed.ordered)
    rw [List.nodup_iff_count]
    exact fun job => Nat.le_trans (once job) (scheduled job)
  · intro stopped later receipts s' more
    obtain ⟨quiet,same,cleared⟩ := replay_over more stopped
    exact ⟨cleared,quiet,same⟩

def lonely (policy : FailurePolicy) : Environment where
  files := ⟨.directory "" [.directory "a" [.file "A.java" [], .file "B.java" []]],[]⟩
  reader := ⟨fun _ => .failure "gone",fun _ => 0⟩
  config := { Config.default with maxConcurrency := some 1, failurePolicy := policy }

def twoUnits : Scope := .ofTree (.ofUnits ⟨"a"⟩ [⟨"a/A.java"⟩, ⟨"a/B.java"⟩])

def overdueMoves : List Move := [.spawn, .spawn, .acquire 0, .start 0, .expire 0, .receive]

def brokenMoves : List Move := [.spawn, .spawn, .acquire 0, .start 0, .finish 0, .receive]

/-- The unit that was given up keeps the only worker from the other one. In a run that is over, the other
one gets the worker and is cancelled. -/
theorem worker_bound_lonely :
    (∃ log s, replay (.ofScope (lonely .bestEffort) twoUnits) overdueMoves
        (initial (.ofScope (lonely .bestEffort) twoUnits) .start) = some (log,s) ∧
      s.failures = [.timeout ⟨"a/A.java"⟩ 30000] ∧ running s = 1 ∧
      running s ≤ (lonely .bestEffort).config.workers ∧ twoUnits.Analysed (lonely .bestEffort) ∧
      (bodies (.ofScope (lonely .bestEffort) twoUnits) overdueMoves
        (initial (.ofScope (lonely .bestEffort) twoUnits) .start)).Nodup ∧
      (step (.ofScope (lonely .bestEffort) twoUnits) s (.acquire 1)).isNone) ∧
    ∃ log s s', replay (.ofScope (lonely .failFast) twoUnits) brokenMoves
        (initial (.ofScope (lonely .failFast) twoUnits) .start) = some (log,s) ∧
      s.status = .aborted (.unreadable ⟨"a/A.java"⟩ "gone") ∧
      replay (.ofScope (lonely .failFast) twoUnits) [.acquire 1] s = some ([],s') ∧
      s'.tasks.map Task.stage = [.ended, .cancelled] ∧ SameReport s s' := by
  constructor
  · have made : replay (.ofScope (lonely .bestEffort) twoUnits) overdueMoves
        (initial (.ofScope (lonely .bestEffort) twoUnits) .start) = some (_,_) := rfl
    have analysed : twoUnits.Analysed (lonely .bestEffort) := ⟨⟨"a"⟩,.inl rfl⟩
    obtain ⟨bound,-,once,-⟩ := worker_bound _ _ _ _ _ _ made
    exact ⟨_,_,made,rfl,rfl,bound,analysed,once analysed,rfl⟩
  · have made : replay (.ofScope (lonely .failFast) twoUnits) brokenMoves
        (initial (.ofScope (lonely .failFast) twoUnits) .start) = some (_,_) := rfl
    obtain ⟨-,-,-,ended⟩ := worker_bound _ _ _ _ _ _ made
    exact ⟨_,_,_,made,rfl,rfl,rfl,(ended (by decide) [.acquire 1] _ _ rfl).2.2⟩

end Coupling.Run
