import Coupling.Config
import Coupling.Run.Draft
import Coupling.Run.Progress

/-! Units are scheduled in order, as long as fewer than `limit` of them are in flight. Each has a task,
which waits for one of the workers, looks whether the run still goes on, works, and sends one outcome. A
task whose time is over sends that as its outcome, but keeps its worker until its work is done. A single
aggregator receives the outcomes and is the only one to change the reports.

A move that is not possible in a state has no result. Nothing is said here about when a move is made:
the machine can take any possible one at any time. -/
namespace Coupling.Run

/-- A unit to be classified, for the grouping with that index. -/
structure Job where
  grouping : Nat
  path : Path
  deriving DecidableEq, Repr

structure Plan where
  limit : Nat
  workers : Nat
  unitTimeout : Nat
  failurePolicy : FailurePolicy
  directories : List Path
  jobs : List Job
  classify : Path → Outcome

/-- The most places that a queue can have, and the most workers that can be waited for. -/
def maxPermits : Nat := 2305843009213693951

def Plan.fits (plan : Plan) : Bool := plan.limit ≤ maxPermits && plan.workers ≤ maxPermits

inductive Stage
  | waiting
  /-- With a worker, having seen that the run goes on. -/
  | cleared
  | running
  | ended
  /-- With a worker only when the run was over, so that it never starts. -/
  | cancelled
  deriving DecidableEq, Repr

def Stage.holdsWorker : Stage → Bool
  | cleared => true
  | running => true
  | waiting => false
  | ended => false
  | cancelled => false

structure Task where
  job : Job
  stage : Stage
  reported : Bool
  deriving DecidableEq, Repr

inductive Status
  | active
  | completed
  | aborted (error : AnalysisError)
  deriving DecidableEq, Repr

structure State where
  pending : List Job
  tasks : List Task
  /-- Outcomes that are sent and not yet received, the oldest first. -/
  channel : List (Job × Outcome)
  inFlight : Nat
  drafts : List GroupingDraft
  failures : List AnalysisError
  progress : Progress
  status : Status

inductive Move
  | spawn
  | acquire (task : Nat)
  | start (task : Nat)
  | finish (task : Nat)
  | expire (task : Nat)
  | receive
  /-- The aggregator has waited too long for an outcome. -/
  | stall
  /-- The aggregator finds that nobody is left to send an outcome. -/
  | disconnect
  deriving DecidableEq, Repr

namespace State

def canSpawn (plan : Plan) (s : State) : Bool := s.inFlight < plan.limit && !s.pending.isEmpty

/-- Once no unit can be scheduled, a run without pending units has nothing but to aggregate, and one
without units in flight is completed. -/
def settle (plan : Plan) (s : State) : State :=
  if s.canSpawn plan then s
  else
    { s with
      progress := if s.pending.isEmpty then s.progress.enter .aggregating else s.progress
      status := if s.inFlight = 0 then .completed else s.status }

/-- The state in which a run begins when its queue and its workers are set up. -/
def initial (plan : Plan) (progress : Progress) : State :=
  settle plan
    { pending := plan.jobs
      tasks := []
      channel := []
      inFlight := 0
      drafts := plan.directories.map GroupingDraft.empty
      failures := []
      progress := if plan.jobs.isEmpty then progress else progress.enter .classifying
      status := .active }

def busyWorkers (s : State) : Nat := s.tasks.countP (·.stage.holdsWorker)

/-- Handles of the channel that an outcome can be sent through: the run has one of its own while it is
active, and so has each task until its outcome is sent or it is cancelled. -/
def senders (s : State) : Nat :=
  (if s.status = .active then 1 else 0) + s.tasks.countP fun t => !t.reported && t.stage != .cancelled

/-- An outcome is sent, unless nobody listens any more. -/
def send (s : State) (job : Job) (outcome : Outcome) : State :=
  if s.status = .active then { s with channel := s.channel ++ [(job, outcome)] } else s

def setTask (s : State) (i : Nat) (t : Task) : State := { s with tasks := s.tasks.set i t }

def take (plan : Plan) (s : State) (job : Job) : Outcome → State
  | .ok unit =>
    settle plan { s with
      drafts := s.drafts.modify job.grouping (·.merge job.path unit)
      progress := s.progress.emit (.unitMerged unit.report.name unit.report.size) }
  | .error e =>
    match plan.failurePolicy with
    | .failFast => { s with status := .aborted e }
    | .bestEffort =>
      settle plan { s with
        failures := s.failures ++ [e]
        progress := s.progress.emit (.unitFailed job.path e.message) }

end State

open State

def spawn (plan : Plan) (s : State) : Option State :=
  if s.status = .active ∧ s.inFlight < plan.limit then
    match s.pending with
    | [] => none
    | job :: rest =>
      some (settle plan { s with
        pending := rest
        tasks := s.tasks ++ [⟨job,.waiting,false⟩]
        inFlight := s.inFlight + 1 })
  else none

def acquire (plan : Plan) (s : State) (i : Nat) : Option State :=
  match s.tasks[i]? with
  | none => none
  | some t =>
    if t.stage = .waiting ∧ s.busyWorkers < plan.workers then
      some (s.setTask i { t with stage := if s.status = .active then .cleared else .cancelled })
    else none

def start (s : State) (i : Nat) : Option State :=
  match s.tasks[i]? with
  | none => none
  | some t => if t.stage = .cleared then some (s.setTask i { t with stage := .running }) else none

def finish (plan : Plan) (s : State) (i : Nat) : Option State :=
  match s.tasks[i]? with
  | none => none
  | some t =>
    if t.stage = .running then
      let s := s.setTask i { t with stage := .ended, reported := true }
      some (if t.reported then s else s.send t.job (plan.classify t.job.path))
    else none

def expire (plan : Plan) (s : State) (i : Nat) : Option State :=
  match s.tasks[i]? with
  | none => none
  | some t =>
    if t.stage.holdsWorker ∧ !t.reported then
      some ((s.setTask i { t with reported := true }).send t.job
        (.error (.timeout t.job.path plan.unitTimeout)))
    else none

def receive (plan : Plan) (s : State) : Option State :=
  if s.status = .active ∧ !s.canSpawn plan then
    match s.channel with
    | [] => none
    | (job, outcome) :: rest =>
      some (take plan { s with channel := rest, inFlight := s.inFlight - 1 } job outcome)
  else none

def stall (plan : Plan) (s : State) : Option State :=
  if s.status = .active ∧ !s.canSpawn plan ∧ s.channel.isEmpty then
    match s.pending with
    | [] => none
    | job :: _ => some { s with status := .aborted (.capacityExceeded plan.limit job.path) }
  else none

def disconnect (plan : Plan) (s : State) : Option State :=
  if s.status = .active ∧ !s.canSpawn plan ∧ s.channel.isEmpty ∧ s.senders = 0 then
    some { s with status := .completed }
  else none

def step (plan : Plan) (s : State) : Move → Option State
  | .spawn => spawn plan s
  | .acquire i => acquire plan s i
  | .start i => start s i
  | .finish i => finish plan s i
  | .expire i => expire plan s i
  | .receive => receive plan s
  | .stall => stall plan s
  | .disconnect => disconnect plan s

end Coupling.Run
