import Coupling.Run.Machine

/-! The machine leaves open which move comes next. Here it is the first possible one in a fixed order,
and time passes only when nothing else can be done. Every state that the schedule comes to is one that
the machine comes to by some moves. -/
namespace Coupling.Run

structure Timing where
  work : Path → Nat
  admission : Nat

structure Clock where
  now : Nat
  starts : List (Nat × Nat)
  /-- Since when the aggregator waits. -/
  waiting : Nat

def Clock.zero : Clock := ⟨0,[],0⟩

def Clock.startOf (c : Clock) (i : Nat) : Nat := ((c.starts.find? (·.1 == i)).map Prod.snd).getD c.now

/-- The moves that time brings about, and when. -/
def dueMoves (plan : Plan) (timing : Timing) (s : State) (c : Clock) : List (Nat × Move) :=
  let tasks := s.tasks.zipIdx
  (tasks.filter (·.1.stage == .running)).map (fun t =>
    (c.startOf t.2 + timing.work t.1.job.path, .finish t.2)) ++
  (tasks.filter fun t => t.1.stage.holdsWorker && !t.1.reported).map (fun t =>
    (c.startOf t.2 + plan.unitTimeout, .expire t.2)) ++
  if s.pending.isEmpty then [] else [(c.waiting + timing.admission, .stall)]

/-- The earliest of timed moves, the first one of those that are due together. -/
def earliest : List (Nat × Move) → Option (Nat × Move)
  | [] => none
  | m :: ms =>
    match earliest ms with
    | none => some m
    | some n => if n.1 < m.1 then some n else some m

def next (plan : Plan) (timing : Timing) (s : State) (c : Clock) : Option (Nat × Move) :=
  if s.status ≠ .active then none
  else if s.canSpawn plan then some (c.now, .spawn)
  else match s.tasks.findIdx? (·.stage == .cleared) with
  | some i => some (c.now, .start i)
  | none =>
    match s.tasks.findIdx? (·.stage == .waiting), decide (s.busyWorkers < plan.workers) with
    | some i, true => some (c.now, .acquire i)
    | _, _ =>
      if s.channel.isEmpty then earliest (dueMoves plan timing s c) else some (c.now, .receive)

def Clock.advance (c : Clock) (time : Nat) : Move → Clock
  | .start i => ⟨time,(i, time) :: c.starts,c.waiting⟩
  | .receive => ⟨time,c.starts,time⟩
  | _ => ⟨time,c.starts,c.waiting⟩

/-- Makes at most `fuel` moves. -/
def follow (plan : Plan) (timing : Timing) : Nat → State → Clock → State
  | 0, s, _ => s
  | fuel + 1, s, c =>
    match next plan timing s c with
    | none => s
    | some (time, move) =>
      match step plan s move with
      | none => s
      | some s => follow plan timing fuel s (c.advance time move)

/-- Each unit takes no more than six moves, and one more can end the run. -/
def maxMoves (plan : Plan) : Nat := 6 * plan.jobs.length + 1

def execute (plan : Plan) (timing : Timing) (progress : Progress) : State :=
  follow plan timing (maxMoves plan) (State.initial plan progress) Clock.zero

end Coupling.Run
