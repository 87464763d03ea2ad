import Coupling.Proofs.Run.Backpressure
import Coupling.Proofs.Run.FailurePolicy

/-! What an analysis tells of itself. The phases that it enters follow from the units that are left to
schedule, and what it tells of units from what it has received; both are kept by every move. -/
namespace Coupling

/-! ## Events -/

def Event.phase? : Event → Option Phase
  | .entered phase => some phase
  | .unitMerged _ _ => none
  | .unitFailed _ _ => none

def phases (events : List Event) : List Phase := events.filterMap Event.phase?

def unitEvents (events : List Event) : List Event := events.filter (·.phase?.isNone)

@[simp] theorem phases_nil : phases [] = [] := rfl

@[simp] theorem phases_entered (phase : Phase) (events : List Event) :
    phases (.entered phase :: events) = phase :: phases events := rfl

@[simp] theorem phases_append (events events' : List Event) :
    phases (events ++ events') = phases events ++ phases events' :=
  List.filterMap_append

@[simp] theorem unitEvents_nil : unitEvents [] = [] := rfl

@[simp] theorem unitEvents_entered (phase : Phase) (events : List Event) :
    unitEvents (.entered phase :: events) = unitEvents events := rfl

@[simp] theorem unitEvents_append (events events' : List Event) :
    unitEvents (events ++ events') = unitEvents events ++ unitEvents events' :=
  List.filter_append ..

theorem Progress.enter_of_ne {p : Progress} {phase : Phase} (new : p.phase ≠ phase) :
    p.enter phase = ⟨phase,p.events ++ [.entered phase]⟩ := by
  simp [enter,emit,new]

namespace Run

open State

/-! ## Units -/

/-- What is told when an outcome is received. A failure that ends the run is not told. -/
def tells (policy : FailurePolicy) (r : Receipt) : Option Event :=
  match r.2 with
  | .ok unit => some (.unitMerged unit.report.name unit.report.size)
  | .error e =>
    match policy with
    | .failFast => none
    | .bestEffort => some (.unitFailed r.1.path e.message)

def told (plan : Plan) (log : List Receipt) : List Event :=
  log.filterMap (tells plan.failurePolicy)

theorem told_concat (plan : Plan) (log : List Receipt) (r : Receipt) :
    told plan (log ++ [r]) = told plan log ++ (tells plan.failurePolicy r).toList := by
  cases found : tells plan.failurePolicy r <;> simp [told,found]

theorem phase?_of_tells {policy : FailurePolicy} {r : Receipt} {e : Event}
    (tells : tells policy r = some e) : e.phase? = none := by
  unfold Run.tells at tells
  split at tells
  · cases tells
    rfl
  · split at tells
    · cases tells
    · cases tells
      rfl

theorem phase?_of_mem_told {plan : Plan} {log : List Receipt} {e : Event} (member : e ∈ told plan log) :
    e.phase? = none := by
  obtain ⟨r,-,tells⟩ := List.mem_filterMap.mp member
  exact phase?_of_tells tells

theorem phases_of_units {events : List Event} (units : ∀ e ∈ events, e.phase? = none) :
    phases events = [] :=
  List.filterMap_eq_nil_iff.mpr units

theorem unitEvents_of_units {events : List Event} (units : ∀ e ∈ events, e.phase? = none) :
    unitEvents events = events := by
  refine List.filter_eq_self.mpr ?_
  intro e member
  simp [units e member]

/-- All that is received is told, unless a failure among it ends the run. -/
theorem length_told {plan : Plan} {log : List Receipt}
    (spared : plan.failurePolicy = .failFast → failuresIn log = []) :
    (told plan log).length = log.length := by
  refine List.filterMap_length_eq_length.mpr ?_
  intro r member
  unfold tells
  split
  · rfl
  · rename_i e failed
    split
    · rename_i strict
      obtain ⟨unit,ok⟩ := failuresIn_eq_nil_iff.mp (spared strict) r member
      cases failed.symm.trans ok
    · rfl

/-! ## Phases -/

namespace State

/-- Aggregating begins as soon as no unit is left to schedule. -/
theorem settle_progress (plan : Plan) (s : State) : (settle plan s).progress =
    if s.pending = [] then s.progress.enter .aggregating else s.progress := by
  unfold settle
  by_cases none : s.pending = []
  · simp [canSpawn,none]
  · split <;> simp [none]

theorem take_progress (plan : Plan) (s : State) (job : Job) (outcome : Outcome) :
    (take plan s job outcome).progress =
      match tells plan.failurePolicy (job,outcome) with
      | none => s.progress
      | some e => if s.pending = [] then (s.progress.emit e).enter .aggregating else s.progress.emit e := by
  unfold take
  cases outcome with
  | ok unit => simp [tells,settle_progress]
  | error e => cases policy : plan.failurePolicy <;> simp [tells,settle_progress]

end State

/-- What a run has told, by the units that are left to schedule. -/
inductive Narrated (plan : Plan) (log : List Receipt) (s : State) : Prop
  | idle (jobs : plan.jobs = []) (progress : s.progress =
      ⟨.aggregating,[.entered .discovering, .entered .aggregating]⟩)
  | classifying (pending : s.pending ≠ []) (progress : s.progress =
      ⟨.classifying,.entered .discovering :: .entered .classifying :: told plan log⟩)
  | aggregating (early late : List Event) (jobs : plan.jobs ≠ []) (pending : s.pending = [])
      (split : told plan log = early ++ late) (progress : s.progress =
        ⟨.aggregating,.entered .discovering :: .entered .classifying ::
          (early ++ .entered .aggregating :: late)⟩)

def discovering : Progress := Progress.start.enter .discovering

theorem initial_narrated (plan : Plan) : Narrated plan [] (initial plan discovering) := by
  by_cases jobs : plan.jobs = []
  · refine .idle jobs ?_
    rw [State.initial, settle_progress]
    simp [jobs,discovering,Progress.enter,Progress.start,Progress.emit]
  · refine .classifying (by simpa [State.initial] using jobs) ?_
    rw [State.initial, settle_progress]
    simp [jobs,discovering,Progress.enter,Progress.start,Progress.emit,told]

namespace Narrated

variable {plan : Plan} {log : List Receipt} {s : State}

/-- What leaves the units to schedule alone can only add what is told of units. -/
theorem congr {s' : State} (narrated : Narrated plan log s) (pending : s'.pending = s.pending)
    (progress : s'.progress = s.progress) : Narrated plan log s' := by
  cases narrated with
  | idle jobs old => exact .idle jobs (progress.trans old)
  | classifying left old => exact .classifying (pending ▸ left) (progress.trans old)
  | aggregating early late jobs none split old =>
    exact .aggregating early late jobs (pending.trans none) split (progress.trans old)

theorem spawned {job : Job} {rest : List Job} (narrated : Narrated plan log s)
    (order : s.tasks.map Task.job ++ s.pending = plan.jobs) (pending : s.pending = job :: rest)
    {s' : State} (later : s'.pending = rest) (same : s'.progress = s.progress) :
    Narrated plan log (settle plan s') := by
  have jobs : plan.jobs ≠ [] := by simp [← order,pending]
  cases narrated with
  | idle none _ => exact absurd none jobs
  | classifying _ old =>
    by_cases none : rest = []
    · refine .aggregating _ [] jobs (by rw [settle_pending,later,none]) (List.append_nil _).symm ?_
      rw [settle_progress, if_pos (later.trans none), same, old, Progress.enter_of_ne (by simp)]
      rfl
    · refine .classifying (by rwa [settle_pending,later]) ?_
      rw [settle_progress, if_neg (later ▸ none), same, old]
  | aggregating _ _ _ none _ _ =>
    rw [pending] at none
    cases none

theorem received (narrated : Narrated plan log s) (job : Job) (outcome : Outcome)
    (scheduled : job ∈ plan.jobs) {s' : State} (pending : s'.pending = s.pending)
    (same : s'.progress = s.progress) :
    Narrated plan (log ++ [(job,outcome)]) (take plan s' job outcome) := by
  have more := told_concat plan log (job,outcome)
  have progress := take_progress plan s' job outcome
  cases narrated with
  | idle jobs _ =>
    rw [jobs] at scheduled
    cases scheduled
  | classifying left old =>
    refine .classifying (by rwa [take_pending,pending]) ?_
    cases event : tells plan.failurePolicy (job,outcome) with
    | none => simp [progress,event,same,old,more]
    | some e => simp [progress,event,same,old,more,pending,left,Progress.emit]
  | aggregating early late jobs none split old =>
    cases event : tells plan.failurePolicy (job,outcome) with
    | none =>
      refine .aggregating early late jobs (by rw [take_pending,pending,none]) ?_ ?_
      · simp [more,event,split]
      · simp [progress,event,same,old]
    | some e =>
      refine .aggregating early (late ++ [e]) jobs (by rw [take_pending,pending,none]) ?_ ?_
      · simp [more,event,split]
      · simp [progress,event,same,old,pending,none,Progress.emit,Progress.enter]

theorem preserved {receipts : List Receipt} {s' : State} (account : Account plan log s)
    (narrated : Narrated plan log s) (effect : Effect plan s receipts s') :
    Narrated plan (log ++ receipts) s' := by
  cases effect with
  | spawned active room pending =>
    rw [List.append_nil]
    exact narrated.spawned account.order pending rfl rfl
  | advanced found _ =>
    rw [List.append_nil]
    exact narrated.congr rfl rfl
  | reported found fresh _ =>
    rw [List.append_nil]
    exact narrated.congr (by simp) (by simp)
  | @received job outcome rest active full channel =>
    have scheduled := (account.received active channel).received_scheduled
      (r := (job,outcome)) (by simp)
    exact narrated.received job outcome scheduled rfl rfl
  | stalled active full empty pending =>
    rw [List.append_nil]
    exact narrated.congr rfl rfl
  | disconnected active lone =>
    rw [List.append_nil]
    exact narrated.congr rfl rfl

end Narrated

theorem Reached.narrated {plan : Plan} {log : List Receipt} {s : State}
    (reached : Reached plan discovering log s) : Narrated plan log s := by
  generalize start : discovering = progress at reached
  induction reached with
  | start =>
    subst start
    exact initial_narrated plan
  | next before moved ih => exact ih.preserved before.account (step_effect moved)

end Run

end Coupling
