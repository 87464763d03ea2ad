import Coupling.Proofs.Draft
import Coupling.Proofs.Run.Accounting

/-! What a run has collected depends on nothing but what it has received, and in which order. -/
namespace Coupling.Run

open State

/-! ## Receipts -/

def mergeReceipt (drafts : List GroupingDraft) (r : Receipt) : List GroupingDraft :=
  match r.2 with
  | .ok unit => drafts.modify r.1.grouping (·.merge r.1.path unit)
  | .error _ => drafts

def merged (directories : List Path) (log : List Receipt) : List GroupingDraft :=
  log.foldl mergeReceipt (directories.map GroupingDraft.empty)

def failure? (r : Receipt) : Option AnalysisError :=
  match r.2 with
  | .ok _ => none
  | .error e => some e

def failuresIn (log : List Receipt) : List AnalysisError := log.filterMap failure?

@[simp] theorem failuresIn_append (log log' : List Receipt) :
    failuresIn (log ++ log') = failuresIn log ++ failuresIn log' := by
  simp [failuresIn]

@[simp] theorem failuresIn_ok (job : Job) (unit : ClassifiedUnit) :
    failuresIn [(job,.ok unit)] = [] := rfl

@[simp] theorem failuresIn_error (job : Job) (e : AnalysisError) :
    failuresIn [(job,.error e)] = [e] := rfl

/-! ## The aggregator -/

namespace State

theorem take_drafts (plan : Plan) (s : State) (job : Job) (outcome : Outcome) :
    (take plan s job outcome).drafts = mergeReceipt s.drafts (job,outcome) := by
  unfold take
  split
  · simp [mergeReceipt]
  · split <;> simp [mergeReceipt]

theorem take_failures (plan : Plan) (s : State) (job : Job) (outcome : Outcome) :
    (take plan s job outcome).failures = s.failures ++
      match plan.failurePolicy with
      | .failFast => []
      | .bestEffort => failuresIn [(job,outcome)] := by
  unfold take
  split
  · cases plan.failurePolicy <;> simp
  · cases policy : plan.failurePolicy <;> simp

end State

/-- A run that bears no failure has received none, or one as the last that ended it. -/
def Spared (log : List Receipt) (s : State) : Prop :=
  failuresIn log = [] ∨ ∃ earlier job e,
    log = earlier ++ [(job,.error e)] ∧ failuresIn earlier = [] ∧ s.status = .aborted e

structure Collected (plan : Plan) (log : List Receipt) (s : State) : Prop where
  drafts : s.drafts = merged plan.directories log
  failures : s.failures =
    match plan.failurePolicy with
    | .failFast => []
    | .bestEffort => failuresIn log
  spared : plan.failurePolicy = .failFast → Spared log s

theorem initial_collected (plan : Plan) (progress : Progress) :
    Collected plan [] (State.initial plan progress) where
  drafts := by simp [State.initial,merged]
  failures := by cases plan.failurePolicy <;> simp [State.initial,failuresIn]
  spared _ := .inl rfl

namespace Collected

variable {plan : Plan} {log : List Receipt} {s : State}

/-- Whoever does not receive changes nothing that is collected. -/
theorem congr {s' : State} (collected : Collected plan log s) (drafts : s'.drafts = s.drafts)
    (failures : s'.failures = s.failures) (status : s.status = .active ∨ s'.status = s.status) :
    Collected plan log s' where
  drafts := drafts.trans collected.drafts
  failures := failures.trans collected.failures
  spared strict := by
    rcases collected.spared strict with none | ⟨earlier,job,e,split,before,aborted⟩
    · exact .inl none
    · rcases status with active | same
      · rw [active] at aborted
        cases aborted
      · exact .inr ⟨earlier,job,e,split,before,same.trans aborted⟩

theorem active_spared (collected : Collected plan log s) (strict : plan.failurePolicy = .failFast)
    (active : s.status = .active) : failuresIn log = [] := by
  rcases collected.spared strict with none | ⟨_,_,_,-,-,aborted⟩
  · exact none
  · rw [active] at aborted
    cases aborted

theorem received (collected : Collected plan log s) (active : s.status = .active)
    (rest : List Receipt) (job : Job) (outcome : Outcome) :
    Collected plan (log ++ [(job,outcome)])
      (take plan { s with channel := rest, inFlight := s.inFlight - 1 } job outcome) where
  drafts := by simp [take_drafts,collected.drafts,merged]
  failures := by
    rw [take_failures]
    simp only [collected.failures]
    cases plan.failurePolicy <;> simp
  spared strict := by
    have before := collected.active_spared strict active
    cases outcome with
    | ok unit => exact .inl (by simp [before])
    | error e => exact .inr ⟨log,job,e,rfl,before,by rw [take_status,strict]⟩

theorem preserved {receipts : List Receipt} {s' : State} (collected : Collected plan log s)
    (effect : Effect plan s receipts s') : Collected plan (log ++ receipts) s' := by
  cases effect with
  | spawned active _ _ =>
    rw [List.append_nil]
    exact collected.congr (by simp) (by simp) (.inl active)
  | advanced _ _ =>
    rw [List.append_nil]
    exact collected.congr rfl rfl (.inr rfl)
  | reported _ _ _ =>
    rw [List.append_nil]
    exact collected.congr (by simp) (by simp) (.inr (by simp))
  | received active _ _ => exact collected.received active _ _ _
  | stalled active _ _ _ =>
    rw [List.append_nil]
    exact collected.congr rfl rfl (.inl active)
  | disconnected active _ =>
    rw [List.append_nil]
    exact collected.congr rfl rfl (.inl active)

end Collected

theorem Reached.collected {plan : Plan} {progress : Progress} {log : List Receipt} {s : State}
    (reached : Reached plan progress log s) : Collected plan log s :=
  reached.invariant (Collected plan) (initial_collected plan progress)
    fun _ _ _ _ collected effect => collected.preserved effect

/-! ## The end of a run -/

inductive Ending (plan : Plan) (log : List Receipt) (s : State) : Prop
  | completed (status : s.status = .completed) (all : (log.map Prod.fst).Perm plan.jobs)
      (spared : plan.failurePolicy = .failFast → failuresIn log = [])
  | stalled {e} (status : s.status = .aborted e) (stalled : Stalled plan s e)
  | failed {earlier job e} (status : s.status = .aborted e) (strict : plan.failurePolicy = .failFast)
      (last : log = earlier ++ [(job,.error e)]) (spared : failuresIn earlier = [])

theorem Reached.ending {plan : Plan} {progress : Progress} {log : List Receipt} {s : State}
    (reached : Reached plan progress log s) (positive : 0 < plan.limit) (stopped : s.status ≠ .active) :
    Ending plan log s := by
  have collected := reached.collected
  cases status : s.status with
  | active => exact absurd status stopped
  | completed =>
    refine .completed status (reached.received_all positive status).2 ?_
    intro strict
    rcases collected.spared strict with none | ⟨_,_,_,-,-,aborted⟩
    · exact none
    · rw [status] at aborted
      cases aborted
  | aborted e =>
    rcases (reached.standing positive).aborted e status with stalled | ⟨strict,earlier,job,last⟩
    · exact .stalled status stalled
    · rcases collected.spared strict with none | ⟨_,_,_,split,spared,aborted⟩
      · simp [last] at none
      · cases status.symm.trans aborted
        exact .failed status strict split spared

theorem collected_of_completed {s : State} (status : s.status = .completed) :
    s.collected = .ok (s.drafts,s.failures) := by
  simp [State.collected,status]

theorem collected_of_aborted {s : State} {e : AnalysisError} (status : s.status = .aborted e) :
    s.collected = .error e := by
  simp [State.collected,status]

namespace Ending

variable {plan : Plan} {log : List Receipt} {s : State}

theorem of_ok (ending : Ending plan log s) {drafts : List GroupingDraft}
    {failures : List AnalysisError} (ok : s.collected = .ok (drafts,failures)) :
    s.status = .completed ∧ drafts = s.drafts ∧ failures = s.failures ∧
      (plan.failurePolicy = .failFast → failuresIn log = []) := by
  cases ending with
  | completed status _ spared =>
    rw [collected_of_completed status] at ok
    cases ok
    exact ⟨status,rfl,rfl,spared⟩
  | stalled status _ =>
    rw [collected_of_aborted status] at ok
    cases ok
  | failed status _ _ _ =>
    rw [collected_of_aborted status] at ok
    cases ok

theorem of_error (ending : Ending plan log s) {e : AnalysisError} (error : s.collected = .error e) :
    Stalled plan s e ∨ (plan.failurePolicy = .failFast ∧
      ∃ earlier job, log = earlier ++ [(job,.error e)] ∧ failuresIn earlier = []) := by
  cases ending with
  | completed status _ _ =>
    rw [collected_of_completed status] at error
    cases error
  | stalled status stalled =>
    rw [collected_of_aborted status] at error
    cases error
    exact .inl stalled
  | failed status strict last spared =>
    rw [collected_of_aborted status] at error
    cases error
    exact .inr ⟨strict,_,_,last,spared⟩

end Ending

end Coupling.Run
