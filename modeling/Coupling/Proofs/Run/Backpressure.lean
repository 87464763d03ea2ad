import Coupling.Proofs.Run.Accounting
import Coupling.Proofs.Run.Outcome
import Coupling.Proofs.SourceTree

/-! The bound on units in flight, in every state that a run over a tree can come to. -/
namespace Coupling.Run

open State

/-- The error of a run names the capacity only if no unit came in while the pipeline was full: outcomes
of units never speak of it. -/
theorem capacity_stalled {env : Environment} {scope : Scope} {progress : Progress}
    {log : List Receipt} {s : State} (reached : Reached (Plan.ofScope env scope) progress log s)
    (positive : 0 < (Plan.ofScope env scope).limit) {limit : Nat} {unit : Path}
    (aborted : s.status = .aborted (.capacityExceeded limit unit)) :
    Stalled (Plan.ofScope env scope) s (.capacityExceeded limit unit) := by
  rcases (reached.standing positive).aborted _ aborted with stalled | ⟨-,earlier,job,rfl⟩
  · exact stalled
  · have possible := reached.possible (job,.error (.capacityExceeded limit unit)) (by simp)
    have concerns := possible.concerns rfl
    cases concerns.1

/-- Whatever moves a run makes: the units in flight are those scheduled and not received, and the channel
has room for every outcome. Units are scheduled in order, outcomes received at most once, and a completed
run has received each one. The aggregator never waits for nobody, and the capacity is exceeded only at the
limit, by the first unit that is never scheduled. -/
theorem backpressure_accounting (env : Environment) (valid : env.config.validate = .ok ())
    (scope : Scope) (progress : Progress) (log : List Receipt) (s : State)
    (reached : Reached (Plan.ofScope env scope) progress log s) :
    (log.length ≤ s.tasks.length ∧ s.inFlight = s.tasks.length - log.length ∧
      s.inFlight ≤ env.config.backpressureLimit) ∧
    (s.channel.length ≤ env.config.backpressureLimit ∧
      (s.status = .active → (∃ t ∈ s.tasks, t.reported = false) →
        s.channel.length < env.config.backpressureLimit)) ∧
    s.tasks.map Task.job ++ s.pending = jobsOf scope.tree ∧
    (∀ job, (log.map Prod.fst).count job ≤ (s.tasks.map Task.job).count job) ∧
    (s.status = .completed → s.pending = [] ∧ (log.map Prod.fst).Perm (jobsOf scope.tree)) ∧
    (disconnect (Plan.ofScope env scope) s = none ∧
      (s.status = .active → s.canSpawn (Plan.ofScope env scope) = false → s.channel = [] →
        ∃ t ∈ s.tasks, t.reported = false)) ∧
    (∀ limit unit, s.status = .aborted (.capacityExceeded limit unit) →
      limit = env.config.backpressureLimit ∧ s.inFlight = limit ∧
        ∃ grouping rest, s.pending = ⟨grouping,unit⟩ :: rest) ∧
    (scope.tree.unitCount ≤ env.config.backpressureLimit →
      ∀ limit unit, s.status ≠ .aborted (.capacityExceeded limit unit)) := by
  have positive : 0 < (Plan.ofScope env scope).limit := limit_pos valid
  have account := reached.account
  have bound : s.inFlight ≤ env.config.backpressureLimit := account.bound
  have counted := account.inFlight
  have loaded := account.load_le
  have order : s.tasks.map Task.job ++ s.pending = jobsOf scope.tree := account.order
  have capacity : ∀ limit unit, s.status = .aborted (.capacityExceeded limit unit) →
      limit = env.config.backpressureLimit ∧ s.inFlight = limit ∧
        ∃ grouping rest, s.pending = ⟨grouping,unit⟩ :: rest := by
    intro limit unit aborted
    obtain ⟨full,job,rest,pending,equal⟩ := capacity_stalled reached positive aborted
    cases equal
    exact ⟨rfl,full,_,_,pending⟩
  refine ⟨⟨by omega,by omega,bound⟩,⟨by omega,?_⟩,order,?_,reached.received_all positive,⟨?_,?_⟩,
    capacity,?_⟩
  · rintro active ⟨t,member,fresh⟩
    have owed := List.length_pos_of_mem (mem_owing.mpr ⟨member,fresh⟩)
    omega
  · intro job
    obtain ⟨lost,perm,-⟩ := account.conserved
    rw [← perm.count_eq]
    simp only [List.count_append]
    omega
  · unfold disconnect
    rw [if_neg]
    rintro ⟨active,-,-,lone⟩
    simp [senders,active] at lone
  · exact fun active full empty => reached.waiting_owed positive active full empty
  · intro few limit unit aborted
    obtain ⟨rfl,full,grouping,rest,pending⟩ := capacity limit unit aborted
    have length := congrArg List.length order
    rw [length_jobsOf, pending] at length
    simp only [List.length_append,List.length_map,List.length_cons] at length
    omega

def narrow : Environment where
  files := FileSystem.empty []
  reader := ⟨fun _ => .failure "gone",fun _ => 0⟩
  config := { Config.default with backpressureLimit := 1, failurePolicy := .bestEffort }

def threeUnits : Scope :=
  .ofTree (.ofUnits ⟨"a"⟩ [⟨"a/C.java"⟩, ⟨"a/A.java"⟩, ⟨"a/B.java"⟩])

/-- The first unit is given up and received, then the second one keeps the third from its place. -/
def blockedMoves : List Move := [.spawn, .acquire 0, .start 0, .expire 0, .receive, .spawn, .stall]

theorem backpressure_blocked : ∃ log s,
    replay (.ofScope narrow threeUnits) blockedMoves (initial (.ofScope narrow threeUnits) .start) =
      some (log,s) ∧
    narrow.config.validate = .ok () ∧ log.map Prod.fst = [⟨0,⟨"a/A.java"⟩⟩] ∧
    s.status = .aborted (.capacityExceeded 1 ⟨"a/C.java"⟩) ∧
    s.inFlight = s.tasks.length - log.length ∧ s.inFlight = 1 ∧
    s.tasks.map Task.job ++ s.pending = jobsOf threeUnits.tree ∧
    ∃ grouping rest, s.pending = ⟨grouping,⟨"a/C.java"⟩⟩ :: rest := by
  have made : replay (.ofScope narrow threeUnits) blockedMoves
      (initial (.ofScope narrow threeUnits) .start) = some (_,_) := rfl
  refine ⟨_,_,made,rfl,rfl,rfl,?_⟩
  obtain ⟨⟨-,flying,-⟩,-,order,-,-,-,capacity,-⟩ :=
    backpressure_accounting narrow rfl threeUnits .start _ _ (Reached.start.replay made)
  obtain ⟨-,full,first⟩ := capacity 1 ⟨"a/C.java"⟩ rfl
  exact ⟨flying,full,order,first⟩

end Coupling.Run
