import Coupling.Proofs.Run.History

/-! Where outcomes come from. Each one is what the work on its unit ends in, or says that the time of the
unit is over, so a failure always names the unit that failed. -/
namespace Coupling

/-- A failure of one unit alone, which it names. -/
def AnalysisError.Concerns (e : AnalysisError) (path : Path) : Prop :=
  e.isUnitFailure = true ∧ e.unit = some path

theorem classifySource_error {index : SourceIndex} {policy : Policy} {path : Path} {source : String}
    {e : AnalysisError} (failed : classifySource index policy path source = .error e) :
    e.Concerns path := by
  unfold classifySource at failed
  split at failed
  · cases failed
    exact ⟨rfl,rfl⟩
  · cases failed

theorem classifyUnit_error {index : SourceIndex} {policy : Policy} {read : Path → Reading} {path : Path}
    {e : AnalysisError} (failed : classifyUnit index policy read path = .error e) :
    e.Concerns path := by
  unfold classifyUnit at failed
  split at failed
  · exact classifySource_error failed
  · cases failed
    exact ⟨rfl,rfl⟩
  · cases failed
    exact ⟨rfl,rfl⟩

namespace Run

open State

def Possible (plan : Plan) (r : Receipt) : Prop :=
  r.2 = plan.classify r.1.path ∨ r.2 = .error (.timeout r.1.path plan.unitTimeout)

theorem Report.possible {plan : Plan} {t : Task} {stage : Stage} {outcome : Outcome}
    (report : Report plan t stage outcome) : Possible plan (t.job,outcome) := by
  cases report with
  | finished => exact .inl rfl
  | expired => exact .inr rfl

/-- All that is received was sent before, and all that is sent is possible. -/
theorem Reached.possible {plan : Plan} {progress : Progress} {log : List Receipt} {s : State}
    (reached : Reached plan progress log s) : ∀ r ∈ log ++ s.channel, Possible plan r := by
  refine reached.invariant (fun log s => ∀ r ∈ log ++ s.channel, Possible plan r)
    (by simp [State.initial]) ?_
  intro log s receipts s' old effect r member
  cases effect with
  | spawned => exact old r (by simpa using member)
  | advanced => exact old r (by simpa using member)
  | reported found fresh report =>
    rw [List.append_nil, send_channel] at member
    split at member
    · rw [setTask_channel, ← List.append_assoc, List.mem_append, List.mem_singleton] at member
      rcases member with earlier | rfl
      · exact old r earlier
      · exact report.possible
    · exact old r member
  | received active full channel =>
    refine old r ?_
    rw [channel]
    simpa using member
  | stalled => exact old r (by simpa using member)
  | disconnected => exact old r (by simpa using member)

/-- In the plans that are made for a scope, a failure names the unit that it was received for. -/
theorem Possible.concerns {env : Environment} {scope : Scope} {r : Receipt} {e : AnalysisError}
    (possible : Possible (Plan.ofScope env scope) r) (failed : r.2 = .error e) :
    e.Concerns r.1.path := by
  rcases possible with worked | expired
  · exact classifyUnit_error (worked.symm.trans failed)
  · cases expired.symm.trans failed
    exact ⟨rfl,rfl⟩

end Run

end Coupling
