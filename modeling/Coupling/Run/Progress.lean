import Coupling.Path

/-! A run goes through phases and tells of each one it enters, and of each unit that it has merged or
given up. -/
namespace Coupling

inductive Phase
  | idle
  | discovering
  | classifying
  | aggregating
  | completed
  | failed
  deriving DecidableEq, Repr

inductive Event
  | entered (phase : Phase)
  | unitMerged (name : String) (dependencies : Nat)
  | unitFailed (path : Path) (message : String)
  deriving DecidableEq, Repr

structure Progress where
  phase : Phase
  events : List Event
  deriving DecidableEq, Repr

namespace Progress

def start : Progress := ⟨.idle,[]⟩

def emit (p : Progress) (e : Event) : Progress := { p with events := p.events ++ [e] }

/-- Enters a phase, which is told only if it is a new one. -/
def enter (p : Progress) (phase : Phase) : Progress :=
  if p.phase = phase then p else { (p.emit (.entered phase)) with phase := phase }

end Progress

end Coupling
