import Coupling.Path
import Coupling.Text.Rendering

/-! Failures of a single unit can be collected while the run goes on. Everything else ends the run. -/
namespace Coupling

inductive AnalysisError
  | invalidRoot (path : Path) (reason : String)
  | unreadable (path : Path) (cause : String)
  | unparsable (path : Path) (diagnostic : String)
  | capacityExceeded (limit : Nat) (unit : Path)
  | timeout (path : Path) (milliseconds : Nat)
  | taskFailed (path : Path) (reason : String)
  | invalidConfig (reason : String)
  deriving DecidableEq, Repr

namespace AnalysisError

def message : AnalysisError → String
  | invalidRoot path reason => "invalid root " ++ path.text ++ ": " ++ reason
  | unreadable path _ => "unreadable source " ++ path.text
  | unparsable path diagnostic => "unparsable source " ++ path.text ++ ": " ++ diagnostic
  | capacityExceeded limit unit =>
    "capacity exceeded: " ++ Text.decimal limit ++ " units in flight, could not admit " ++ unit.text
  | timeout path milliseconds =>
    "analysis of " ++ path.text ++ " timed out after " ++ Text.duration milliseconds
  | taskFailed path reason => "classification task for " ++ path.text ++ " failed: " ++ reason
  | invalidConfig reason => "invalid configuration: " ++ reason

/-- What brought the error about, where that is an error of its own. -/
def cause : AnalysisError → Option String
  | unreadable _ cause => some cause
  | _ => none

def unit : AnalysisError → Option Path
  | invalidRoot _ _ => none
  | unreadable path _ => some path
  | unparsable path _ => some path
  | capacityExceeded _ unit => some unit
  | timeout path _ => some path
  | taskFailed path _ => some path
  | invalidConfig _ => none

/-- Failures that concern one unit only. -/
def isUnitFailure : AnalysisError → Bool
  | unreadable _ _ => true
  | unparsable _ _ => true
  | timeout _ _ => true
  | taskFailed _ _ => true
  | invalidRoot _ _ => false
  | capacityExceeded _ _ => false
  | invalidConfig _ => false

end AnalysisError

end Coupling
