import Coupling.Classification
import Coupling.Error
import Coupling.FileSystem
import Coupling.Source.Outline

/-! A unit is read, parsed and classified on its own. It ends in its report, together with the package
that it declares, or in a failure that names its path. -/
namespace Coupling

inductive Reading
  | text (source : String)
  | failure (cause : String)
  | crash
  deriving DecidableEq, Repr

/-- A source of texts, and how many milliseconds it takes to get one. -/
structure Reader where
  read : Path → Reading
  delay : Path → Nat

/-- Reads files at once; bytes that are no UTF-8 are replaced. -/
def Reader.ofFiles (fs : FileSystem) : Reader where
  read path := match fs.read path with
    | .ok bytes => .text (Text.decodeLossy bytes)
    | .error e => .failure e.message
  delay _ := 0

structure ClassifiedUnit where
  report : UnitReport
  package : Option String
  deriving DecidableEq, Repr

abbrev Outcome := Except AnalysisError ClassifiedUnit

/-- A source is named after its primary type, or after its file if it has none. -/
def classifySource (index : SourceIndex) (policy : Policy) (path : Path) (source : String) : Outcome :=
  match Source.parse source with
  | .error failure => .error (.unparsable path failure.message)
  | .ok outline =>
    let name := outline.unitName (path.fileStem?.getD "")
    .ok ⟨classify (resolver index outline) policy outline name,outline.package⟩

def classifyUnit (index : SourceIndex) (policy : Policy) (read : Path → Reading) (path : Path) :
    Outcome :=
  match read path with
  | .text source => classifySource index policy path source
  | .failure cause => .error (.unreadable path cause)
  | .crash => .error (.taskFailed path "panicked")

end Coupling
