import Coupling.Discovery
import Coupling.Policy
import Coupling.Text.Blank

/-! What an analysis looks at, how much of it runs at once, how long it may take, and what becomes of
units that fail. -/
namespace Coupling

/-- What a run does with a unit that cannot be read, parsed or finished in time. -/
inductive FailurePolicy
  | failFast
  | bestEffort
  deriving DecidableEq, Repr

structure Config where
  extensions : List String
  excludedPrefixes : List String
  includeImports : Bool
  includeTests : Bool
  /-- How many units may be scheduled and not yet merged. -/
  backpressureLimit : Nat
  maxConcurrency : Option Nat
  unitTimeout : Nat
  /-- Milliseconds for which a full pipeline may stand still. -/
  admissionTimeout : Nat
  failurePolicy : FailurePolicy
  deriving DecidableEq, Repr

namespace Config

def default : Config where
  extensions := ["java"]
  excludedPrefixes := Policy.defaultPrefixes
  includeImports := false
  includeTests := true
  backpressureLimit := 256
  maxConcurrency := none
  unitTimeout := 30000
  admissionTimeout := 10000
  failurePolicy := .failFast

def fault? (c : Config) : Option String :=
  if c.backpressureLimit = 0 then some "backpressure_limit must be positive"
  else if c.maxConcurrency = some 0 then some "max_concurrency must be positive"
  else if c.unitTimeout = 0 then some "unit_timeout_ms must be positive"
  else if c.admissionTimeout = 0 then some "admission_timeout_ms must be positive"
  else if c.extensions.all Text.isBlankText then some "at least one file extension is required"
  else none

def validate (c : Config) : Except AnalysisError Unit :=
  match c.fault? with
  | some reason => .error (.invalidConfig reason)
  | none => .ok ()

def policy (c : Config) : Policy := Policy.ofPrefixes c.excludedPrefixes c.includeImports

def discoveryOptions (c : Config) : DiscoveryOptions :=
  ⟨c.extensions.map fun e => String.ofList (e.toList.dropWhile (· == '.')),c.includeTests⟩

def defaultWorkers : Nat := 4

def workers (c : Config) : Nat := c.maxConcurrency.getD defaultWorkers

end Config

end Coupling
