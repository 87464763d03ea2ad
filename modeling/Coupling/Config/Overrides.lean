import Coupling.Config.Reader

/-! A configuration comes from a file, if one is named, and from the overrides on top of it. The file is
valid in itself before anything is overridden. -/
namespace Coupling

inductive ConfigError
  | unreadable (path : Path) (cause : String)
  | malformed (path : Path)
  | invalid (error : AnalysisError)
  deriving DecidableEq, Repr

namespace ConfigError

def message : ConfigError → String
  | unreadable path _ => "Failed to read config file: " ++ path.text
  | malformed path => "Failed to parse config file: " ++ path.text
  | invalid error => error.message

/-- What brought the error about, the nearest cause first. -/
def causes : ConfigError → List String
  | unreadable _ cause => [cause]
  | malformed _ => ["invalid configuration file"]
  | invalid error => error.cause.toList

end ConfigError

namespace Config

def validated (c : Config) : Except ConfigError Config :=
  match c.validate with
  | .error e => .error (.invalid e)
  | .ok () => .ok c

def ofFile (fs : FileSystem) (path : Path) : Except ConfigError Config :=
  match fs.read path with
  | .error e => .error (.unreadable path e.message)
  | .ok bytes =>
    match Text.decode? bytes with
    | none => .error (.unreadable path "stream did not contain valid UTF-8")
    | some text =>
      match (Json.read? text).bind ofJson? with
      | none => .error (.malformed path)
      | some c => c.validated

end Config

structure Overrides where
  config : Option Path
  bestEffort : Bool
  includeImports : Bool
  excludeTests : Bool
  exclude : List String
  backpressure : Option Nat
  deriving DecidableEq, Repr

namespace Overrides

def empty : Overrides := ⟨none,false,false,false,[],none⟩

def apply (o : Overrides) (c : Config) : Config :=
  { c with
    failurePolicy := if o.bestEffort then .bestEffort else c.failurePolicy
    includeImports := o.includeImports || c.includeImports
    includeTests := !o.excludeTests && c.includeTests
    excludedPrefixes := c.excludedPrefixes ++ o.exclude
    backpressureLimit := o.backpressure.getD c.backpressureLimit }

def resolve (fs : FileSystem) (o : Overrides) : Except ConfigError Config :=
  match o.config with
  | none => (o.apply Config.default).validated
  | some path =>
    match Config.ofFile fs path with
    | .error e => .error e
    | .ok c => (o.apply c).validated

end Overrides

end Coupling
