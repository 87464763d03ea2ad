import Coupling.Config
import Coupling.Json.Reader

/-! A configuration is an object of settings, each at most once, in which unknown keys are ignored. It
may also be an array of the settings in their order, of which the last ones may be missing. A setting
that is not given keeps its default. -/
namespace Coupling

inductive Setting
  | extensions
  | excludedPrefixes
  | includeImports
  | includeTests
  | backpressureLimit
  | maxConcurrency
  | unitTimeout
  | admissionTimeout
  | failurePolicy
  deriving DecidableEq, Repr

namespace Setting

def all : List Setting :=
  [extensions, excludedPrefixes, includeImports, includeTests, backpressureLimit, maxConcurrency,
    unitTimeout, admissionTimeout, failurePolicy]

def key : Setting → String
  | extensions => "extensions"
  | excludedPrefixes => "excluded_prefixes"
  | includeImports => "include_imports"
  | includeTests => "include_tests"
  | backpressureLimit => "backpressure_limit"
  | maxConcurrency => "max_concurrency"
  | unitTimeout => "unit_timeout_ms"
  | admissionTimeout => "admission_timeout_ms"
  | failurePolicy => "failure_policy"

def ofKey? (key : String) : Option Setting := all.find? (·.key == key)

end Setting

def FailurePolicy.ofKey? : String → Option FailurePolicy
  | "fail_fast" => some .failFast
  | "best_effort" => some .bestEffort
  | _ => none

/-- A policy is given by its key, or by an object that holds `null` under that key. -/
def FailurePolicy.ofJson? : Json → Option FailurePolicy
  | .string key => ofKey? key
  | .object [(key, .null)] => ofKey? key
  | _ => none

namespace Config

def set (c : Config) (value : Json) : Setting → Option Config
  | .extensions => value.texts?.map fun v => { c with extensions := v }
  | .excludedPrefixes => value.texts?.map fun v => { c with excludedPrefixes := v }
  | .includeImports => value.bool?.map fun v => { c with includeImports := v }
  | .includeTests => value.bool?.map fun v => { c with includeTests := v }
  | .backpressureLimit => value.natural?.map fun v => { c with backpressureLimit := v }
  | .maxConcurrency => value.natural?.map fun v => { c with maxConcurrency := some v }
  | .unitTimeout => value.natural?.map fun v => { c with unitTimeout := v }
  | .admissionTimeout => value.natural?.map fun v => { c with admissionTimeout := v }
  | .failurePolicy => (FailurePolicy.ofJson? value).map fun v => { c with failurePolicy := v }

/-- Takes over the fields of an object; `seen` are the settings that were given before. -/
def setFields (c : Config) (seen : List Setting) : List (String × Json) → Option Config
  | [] => some c
  | (key, value) :: fields =>
    match Setting.ofKey? key with
    | none => setFields c seen fields
    | some s =>
      if seen.contains s then none
      else (c.set value s).bind fun c => setFields c (s :: seen) fields

def setItems (c : Config) : List Setting → List Json → Option Config
  | _, [] => some c
  | [], _ :: _ => none
  | s :: settings, value :: values => (c.set value s).bind fun c => setItems c settings values

def ofJson? : Json → Option Config
  | .object fields => default.setFields [] fields
  | .array values => default.setItems Setting.all values
  | _ => none

end Config

end Coupling
