import Coupling.Config.Overrides

/-! A command is followed by one path and by options, in any order. An option is written `--name`; its
value, if it takes one, stands behind an equals sign or is the next argument, which may then not begin
with a hyphen. Options may be given once, apart from `--exclude`. Behind `--` everything is a path. -/
namespace Coupling

inductive Format
  | text
  | json
  | dot
  deriving DecidableEq, Repr

def Format.ofName? : String → Option Format
  | "text" => some .text
  | "json" => some .json
  | "dot" => some .dot
  | _ => none

inductive Target
  | tree (root : Path)
  | grouping (directory : Path)
  | unit (file : Path)
  deriving DecidableEq, Repr

inductive Invocation
  | analyze (target : Target) (format : Format) (overrides : Overrides)
  | version
  | help
  deriving DecidableEq, Repr

inductive Switch
  | config
  | format
  | bestEffort
  | includeImports
  | excludeTests
  | exclude
  | backpressure
  | help
  deriving DecidableEq, Repr

namespace Switch

def ofName? : String → Option Switch
  | "config" => some config
  | "format" => some format
  | "best-effort" => some bestEffort
  | "include-imports" => some includeImports
  | "exclude-tests" => some excludeTests
  | "exclude" => some exclude
  | "backpressure" => some backpressure
  | "help" => some help
  | _ => none

def takesValue : Switch → Bool
  | config => true
  | format => true
  | exclude => true
  | backpressure => true
  | bestEffort => false
  | includeImports => false
  | excludeTests => false
  | help => false

end Switch

inductive Argument
  | divider
  | long (name : String) (value : Option String)
  | short (letters : List Char)
  | plain (text : String)
  deriving DecidableEq, Repr

def splitValue (cs : List Char) : String × Option String :=
  (String.ofList (cs.takeWhile (· != '=')),
    match cs.dropWhile (· != '=') with
    | [] => none
    | _ :: value => some (String.ofList value))

def Argument.ofText (s : String) : Argument :=
  match s.toList with
  | ['-', '-'] => .divider
  | '-' :: '-' :: rest => .long (splitValue rest).1 (splitValue rest).2
  | '-' :: c :: rest => .short (c :: rest)
  | _ => .plain s

/-- A natural number of 64 bits, with a plus sign or without. -/
def count? (s : String) : Option Nat :=
  let digits := match s.toList with
    | '+' :: rest => rest
    | cs => cs
  if digits.isEmpty then none else (Json.number (String.ofList digits)).natural?

/-- A path is never empty. -/
def path? (s : String) : Option Path := if s.isEmpty then none else some ⟨s⟩

structure Given where
  path : Option Path
  format : Option Format
  overrides : Overrides
  help : Bool
  deriving DecidableEq, Repr

namespace Given

def nothing : Given := ⟨none,none,Overrides.empty,false⟩

def addPath (g : Given) (s : String) : Option Given :=
  if g.path.isSome then none else (path? s).map fun p => { g with path := some p }

def addPaths (g : Given) : List String → Option Given
  | [] => some g
  | s :: rest => (g.addPath s).bind fun g => addPaths g rest

def addFlag (g : Given) : Switch → Option Given
  | .bestEffort =>
    if g.overrides.bestEffort then none
    else some { g with overrides := { g.overrides with bestEffort := true } }
  | .includeImports =>
    if g.overrides.includeImports then none
    else some { g with overrides := { g.overrides with includeImports := true } }
  | .excludeTests =>
    if g.overrides.excludeTests then none
    else some { g with overrides := { g.overrides with excludeTests := true } }
  | .help => some { g with help := true }
  | _ => none

def addValue (g : Given) (value : String) : Switch → Option Given
  | .config =>
    if g.overrides.config.isSome then none
    else (path? value).map fun p => { g with overrides := { g.overrides with config := some p } }
  | .format =>
    if g.format.isSome then none
    else (Format.ofName? value).map fun f => { g with format := some f }
  | .exclude =>
    some { g with overrides := { g.overrides with exclude := g.overrides.exclude ++ [value] } }
  | .backpressure =>
    if g.overrides.backpressure.isSome then none
    else (count? value).map fun n => { g with overrides := { g.overrides with backpressure := some n } }
  | _ => none

/-- Reads the arguments behind a command. Asking for help ends the reading. -/
def addAll (g : Given) : List String → Option Given
  | [] => some g
  | arg :: rest =>
    match Argument.ofText arg with
    | .divider => g.addPaths rest
    | .plain s => (g.addPath s).bind fun g => addAll g rest
    | .short letters => if letters.head? = some 'h' then some { g with help := true } else none
    | .long name value =>
      match Switch.ofName? name with
      | none => none
      | some switch =>
        match switch.takesValue, value, rest with
        | false, none, rest =>
          (g.addFlag switch).bind fun g => if g.help then some g else addAll g rest
        | false, some _, _ => none
        | true, some value, rest => (g.addValue value switch).bind fun g => addAll g rest
        | true, none, [] => none
        | true, none, value :: rest =>
          match Argument.ofText value with
          | .plain value => (g.addValue value switch).bind fun g => addAll g rest
          | _ => none

end Given

def Target.ofCommand? : String → Option (Path → Target)
  | "analyze" => some .tree
  | "package" => some .grouping
  | "unit" => some .unit
  | _ => none

def Invocation.ofCommand (target : Path → Target) (args : List String) : Option Invocation :=
  (Given.nothing.addAll args).bind fun g =>
    if g.help then some .help
    else g.path.map fun path => .analyze (target path) (g.format.getD .text) g.overrides

def Invocation.ofArguments? : List String → Option Invocation
  | [] => none
  | first :: rest =>
    match Argument.ofText first with
    | .long "version" none => some .version
    | .long "help" none => some .help
    | .short ('V' :: _) => some .version
    | .short ('h' :: _) => some .help
    | .plain "help" => some .help
    | .plain command => (Target.ofCommand? command).bind fun target => ofCommand target rest
    | _ => none

end Coupling
