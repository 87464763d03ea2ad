import Coupling.Analysis
import Coupling.Command.Arguments
import Coupling.Graph
import Coupling.Report.WholeTree

/-! The command takes arguments to what it prints and to an exit code: 0 for a report, 1 for an error, 2
for arguments that are not in order, and 101 for an analysis that breaks down. -/
namespace Coupling.Command

structure Output where
  code : Nat
  stdout : String
  stderr : String
  deriving DecidableEq, Repr

def versionText : String := "tdtool 0.1.0\n"

def usage : String :=
  "Usage: tdtool <COMMAND> <PATH> [OPTIONS]\n\n" ++
  "Commands:\n" ++
  "  analyze  Analyze every unit below a root directory\n" ++
  "  package  Analyze the units directly inside one directory\n" ++
  "  unit     Analyze a single source file\n\n" ++
  "Options:\n" ++
  "  --config <CONFIG>   JSON configuration file\n" ++
  "  --format <FORMAT>   text, json or dot\n" ++
  "  --best-effort       Collect unit failures instead of aborting on the first one\n" ++
  "  --include-imports   Report single-type imports as dependencies\n" ++
  "  --exclude-tests     Skip test sources\n" ++
  "  --exclude <PREFIX>  Additional excluded namespace prefix (repeatable)\n" ++
  "  --backpressure <N>  Maximum units scheduled but not yet merged\n"

/-! ## Errors -/

/-- A cause with its first line behind a lead, and its other lines indented as much. -/
def causeText (number : Option Nat) (cause : String) : String :=
  let (lead, indent) := match number with
    | some n =>
      let digits := Text.decimal n
      (String.ofList (List.replicate (5 - digits.length) ' ') ++ digits ++ ": ", "       ")
    | none => ("    ", "    ")
  "\n" ++ lead ++ ("\n" ++ indent).intercalate (cause.splitOn "\n")

/-- An error and its causes, which are numbered if there are several. -/
def errorText (message : String) (causes : List String) : String :=
  "Error: " ++ message ++
  (if causes.isEmpty then ""
  else "\n\nCaused by:" ++ String.join (causes.mapIdx fun i cause =>
    causeText (if causes.length = 1 then none else some i) cause)) ++ "\n"

def failed (message : String) (causes : List String) : Output := ⟨1,"",errorText message causes⟩

def failuresText (failures : List AnalysisError) : String :=
  if failures.isEmpty then ""
  else Text.decimal failures.length ++ " unit(s) could not be analyzed:\n" ++
    String.join (failures.map fun e => "  " ++ e.message ++ "\n")

/-! ## Reports -/

structure Rendering where
  text : String
  json : Json
  graph : DependencyGraph

def Rendering.inFormat (r : Rendering) : Format → String
  | .text => r.text
  | .json => r.json.pretty ++ "\n"
  | .dot => r.graph.dot

def renderTree (t : TreeReport) : Rendering := ⟨t.text,t.json,DependencyGraph.groupings t⟩

def singleGrouping (g : GroupingReport) : TreeReport := ((TreeReport.empty g.name).addGrouping g).1

def renderGrouping (g : GroupingReport) : Rendering :=
  ⟨g.text,g.json,DependencyGraph.units (singleGrouping g)⟩

def renderUnit (u : UnitReport) : Rendering :=
  ⟨u.text,u.json,DependencyGraph.units (singleGrouping ((GroupingReport.empty "").addUnit u).1)⟩

def brokenText : String :=
  "a semaphore may not have more than MAX_PERMITS permits (" ++ Text.decimal Run.maxPermits ++ ")\n"

def printed {ρ : Type} (what : String) (format : Format) (render : ρ → Rendering) :
    Attempt ρ → Output
  | .broken _ => ⟨101,"",brokenText⟩
  | .ended ⟨.error e,_⟩ => failed ("Failed to analyze " ++ what) (e.message :: e.cause.toList)
  | .ended ⟨.ok a,_⟩ => ⟨0,(render a.report).inFormat format,failuresText a.failures⟩

def scope (env : Environment) : Target → Except AnalysisError Scope
  | .tree root => treeScope env root
  | .grouping directory => groupingScope env directory
  | .unit file => unitScope env file

def analyze (env : Environment) (format : Format) : Target → Output
  | .tree root => printed root.text format renderTree (attemptTree env root)
  | .grouping directory =>
    printed ("package " ++ directory.text) format renderGrouping (attemptGrouping env directory)
  | .unit file => printed file.text format renderUnit (attemptUnit env file)

def run (files : FileSystem) (args : List String) : Output :=
  match Invocation.ofArguments? args with
  | none => ⟨2,"",usage⟩
  | some .version => ⟨0,versionText,""⟩
  | some .help => ⟨0,usage,""⟩
  | some (.analyze target format overrides) =>
    match overrides.resolve files with
    | .error e => failed e.message e.causes
    | .ok config => analyze (Environment.ofFiles files config) format target

end Coupling.Command
