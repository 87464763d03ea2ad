import Coupling.Report.Unit
import Coupling.Text.Rendering

/-! A grouping holds the reports of the units of one package, each under its own name. -/
namespace Coupling

structure GroupingReport where
  name : String
  units : List (String × UnitReport)
  deriving DecidableEq, Repr

namespace GroupingReport

def empty (name : String) : GroupingReport := ⟨name,[]⟩

def unit? (g : GroupingReport) (name : String) : Option UnitReport := Sorted.find? name g.units

/-- Puts a report under the name of its unit, and gives the one that stood there. -/
def addUnit (g : GroupingReport) (u : UnitReport) : GroupingReport × Option UnitReport :=
  ({ g with units := Sorted.insert u.name u g.units }, g.unit? u.name)

def absorb (g other : GroupingReport) : GroupingReport :=
  other.units.foldl (fun g u => (g.addUnit u.2).1) g

def rename (g : GroupingReport) (name : String) : GroupingReport := { g with name := name }

def unitReports (g : GroupingReport) : List UnitReport := g.units.map Prod.snd

def unitCount (g : GroupingReport) : Nat := g.units.length

def dependencyCount (g : GroupingReport) : Nat := g.unitReports.foldr (fun u n => u.size + n) 0

def isEmpty (g : GroupingReport) : Bool := g.units.isEmpty

def allDependencies (g : GroupingReport) : List String :=
  Sorted.ofList (g.unitReports.flatMap UnitReport.targets)

def referencedGroupings (g : GroupingReport) : List String :=
  Sorted.ofList (g.unitReports.flatMap fun u => u.edges.filterMap Edge.targetGrouping)

def text (g : GroupingReport) : String :=
  "-----------------------GROUPING------------------------\n" ++
  "Grouping Name: " ++ g.name ++ "\n" ++
  "Unit Count: " ++ Text.decimal g.unitCount ++ "\n" ++
  "Total Dependencies: " ++ Text.decimal g.dependencyCount ++ "\n" ++
  "Unit Reports:\n" ++
  String.join (g.unitReports.map fun u => Text.indented u.text) ++
  "---------------------END-GROUPING----------------------\n"

end GroupingReport

end Coupling
