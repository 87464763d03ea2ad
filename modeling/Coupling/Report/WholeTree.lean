import Coupling.Json.Printer
import Coupling.Report.Grouping

/-! The report of a tree holds its groupings, each under its own name. -/
namespace Coupling

structure TreeReport where
  name : String
  groupings : List (String × GroupingReport)
  deriving DecidableEq, Repr

namespace TreeReport

def empty (name : String) : TreeReport := ⟨name,[]⟩

def grouping? (t : TreeReport) (name : String) : Option GroupingReport :=
  Sorted.find? name t.groupings

/-- Puts a grouping under its name, and gives the one that stood there. -/
def addGrouping (t : TreeReport) (g : GroupingReport) : TreeReport × Option GroupingReport :=
  ({ t with groupings := Sorted.insert g.name g t.groupings }, t.grouping? g.name)

def removeGrouping (t : TreeReport) (name : String) : TreeReport × Option GroupingReport :=
  ({ t with groupings := Sorted.erase name t.groupings }, t.grouping? name)

def groupingReports (t : TreeReport) : List GroupingReport := t.groupings.map Prod.snd

def groupingCount (t : TreeReport) : Nat := t.groupings.length

def unitCount (t : TreeReport) : Nat := t.groupingReports.foldr (fun g n => g.unitCount + n) 0

def dependencyCount (t : TreeReport) : Nat :=
  t.groupingReports.foldr (fun g n => g.dependencyCount + n) 0

/-- The unit of that name in the first grouping that has one. -/
def unit? (t : TreeReport) (name : String) : Option UnitReport :=
  t.groupingReports.findSome? (·.unit? name)

def dependencyGraph (t : TreeReport) : List (String × List String) :=
  t.groupingReports.foldl (fun m g => Sorted.insert g.name g.referencedGroupings m) []

def text (t : TreeReport) : String :=
  "-----------------------TREE------------------------\n" ++
  "Tree Name: " ++ t.name ++ "\n" ++
  "Grouping Count: " ++ Text.decimal t.groupingCount ++ "\n" ++
  "Unit Count: " ++ Text.decimal t.unitCount ++ "\n" ++
  "Total Dependencies: " ++ Text.decimal t.dependencyCount ++ "\n" ++
  "Grouping dependency graph:\n" ++
  String.join (t.dependencyGraph.map fun d =>
    "\t" ++ d.1 ++ " -> [" ++ ", ".intercalate d.2 ++ "]\n") ++
  "Grouping Reports:\n" ++
  String.join (t.groupingReports.map fun g => Text.indented g.text) ++
  "---------------------END-TREE----------------------\n"

end TreeReport

/-! ## Reports as JSON -/

def Edge.json (e : Edge) : Json :=
  .object [("source_type", .string e.source), ("target_type", .string e.target),
    ("kind", .string e.kind.label), ("snippet", .string e.snippet),
    ("line", (e.line.map Json.natural).getD .null)]

def UnitReport.json (r : UnitReport) : Json :=
  .object [("unit_name", .string r.name), ("edges", .array (r.edges.map Edge.json))]

def GroupingReport.json (g : GroupingReport) : Json :=
  .object [("grouping_name", .string g.name),
    ("units", .object (g.units.map fun u => (u.1, u.2.json)))]

def TreeReport.json (t : TreeReport) : Json :=
  .object [("tree_name", .string t.name),
    ("groupings", .object (t.groupings.map fun g => (g.1, g.2.json)))]

end Coupling
