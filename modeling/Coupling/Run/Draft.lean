import Coupling.Report.WholeTree
import Coupling.Run.Outcome

/-! The units of a directory come in any order. Their grouping is named after the package of the first
unit, in the order of paths, that declares one, and after the directory if none does. -/
namespace Coupling

structure GroupingDraft where
  directory : Path
  report : GroupingReport
  /-- The first unit so far that declares a package, and that package. -/
  package : Option (Path × String)
  deriving DecidableEq, Repr

namespace GroupingDraft

def empty (directory : Path) : GroupingDraft :=
  ⟨directory,GroupingReport.empty directory.directoryName,none⟩

/-- The named package that comes first, of the one so far and that of a new unit. -/
def firstPackage (current : Option (Path × String)) (path : Path) (package : Option String) :
    Option (Path × String) :=
  match package with
  | none => current
  | some name =>
    if name.isEmpty then current
    else match current with
      | none => some (path, name)
      | some (first, held) =>
        if compare first path = .lt then some (first, held) else some (path, name)

def merge (d : GroupingDraft) (path : Path) (unit : ClassifiedUnit) : GroupingDraft :=
  { d with
    report := (d.report.addUnit unit.report).1
    package := firstPackage d.package path unit.package }

def name (d : GroupingDraft) : String :=
  match d.package with
  | some (_, package) => package
  | none => d.directory.directoryName

/-- The grouping under its name, unless it has no unit. -/
def finish (d : GroupingDraft) : Option GroupingReport :=
  if d.report.isEmpty then none else some (d.report.rename d.name)

end GroupingDraft

namespace TreeReport

/-- Adds a grouping; one that has its name takes in its units instead. -/
def fold (t : TreeReport) (g : GroupingReport) : TreeReport :=
  match t.removeGrouping g.name with
  | (t, some existing) => (t.addGrouping (existing.absorb g)).1
  | (t, none) => (t.addGrouping g).1

def ofDrafts (name : String) (drafts : List GroupingDraft) : TreeReport :=
  (drafts.filterMap GroupingDraft.finish).foldl fold (empty name)

end TreeReport

end Coupling
