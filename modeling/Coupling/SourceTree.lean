import Coupling.Path
import Coupling.Sorted

/-! The units of a tree, under the directories that directly hold them. Directories and the units of
each are in the order of paths; of equal paths the first one stays. -/
namespace Coupling

structure SourceTree where
  root : Path
  groupings : List (Path × List Path)
  deriving DecidableEq, Repr

namespace SourceTree

def empty (root : Path) : SourceTree := ⟨root,[]⟩

def unitsIn (t : SourceTree) (directory : Path) : List Path :=
  (Sorted.find? directory t.groupings).getD []

/-- Puts a unit under its parent, or under the root if it has none. -/
def add (t : SourceTree) (unit : Path) : SourceTree :=
  let directory := unit.parent?.getD t.root
  { t with groupings := Sorted.insert directory (Sorted.add unit (t.unitsIn directory)) t.groupings }

def ofUnits (root : Path) (units : List Path) : SourceTree := units.foldl add (empty root)

def directories (t : SourceTree) : List Path := t.groupings.map Prod.fst

def units (t : SourceTree) : List Path := t.groupings.flatMap Prod.snd

def unitCount (t : SourceTree) : Nat := t.units.length

def isEmpty (t : SourceTree) : Bool := t.groupings.isEmpty

end SourceTree

end Coupling
