import Coupling.Edge
import Coupling.Sorted

/-! The dependencies of the type that one source declares, as a sorted set. Every dependency of the
report goes out from the unit and none comes back to it. -/
namespace Coupling

structure UnitReport where
  name : String
  edges : List Edge
  deriving DecidableEq, Repr

namespace UnitReport

def empty (name : String) : UnitReport := ⟨name,[]⟩

/-- Whether an edge may stand in the report at all. -/
def owns (r : UnitReport) (e : Edge) : Bool := e.source == r.name && e.target != r.name

/-- Adds an edge if the report owns it, and says whether the set grew. -/
def add (r : UnitReport) (e : Edge) : UnitReport × Bool :=
  if r.owns e then
    if Sorted.has e r.edges then (r, false) else ({ r with edges := Sorted.add e r.edges }, true)
  else (r, false)

def size (r : UnitReport) : Nat := r.edges.length

def dependsOn (r : UnitReport) (target : String) : Bool := r.edges.any (·.target == target)

def targets (r : UnitReport) : List String := Sorted.ofList (r.edges.map Edge.target)

def byKind (r : UnitReport) : List (DependencyKind × List Edge) :=
  (DependencyKind.all.map fun k => (k, r.edges.filter (·.kind == k))).filter (!·.2.isEmpty)

def text (r : UnitReport) : String :=
  "-----------------------UNIT------------------------\n" ++
  "Unit Name: " ++ r.name ++ "\n" ++
  "Dependency Count: " ++ Text.decimal r.size ++ "\n" ++
  String.join (r.byKind.map fun g =>
    "\t" ++ g.1.label ++ ":\n" ++ String.join (g.2.map fun e => "\t" ++ e.text ++ "\n")) ++
  "---------------------END-UNIT----------------------\n"

end UnitReport

end Coupling
