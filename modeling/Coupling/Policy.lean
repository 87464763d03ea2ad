import Coupling.Outline
import Coupling.Sorted

/-! A policy keeps a target unless it is no type of its own, begins with an excluded prefix, or is the
unit itself. -/
namespace Coupling

def primitiveNames : List String :=
  ["byte", "short", "int", "long", "float", "double", "boolean", "char"]

def isPrimitive (name : String) : Bool := primitiveNames.contains name

structure Policy where
  /-- Excluded prefixes in increasing order, none of them empty. -/
  prefixes : List String
  includeImports : Bool
  deriving DecidableEq, Repr

namespace Policy

def defaultPrefixes : List String :=
  ["java.lang.", "java.util.", "java.io.", "java.math.", "java.time.", "java.text.", "java.nio.",
    "java.net."]

/-- Excludes one more prefix; the empty one would exclude everything and is ignored. -/
def exclude (p : Policy) (start : String) : Policy :=
  if start.isEmpty then p else { p with prefixes := Sorted.add start p.prefixes }

def ofPrefixes (starts : List String) (includeImports : Bool) : Policy :=
  starts.foldl exclude ⟨[],includeImports⟩

/-- Whether `target` is a dependency of the unit `unitName`. -/
def admits (p : Policy) (target unitName : String) : Bool :=
  !(target.isEmpty || target == "void" || isPrimitive target || isArrayName target) &&
    !p.prefixes.any (Text.startsWith target) && target != unitName

end Policy

end Coupling
