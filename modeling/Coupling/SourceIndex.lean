import Coupling.SourceTree

/-! A unit is known under every dotted suffix of its path without the extension, so neither the root of
the analysis nor the directories above the packages matter. -/
namespace Coupling

structure SourceIndex where
  names : List String
  deriving DecidableEq, Repr

namespace SourceIndex

def empty : SourceIndex := ⟨[]⟩

/-- The names in a path, of which the last one loses its extension. What is left of it counts only if it
is still a name, which `.` and `..` are not. -/
def segments (p : Path) : List String :=
  match p.fileStem? with
  | some stem => p.names.dropLast ++ (Path.mk stem).names
  | none => p.names

def suffixes {α : Type} : List α → List (List α)
  | [] => []
  | x :: xs => (x :: xs) :: suffixes xs

def namesOf (p : Path) : List String := (suffixes (segments p)).map (".".intercalate ·)

def insert (i : SourceIndex) (p : Path) : SourceIndex :=
  ⟨(namesOf p).foldl (fun names name => Sorted.add name names) i.names⟩

def ofPaths (paths : List Path) : SourceIndex := paths.foldl insert empty

def contains (i : SourceIndex) (name : String) : Bool := i.names.contains name

def size (i : SourceIndex) : Nat := i.names.length

end SourceIndex

end Coupling
