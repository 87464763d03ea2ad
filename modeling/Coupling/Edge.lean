import Coupling.Text.Rendering
import Coupling.Text.Dotted

/-! A dependency is a typed, located reference from the type of a unit to another type. Two of them are
the same if all five fields agree, so repeats of a construct on one line collapse in a set. -/
namespace Coupling

/-- How a unit refers to a type, in the order in which reports list the kinds. -/
inductive DependencyKind
  | extension
  | implementation
  | field
  | methodParameter
  | methodReturn
  | instantiation
  | importation
  deriving DecidableEq, Repr

namespace DependencyKind

def all : List DependencyKind :=
  [extension, implementation, field, methodParameter, methodReturn, instantiation, importation]

def rank : DependencyKind → Nat
  | extension => 0
  | implementation => 1
  | field => 2
  | methodParameter => 3
  | methodReturn => 4
  | instantiation => 5
  | importation => 6

instance : Ord DependencyKind where
  compare a b := compare a.rank b.rank

def label : DependencyKind → String
  | extension => "Extends"
  | implementation => "Implements"
  | field => "Field"
  | methodParameter => "MethodParameter"
  | methodReturn => "MethodReturn"
  | instantiation => "Instantiation"
  | importation => "Import"

end DependencyKind

structure Edge where
  source : String
  target : String
  kind : DependencyKind
  snippet : String
  line : Option Nat
  deriving DecidableEq, Repr

namespace Edge

/-- An unknown line comes before every known one. -/
def compareLines : Option Nat → Option Nat → Ordering
  | none, none => .eq
  | none, some _ => .lt
  | some _, none => .gt
  | some a, some b => compare a b

/-- Edges are ordered by their fields, the first one that differs deciding. -/
instance : Ord Edge where
  compare a b :=
    (compare a.source b.source).then <|
    (compare a.target b.target).then <|
    (compare a.kind b.kind).then <|
    (compare a.snippet b.snippet).then <|
    compareLines a.line b.line

/-- The line as a signed number of 64 bits, and -1 for an unknown one. -/
def lineNumber (e : Edge) : Int :=
  match e.line with
  | none => -1
  | some n => Int.bmod n UInt64.size

/-- The namespace of the target: its name in front of any type arguments, up to the last point. -/
def targetGrouping (e : Edge) : Option String :=
  match Text.splitLast? '.' (Text.before '<' e.target) with
  | some (front, _) => if front.isEmpty then none else some front
  | none => none

def text (e : Edge) : String :=
  e.target ++ " (" ++ e.kind.label ++ ": " ++ e.snippet ++ " at line: " ++
    Text.signedDecimal e.lineNumber ++ ")"

end Edge

end Coupling
