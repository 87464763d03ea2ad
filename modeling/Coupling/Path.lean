import Coupling.Text.Dotted

/-! A path is kept as it is written, and read as its components: repeated separators, separators at the
end and `.` behind the first component do not count. Paths are ordered by their components, so two of
them can be equal in that order and yet be written differently. -/
namespace Coupling

inductive Component
  | root
  | current
  | parent
  | normal (name : String)
  deriving DecidableEq, Repr

namespace Component

def rank : Component → Nat
  | root => 0
  | current => 1
  | parent => 2
  | normal _ => 3

/-- The components that are no names come first; names are compared as texts. -/
instance : Ord Component where
  compare
    | normal a, normal b => compare a b
    | a, b => compare a.rank b.rank

def text : Component → String
  | root => "/"
  | current => "."
  | parent => ".."
  | normal name => name

end Component

structure Path where
  text : String
  deriving DecidableEq, Repr

namespace Path

def splitChars : List Char → List (List Char)
  | [] => [[]]
  | c :: cs =>
    if c == '/' then [] :: splitChars cs
    else match splitChars cs with
      | [] => [[c]]
      | s :: ss => (c :: s) :: ss

def parts (p : Path) : List String := (splitChars p.text.toList).map String.ofList

def ofParts (parts : List String) : Path := ⟨"/".intercalate parts⟩

/-- A part that stands for no component, behind the first part. -/
def isVoid (part : String) : Bool := part.isEmpty || part == "."

def componentOf (part : String) : Component := if part == ".." then .parent else .normal part

def components (p : Path) : List Component :=
  match p.parts with
  | [] => []
  | first :: rest =>
    let others := (rest.filter (!isVoid ·)).map componentOf
    if first.isEmpty then (if rest.isEmpty then [] else .root :: others)
    else if first == "." then .current :: others
    else componentOf first :: others

def compareComponents : List Component → List Component → Ordering
  | [], [] => .eq
  | [], _ :: _ => .lt
  | _ :: _, [] => .gt
  | a :: as, b :: bs => (compare a b).then (compareComponents as bs)

instance : Ord Path where
  compare a b := compareComponents a.components b.components

/-- The path of the directory that holds `p`: what is written in front of the last component. The
root and the empty path have none. -/
def parent? (p : Path) : Option Path :=
  match p.parts with
  | [] => none
  | first :: rest =>
    match rest.reverse.dropWhile isVoid with
    | [] => if first.isEmpty then none else some ⟨""⟩
    | _ :: front =>
      let kept := (front.dropWhile isVoid).reverse
      if first.isEmpty && kept.isEmpty then some ⟨"/"⟩ else some (ofParts (first :: kept))

def fileName? (p : Path) : Option String :=
  match p.components.getLast? with
  | some (.normal name) => some name
  | _ => none

/-- A file name in front of its last point and behind it; a point at the very start divides nothing. -/
def splitName (name : String) : String × Option String :=
  match Text.splitLast? '.' name with
  | some (stem, ending) => if stem.isEmpty then (name, none) else (stem, some ending)
  | none => (name, none)

def fileStem? (p : Path) : Option String := p.fileName?.map fun name => (splitName name).1

def extension? (p : Path) : Option String := p.fileName?.bind fun name => (splitName name).2

def isAbsolute (p : Path) : Bool := Text.startsWith p.text "/"

def join (p q : Path) : Path :=
  if q.isAbsolute then q
  else if p.text.isEmpty || Text.endsWith p.text "/" then ⟨p.text ++ q.text⟩
  else ⟨p.text ++ "/" ++ q.text⟩

def names (p : Path) : List String :=
  p.components.filterMap fun
    | .normal name => some name
    | _ => none

/-- The components behind those of `base`, if `p` begins with them. -/
def componentsBelow? (base p : Path) : Option (List Component) :=
  if base.components.isPrefixOf p.components then some (p.components.drop base.components.length)
  else none

/-- The last component of a directory, or what is written if that is no name. -/
def directoryName (p : Path) : String := p.fileName?.getD p.text

end Path

end Coupling
