/-! Names are read at their points, and a name that carries type arguments at its first angle bracket.
The functions work on the characters of a name. -/
namespace Coupling.Text

def before (c : Char) (s : String) : String := String.ofList (s.toList.takeWhile (· != c))

/-- The characters in front of the last `c` and those behind it, if there is one. -/
def splitLastChars (c : Char) : List Char → Option (List Char × List Char)
  | [] => none
  | x :: xs =>
    match splitLastChars c xs with
    | some (front, back) => some (x :: front, back)
    | none => if x == c then some ([], xs) else none

def splitLast? (c : Char) (s : String) : Option (String × String) :=
  (splitLastChars c s.toList).map fun p => (String.ofList p.1, String.ofList p.2)

def lastSegment (s : String) : String :=
  match splitLast? '.' s with
  | some (_, back) => back
  | none => s

def startsWith (s start : String) : Bool := start.toList.isPrefixOf s.toList

def endsWith (s ending : String) : Bool := ending.toList.isSuffixOf s.toList

/-- A name inside another one; the empty name is no namespace. -/
def qualified (space name : String) : String :=
  if space.isEmpty then name else space ++ "." ++ name

end Coupling.Text
