/-! Numbers are kept as they are written, since only natural numbers are ever asked for. A string can
hold an escape that is half of a surrogate pair; such a string has no text, but it may stand where
nobody reads it. -/
namespace Coupling

inductive Json
  | null
  | bool (value : Bool)
  | number (literal : String)
  | string (text : String)
  | halfString
  | array (items : List Json)
  | object (fields : List (String × Json))
  deriving Repr

namespace Json

def bool? : Json → Option Bool
  | bool value => some value
  | _ => none

def text? : Json → Option String
  | string text => some text
  | _ => none

/-- The natural numbers of 64 bits, written with digits only. -/
def natural? : Json → Option Nat
  | number literal =>
    if literal.toList.all Char.isDigit then
      let n := literal.toList.foldl (fun n c => 10 * n + (c.toNat - '0'.toNat)) 0
      if n < UInt64.size then some n else none
    else none
  | _ => none

def texts? : Json → Option (List String)
  | array items => items.mapM text?
  | _ => none

end Json

end Coupling
