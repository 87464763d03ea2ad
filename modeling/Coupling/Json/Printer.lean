import Coupling.Json.Value
import Coupling.Text.Rendering

/-! Values are written over several lines, with two blanks for each level; what is empty stays on one
line. -/
namespace Coupling.Json

def natural (n : Nat) : Json := number (Text.decimal n)

def hexDigit (n : Nat) : Char :=
  if n < 10 then Char.ofNat ('0'.toNat + n) else Char.ofNat ('a'.toNat + (n - 10))

/-- A character inside a string. Quotes, backslashes and control characters are escaped, all others
stand for themselves. -/
def escaped (c : Char) : List Char :=
  if c == '"' then ['\\', '"']
  else if c == '\\' then ['\\', '\\']
  else if c == '\n' then ['\\', 'n']
  else if c == '\r' then ['\\', 'r']
  else if c == '\t' then ['\\', 't']
  else if c.toNat == 8 then ['\\', 'b']
  else if c.toNat == 12 then ['\\', 'f']
  else if c.toNat < 0x20 then ['\\', 'u', '0', '0', hexDigit (c.toNat / 16), hexDigit (c.toNat % 16)]
  else [c]

def quoted (s : String) : String := "\"" ++ String.ofList (s.toList.flatMap escaped) ++ "\""

def newLine (level : Nat) : String := "\n" ++ String.ofList (List.replicate (2 * level) ' ')

mutual

def prettyAt (level : Nat) : Json → String
  | null => "null"
  | bool value => if value then "true" else "false"
  | number literal => literal
  | string text => quoted text
  | halfString => quoted ""
  | array items =>
    if items.isEmpty then "[]"
    else "[" ++ ",".intercalate (prettyItems (level + 1) items) ++ newLine level ++ "]"
  | object fields =>
    if fields.isEmpty then "\x7b\x7d"
    else "\x7b" ++ ",".intercalate (prettyFields (level + 1) fields) ++ newLine level ++ "\x7d"

def prettyItems (level : Nat) : List Json → List String
  | [] => []
  | item :: items => (newLine level ++ prettyAt level item) :: prettyItems level items

def prettyFields (level : Nat) : List (String × Json) → List String
  | [] => []
  | (key, value) :: fields =>
    (newLine level ++ quoted key ++ ": " ++ prettyAt level value) :: prettyFields level fields

end

def pretty (j : Json) : String := prettyAt 0 j

end Coupling.Json
