import Coupling.Json.Value

/-! Every reader takes characters and gives what it has read together with the characters behind it, or
nothing if the text is no JSON. Nothing is read beyond the grammar: no comments, no comma behind the
last item, no other blanks than the four of the format. -/
namespace Coupling.Json

def isSpace (c : Char) : Bool := c == ' ' || c == '\n' || c == '\t' || c == '\r'

def skipSpace (cs : List Char) : List Char := cs.dropWhile isSpace

/-! ## Numbers -/

def readDigits (cs : List Char) : Option (List Char × List Char) :=
  if (cs.takeWhile Char.isDigit).isEmpty then none
  else some (cs.takeWhile Char.isDigit, cs.dropWhile Char.isDigit)

/-- A part of a number that may be missing, behind a mark of its own. -/
def readPart (isMark : Char → Bool) (maySign : Bool) : List Char → Option (List Char × List Char)
  | c :: cs =>
    if isMark c then
      match cs with
      | s :: rest =>
        if maySign && (s == '+' || s == '-') then
          (readDigits rest).map fun r => (c :: s :: r.1, r.2)
        else (readDigits cs).map fun r => (c :: r.1, r.2)
      | [] => none
    else some ([], c :: cs)
  | [] => some ([], [])

/-- The digits in front of the point: a zero stands alone. -/
def readWhole : List Char → Option (List Char × List Char)
  | '0' :: cs => some (['0'], cs)
  | cs => readDigits cs

def readUnsigned (cs : List Char) : Option (List Char × List Char) :=
  (readWhole cs).bind fun whole =>
  (readPart (· == '.') false whole.2).bind fun fraction =>
  (readPart (fun c => c == 'e' || c == 'E') true fraction.2).map fun exponent =>
  (whole.1 ++ fraction.1 ++ exponent.1, exponent.2)

def readNumber : List Char → Option (Json × List Char)
  | '-' :: cs => (readUnsigned cs).map fun r => (number (String.ofList ('-' :: r.1)), r.2)
  | cs => (readUnsigned cs).map fun r => (number (String.ofList r.1), r.2)

/-! ## Strings -/

/-- What one place of a string stands for: a character, or a unit of 16 bits written in hexadecimal. -/
inductive Piece
  | char (c : Char)
  | unit (n : Nat)
  deriving DecidableEq, Repr

def hexValue? (c : Char) : Option Nat :=
  if '0' ≤ c && c ≤ '9' then some (c.toNat - '0'.toNat)
  else if 'a' ≤ c && c ≤ 'f' then some (c.toNat - 'a'.toNat + 10)
  else if 'A' ≤ c && c ≤ 'F' then some (c.toNat - 'A'.toNat + 10)
  else none

def unit? (a b c d : Char) : Option Nat :=
  [a, b, c, d].foldlM (fun n c => (hexValue? c).map (16 * n + ·)) 0

def escape? : Char → Option Char
  | '"' => some '"'
  | '\\' => some '\\'
  | '/' => some '/'
  | 'b' => some (Char.ofNat 8)
  | 'f' => some (Char.ofNat 12)
  | 'n' => some '\n'
  | 'r' => some '\r'
  | 't' => some '\t'
  | _ => none

/-- The pieces of a string up to its closing quote. -/
def readPieces : List Char → Option (List Piece × List Char)
  | [] => none
  | '"' :: rest => some ([], rest)
  | '\\' :: 'u' :: a :: b :: c :: d :: rest =>
    match unit? a b c d, readPieces rest with
    | some n, some (pieces, rest) => some (.unit n :: pieces, rest)
    | _, _ => none
  | '\\' :: e :: rest =>
    match escape? e, readPieces rest with
    | some c, some (pieces, rest) => some (.char c :: pieces, rest)
    | _, _ => none
  | c :: rest =>
    if c == '\\' || c.toNat < 0x20 then none
    else (readPieces rest).map fun r => (.char c :: r.1, r.2)

def isLeading (n : Nat) : Bool := 0xD800 ≤ n && n < 0xDC00

def isTrailing (n : Nat) : Bool := 0xDC00 ≤ n && n < 0xE000

/-- The characters that pieces stand for, if each half of a surrogate pair has its other half. -/
def characters? : List Piece → Option (List Char)
  | [] => some []
  | .char c :: ps => (characters? ps).map (c :: ·)
  | .unit n :: .unit m :: ps =>
    if isLeading n then
      if isTrailing m then
        (characters? ps).map (Char.ofNat (0x10000 + (n - 0xD800) * 0x400 + (m - 0xDC00)) :: ·)
      else none
    else if isTrailing n then none
    else (characters? (.unit m :: ps)).map (Char.ofNat n :: ·)
  | .unit n :: ps =>
    if isLeading n || isTrailing n then none else (characters? ps).map (Char.ofNat n :: ·)

def readString (cs : List Char) : Option (Json × List Char) :=
  (readPieces cs).map fun r =>
    (match characters? r.1 with
      | some text => string (String.ofList text)
      | none => halfString, r.2)

/-! ## Values -/

def readWord (word : String) (value : Json) (cs : List Char) : Option (Json × List Char) :=
  if word.toList.isPrefixOf cs then some (value, cs.drop word.length) else none

def readKey (cs : List Char) : Option (String × List Char) :=
  match skipSpace cs with
  | '"' :: rest =>
    match readString rest with
    | some (string key, rest) =>
      match skipSpace rest with
      | ':' :: rest => some (key, rest)
      | _ => none
    | _ => none
  | _ => none

mutual

/-- A value behind any blanks. The first argument bounds the depth of the reading. -/
def readValue : Nat → List Char → Option (Json × List Char)
  | 0, _ => none
  | depth + 1, cs =>
    match skipSpace cs with
    | [] => none
    | c :: rest =>
      if c == '"' then readString rest
      else if c == '[' then
        match skipSpace rest with
        | ']' :: rest => some (array [], rest)
        | rest => (readItems depth rest).map fun r => (array r.1, r.2)
      else if c == '\x7b' then
        match skipSpace rest with
        | '\x7d' :: rest => some (object [], rest)
        | rest => (readFields depth rest).map fun r => (object r.1, r.2)
      else if c == 'n' then readWord "null" null (c :: rest)
      else if c == 't' then readWord "true" (bool true) (c :: rest)
      else if c == 'f' then readWord "false" (bool false) (c :: rest)
      else readNumber (c :: rest)

def readItems : Nat → List Char → Option (List Json × List Char)
  | 0, _ => none
  | depth + 1, cs =>
    match readValue depth cs with
    | none => none
    | some (item, rest) =>
      match skipSpace rest with
      | ',' :: rest => (readItems depth rest).map fun r => (item :: r.1, r.2)
      | ']' :: rest => some ([item], rest)
      | _ => none

def readFields : Nat → List Char → Option (List (String × Json) × List Char)
  | 0, _ => none
  | depth + 1, cs =>
    match readKey cs with
    | none => none
    | some (key, rest) =>
      match readValue depth rest with
      | none => none
      | some (value, rest) =>
        match skipSpace rest with
        | ',' :: rest => (readFields depth rest).map fun r => ((key, value) :: r.1, r.2)
        | '\x7d' :: rest => some ([(key, value)], rest)
        | _ => none

end

/-- The value that a text holds, with nothing around it but blanks. -/
def read? (s : String) : Option Json :=
  match readValue (2 * s.length + 2) s.toList with
  | some (value, rest) => if (skipSpace rest).isEmpty then some value else none
  | none => none

end Coupling.Json
