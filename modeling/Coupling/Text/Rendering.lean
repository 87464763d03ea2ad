/-! Numbers, durations and lines as they are printed. -/
namespace Coupling.Text

def decimal (n : Nat) : String := Nat.repr n

def signedDecimal (n : Int) : String :=
  if n < 0 then "-" ++ decimal n.natAbs else decimal n.toNat

/-! ## Durations -/

/-- The three decimals of a fraction of a thousand, without zeros at the end. -/
def thousandths (n : Nat) : List Char :=
  let digit (k : Nat) : Char := Char.ofNat ('0'.toNat + k % 10)
  ([digit (n / 100), digit (n / 10), digit n].reverse.dropWhile (· == '0')).reverse

/-- A number of milliseconds in the largest unit that it fills: milliseconds below a second, otherwise
seconds with as many decimals as are needed. -/
def duration (milliseconds : Nat) : String :=
  if milliseconds = 0 then "0ns"
  else if milliseconds < 1000 then decimal milliseconds ++ "ms"
  else if milliseconds % 1000 = 0 then decimal (milliseconds / 1000) ++ "s"
  else decimal (milliseconds / 1000) ++ "." ++ String.ofList (thousandths (milliseconds % 1000)) ++ "s"

/-! ## Lines -/

/-- The lines of a text of which the characters in `line`, last one first, open the first line. A carriage
return right in front of a line feed belongs to the end of the line, and what follows the last line feed
is a line unless it is empty. -/
def linesFrom (line : List Char) : List Char → List (List Char)
  | [] => if line.isEmpty then [] else [line.reverse]
  | c :: cs =>
    if c == '\n' then
      (match line with
        | '\r' :: front => front.reverse
        | _ => line.reverse) :: linesFrom [] cs
    else linesFrom (c :: line) cs

def lines (s : String) : List String := (linesFrom [] s.toList).map String.ofList

def ofLines (ls : List String) : String := String.join (ls.map (· ++ "\n"))

/-- Every line of a text behind a tabulator, each with a line feed. -/
def indented (s : String) : String := String.join ((lines s).map fun l => "\t" ++ l ++ "\n")

end Coupling.Text
