import Coupling.Source.Token
import Coupling.Text.Identifier

/-! Every token is the longest text of its class at its place. The one exception is the closing angle
bracket, which is always a token of its own: the grammar joins adjacent ones to shift operators, and so
the same characters can close nested type arguments. -/
namespace Coupling.Source

/-- A scanner gives the length of the text that it accepts at the start of the input. -/
abbrev Scan := List Char → Option Nat

namespace Scan

def one (p : Char → Bool) : Scan
  | [] => none
  | c :: _ => if p c then some 1 else none

def run (p : Char → Bool) : Scan := fun cs => some (cs.takeWhile p).length

def text (t : List Char) : Scan := fun cs => if t.isPrefixOf cs then some t.length else none

def optional (s : Scan) : Scan := fun cs => some ((s cs).getD 0)

def all : List Scan → Scan
  | [], _ => some 0
  | s :: ss, cs => (s cs).bind fun n => (all ss (cs.drop n)).map (n + ·)

def longest : List Scan → Scan
  | [], _ => none
  | s :: ss, cs =>
    match s cs, longest ss cs with
    | some n, some m => some (max n m)
    | some n, none => some n
    | none, other => other

end Scan

/-! ## Layout and comments -/

def isLayout (c : Char) : Bool :=
  c == ' ' || c == '\t' || c == '\n' || c == '\r' || c == '\x0b' || c == '\x0c'

/-- The length of a block comment of which `n` characters are read. -/
def blockCommentFrom (n : Nat) : Scan
  | [] => none
  | '*' :: '/' :: _ => some (n + 2)
  | _ :: cs => blockCommentFrom (n + 1) cs

/-! ## Numbers -/

def isDecimal (c : Char) : Bool := '0' ≤ c && c ≤ '9'
def isOctal (c : Char) : Bool := '0' ≤ c && c ≤ '7'
def isBinary (c : Char) : Bool := c == '0' || c == '1'
def isHexadecimal (c : Char) : Bool :=
  isDecimal c || ('a' ≤ c && c ≤ 'f') || ('A' ≤ c && c ≤ 'F')

/-- The length of a run of digits with low lines between them: one low line, or any number of them
if `loose`. -/
def digitsLength (p : Char → Bool) (loose : Bool) : List Char → Nat
  | [] => 0
  | c :: cs =>
    if p c then 1 + digitsLength p loose cs
    else if c == '_' && (if loose then cs.dropWhile (· == '_') else cs).head?.any p then
      1 + digitsLength p loose cs
    else 0

def digits (p : Char → Bool) : Scan := fun cs =>
  if cs.head?.any p then some (digitsLength p false cs) else none

/-- A decimal numeral: zero, or one that does not open with zero. -/
def numeral : Scan
  | [] => none
  | c :: cs =>
    if c == '0' then some 1
    else if isDecimal c then
      match cs with
      | '_' :: d :: ds => if isDecimal d then some (2 + digitsLength isDecimal true (d :: ds)) else some 1
      | d :: ds => if isDecimal d then some (1 + digitsLength isDecimal true (d :: ds)) else some 1
      | [] => some 1
    else none

def exponent (marks : List Char) : Scan :=
  .all [.one (marks.contains ·), .optional (.one fun c => c == '+' || c == '-'), digits isDecimal]

def longMark : Scan := .optional (.one fun c => c == 'l' || c == 'L')
def floatMark : Scan := .one fun c => ['f', 'F', 'd', 'D'].contains c
def radixMark (marks : List Char) : Scan := .all [.one (· == '0'), .one (marks.contains ·)]
def point : Scan := .one (· == '.')

def number : Scan :=
  .longest [
    .all [numeral, longMark],
    .all [radixMark ['x', 'X'], digits isHexadecimal, longMark],
    .all [radixMark ['o', 'O'], digits isOctal, longMark],
    .all [.one (· == '0'), digits isOctal, longMark],
    .all [radixMark ['b', 'B'], digits isBinary, longMark],
    .all [digits isDecimal, point, .optional (digits isDecimal), .optional (exponent ['e', 'E']),
      .optional floatMark],
    .all [point, digits isDecimal, .optional (exponent ['e', 'E']), .optional floatMark],
    .all [numeral, exponent ['e', 'E', 'p', 'P'], .optional floatMark],
    .all [numeral, .optional (exponent ['e', 'E']), floatMark],
    .all [radixMark ['x', 'X'], digits isHexadecimal, .optional point,
      .optional (.all [exponent ['e', 'E', 'p', 'P'], .optional floatMark])],
    .all [radixMark ['x', 'X'], .optional (digits isHexadecimal), point, digits isHexadecimal,
      .optional (.all [exponent ['e', 'E', 'p', 'P'], .optional floatMark])]]

/-! ## Characters and strings -/

/-- From the inside of a character literal to its closing apostrophe. -/
def characterTail : Scan
  | [] => none
  | '\'' :: _ => some 1
  | '\\' :: _ :: cs => (characterTail cs).map (2 + ·)
  | c :: cs => if c == '\n' then none else (characterTail cs).map (1 + ·)

def character : Scan
  | '\'' :: '\'' :: _ => none
  | '\'' :: cs => (characterTail cs).map (1 + ·)
  | _ => none

def escape : Scan :=
  .all [.one (· == '\\'), .longest [
    .one fun c => c != 'x' && c != 'u' && !isOctal c,
    .all [.one isOctal, .optional (.one isOctal), .optional (.one isOctal)],
    .all [.one (· == 'x'), .one isHexadecimal, .one isHexadecimal],
    .all [.one (· == 'u'), .one isHexadecimal, .one isHexadecimal, .one isHexadecimal,
      .one isHexadecimal],
    .all [.one (· == 'u'), .one (· == '\x7b'), .one isHexadecimal, .run isHexadecimal,
      .one (· == '\x7d')]]]

inductive Quote
  | line
  | block
  deriving DecidableEq, Repr

/-- A splice that is open: the literal it stands in, and how many braces are open inside it. -/
structure OpenSplice where
  quote : Quote
  braces : Nat
  deriving DecidableEq, Repr

/-- Where the lexer is: in code, or in a string literal, inside the open splices. -/
structure Place where
  literal : Option Quote
  splices : List OpenSplice
  deriving DecidableEq, Repr

structure Lexeme where
  cls : TokenClass
  length : Nat
  next : Place

def Quote.mark : Quote → List Char
  | .line => ['"']
  | .block => ['"', '"', '"']

def Quote.escape : Quote → Scan
  | .line => Source.escape
  | .block => .all [.one (· == '\\'), .one fun _ => true]

def quotedLexeme (q : Quote) (splices : List OpenSplice) (cs : List Char) : Option Lexeme :=
  if q.mark.isPrefixOf cs then some ⟨.quote,q.mark.length,⟨none,splices⟩⟩
  else match cs with
    | [] => none
    | '\\' :: '\x7b' :: _ => some ⟨.splice,2,⟨none,⟨q,0⟩ :: splices⟩⟩
    | '\\' :: _ => (q.escape cs).map fun n => ⟨.escape,n,⟨some q,splices⟩⟩
    | '"' :: _ => some ⟨.fragment,1,⟨some q,splices⟩⟩
    | _ => some ⟨.fragment,(cs.takeWhile fun c => c != '"' && c != '\\').length,⟨some q,splices⟩⟩

def longSymbols : List String :=
  ["@interface", "<<=", "...", "<<", "<=", "==", "!=", "&&", "||", "++", "--", "+=", "-=", "*=", "/=", "&=", "|=",
    "^=", "%=", "->", "::"]

def isSymbol (c : Char) : Bool := "()\x7b\x7d[];,.@=<>!~?:+-*/&|^%".toList.contains c

def symbol : Scan := .longest (.one isSymbol :: longSymbols.map fun s => .text s.toList)

/-- The place behind a symbol: braces are counted inside a splice, and the one that closes it leads
back into the literal. -/
def Place.afterSymbol (c : Char) : List OpenSplice → Place
  | [] => ⟨none,[]⟩
  | s :: outer =>
    if c == '\x7b' then ⟨none,⟨s.quote,s.braces + 1⟩ :: outer⟩
    else if c == '\x7d' then
      if s.braces = 0 then ⟨some s.quote,outer⟩ else ⟨none,⟨s.quote,s.braces - 1⟩ :: outer⟩
    else ⟨none,s :: outer⟩

/-- The next token of code, where the input opens neither with layout nor with a comment. -/
def codeLexeme (splices : List OpenSplice) (cs : List Char) : Option Lexeme :=
  match cs with
  | [] => none
  | c :: rest =>
    if Text.isIdentifierStart c then
      some ⟨.word,1 + (rest.takeWhile Text.isIdentifierPart).length,⟨none,splices⟩⟩
    else if c == '"' then
      let q := if Quote.block.mark.isPrefixOf cs then Quote.block else Quote.line
      some ⟨.quote,q.mark.length,⟨some q,splices⟩⟩
    else if c == '\'' then (character cs).map fun n => ⟨.character,n,⟨none,splices⟩⟩
    else match number cs with
      | some n => some ⟨.number,n,⟨none,splices⟩⟩
      | none => (symbol cs).map fun n => ⟨.symbol,n,.afterSymbol c splices⟩

/-- Tokens read so far, last one first, and what stands before the next one, last character first. -/
structure Lexing where
  tokens : List Token
  comments : List Comment
  layout : List Char
  position : Position
  place : Place

def Lexing.emit (l : Lexing) (cls : TokenClass) (text : List Char) (next : Place) : Lexing where
  tokens := ⟨cls,l.comments.reverse,String.ofList l.layout.reverse,String.ofList text,l.position⟩
    :: l.tokens
  comments := []
  layout := []
  position := l.position.after text
  place := next

def Lexing.comment (l : Lexing) (text : List Char) (isLine : Bool) : Lexing :=
  { l with
    comments := ⟨String.ofList l.layout.reverse,String.ofList text,l.position.row,isLine⟩ :: l.comments
    layout := []
    position := l.position.after text }

def Lexing.blank (l : Lexing) (c : Char) : Lexing :=
  { l with layout := c :: l.layout, position := l.position.after [c] }

/-- Reads the tokens of `cs`. Every step takes one character at least, so a budget above the length
is never used up. -/
def lexFrom : Nat → Lexing → List Char → Option (List Token)
  | 0, _, _ => none
  | n + 1, l, cs =>
    match l.place.literal with
    | some q =>
      match quotedLexeme q l.place.splices cs with
      | none => none
      | some x => lexFrom n (l.emit x.cls (cs.take x.length) x.next) (cs.drop x.length)
    | none =>
      match cs with
      | [] => some (l.emit .stop [] l.place).tokens.reverse
      | '/' :: '/' :: _ =>
        let text := cs.takeWhile (· != '\n')
        lexFrom n (l.comment text true) (cs.drop text.length)
      | '/' :: '*' :: body =>
        match blockCommentFrom 2 body with
        | none => none
        | some m => lexFrom n (l.comment (cs.take m) false) (cs.drop m)
      | c :: rest =>
        if isLayout c then lexFrom n (l.blank c) rest
        else match codeLexeme l.place.splices cs with
          | none => none
          | some x => lexFrom n (l.emit x.cls (cs.take x.length) x.next) (cs.drop x.length)

/-- A byte-order mark at the very start is not part of the text. -/
def dropMark : List Char → List Char
  | [] => []
  | c :: cs => if c == '\ufeff' then cs else c :: cs

/-- The tokens of a source, ending with a stop token; `none` if some text is no token. The null
character belongs to no token, not even to a comment. -/
def tokens? (source : String) : Option (List Token) :=
  let cs := dropMark source.toList
  if cs.contains '\x00' then none
  else lexFrom (cs.length + 1) ⟨[],[],[],⟨0,0⟩,⟨none,[]⟩⟩ cs

end Coupling.Source
