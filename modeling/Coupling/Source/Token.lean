/-! A source is a sequence of tokens. Each one carries what stands before it: the comments, every
comment with the layout in front of it, and the layout after the last of them. Nothing of the source is
lost, so the text between any two tokens can be given back verbatim. -/
namespace Coupling.Source

/-- Lexical class of a token. A string literal is a sequence of tokens: a quote, then fragments,
escapes and splices (`\` with an opening brace, up to its closing brace), then a quote. -/
inductive TokenClass
  | word
  | number
  | character
  | quote
  | fragment
  | escape
  | splice
  | symbol
  | stop
  deriving DecidableEq, Repr

structure Comment where
  layout : String
  text : String
  row : Nat
  isLine : Bool
  deriving DecidableEq, Repr

/-- A place in the source: rows and columns count from zero, columns in bytes. -/
structure Position where
  row : Nat
  column : Nat
  deriving DecidableEq, Repr

structure Token where
  cls : TokenClass
  comments : List Comment
  layout : String
  text : String
  position : Position
  deriving DecidableEq, Repr

def Token.isTight (t : Token) : Bool := t.comments.isEmpty && t.layout.isEmpty

def Position.after (p : Position) : List Char → Position
  | [] => p
  | c :: cs =>
    if c == '\n' then Position.after ⟨p.row + 1,0⟩ cs
    else Position.after ⟨p.row,p.column + c.utf8Size⟩ cs

end Coupling.Source
