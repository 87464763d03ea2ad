import Coupling.Text.Blank

/-! The tree of a source has a leaf for every token and every comment, in document order, and every leaf
keeps the layout in front of it. A node therefore determines the text it covers. Nodes carry a kind, the
role they play in the node above them, and the row of their first token. -/
namespace Coupling.Source

/-- Grammatical kind. Leaves of kind `token` are keywords and punctuation; every other kind is named. -/
inductive Kind
  | token
  | lineComment
  | blockComment
  | identifier
  | typeIdentifier
  | scopedIdentifier
  | number
  | character
  | stringLiteral
  | stringFragment
  | escapeSequence
  | stringInterpolation
  | trueLiteral
  | falseLiteral
  | nullLiteral
  | thisName
  | superName
  | asterisk
  | primitiveType
  | scopedType
  | genericType
  | arrayType
  | annotatedType
  | typeArguments
  | wildcard
  | dimensions
  | dimensionsExpression
  | assignment
  | operation
  | instanceOf
  | lambda
  | inferredParameters
  | cast
  | switchExpression
  | parenthesized
  | classLiteral
  | objectCreation
  | arrayCreation
  | arrayInitializer
  | fieldAccess
  | arrayAccess
  | methodInvocation
  | methodReference
  | templateExpression
  | argumentList
  | switchBlock
  | switchGroup
  | switchRule
  | switchLabel
  | pattern
  | recordPattern
  | guardClause
  | block
  | expressionStatement
  | labeledStatement
  | assertStatement
  | doStatement
  | breakStatement
  | continueStatement
  | returnStatement
  | yieldStatement
  | synchronizedStatement
  | throwStatement
  | tryStatement
  | catchClause
  | catchParameter
  | finallyClause
  | resources
  | resource
  | ifStatement
  | whileStatement
  | forStatement
  | enhancedForStatement
  | localVariableDeclaration
  | annotationMark
  | annotationUse
  | annotationArguments
  | elementValuePair
  | elementValueArray
  | moduleDeclaration
  | moduleBody
  | moduleDirective
  | packageDeclaration
  | importDeclaration
  | classDeclaration
  | interfaceDeclaration
  | enumDeclaration
  | recordDeclaration
  | annotationTypeDeclaration
  | classBody
  | interfaceBody
  | enumBody
  | enumBodyDeclarations
  | enumConstant
  | annotationTypeBody
  | modifiers
  | typeParameters
  | typeParameter
  | typeBound
  | superclass
  | superInterfaces
  | extendsInterfaces
  | permits
  | typeList
  | throws
  | staticInitializer
  | fieldDeclaration
  | constantDeclaration
  | variableDeclarator
  | methodDeclaration
  | constructorDeclaration
  | compactConstructorDeclaration
  | annotationElementDeclaration
  | constructorBody
  | explicitConstructorInvocation
  | formalParameters
  | formalParameter
  | spreadParameter
  | receiverParameter
  | program
  deriving DecidableEq, Repr

/-- The part that a node plays in the one above it, as far as anything depends on it. -/
inductive Role
  | none
  | name
  | type
  | parameters
  | body
  | declarator
  | dimensions
  | value
  deriving DecidableEq, Repr

inductive Tree
  | leaf (role : Role) (kind : Kind) (layout text : String) (row : Nat)
  | node (role : Role) (kind : Kind) (row : Nat) (children : List Tree)
  deriving Repr

namespace Tree

def role : Tree → Role
  | leaf r _ _ _ _ => r
  | node r _ _ _ => r

def kind : Tree → Kind
  | leaf _ k _ _ _ => k
  | node _ k _ _ => k

def row : Tree → Nat
  | leaf _ _ _ _ r => r
  | node _ _ r _ => r

/-- The line of the first token, from one. -/
def line (t : Tree) : Nat := t.row + 1

def children : Tree → List Tree
  | leaf .. => []
  | node _ _ _ ts => ts

def isNamed (t : Tree) : Bool := t.kind != .token

def isComment (t : Tree) : Bool := t.kind == .lineComment || t.kind == .blockComment

def isAnnotationUse (t : Tree) : Bool := t.kind == .annotationUse || t.kind == .annotationMark

def namedChildren (t : Tree) : List Tree := t.children.filter isNamed

def child? (t : Tree) (r : Role) : Option Tree := t.children.find? (·.role == r)

def withRole (r : Role) : Tree → Tree
  | leaf _ k layout text row => leaf r k layout text row
  | node _ k row ts => node r k row ts

structure Leaf where
  layout : String
  text : String
  deriving DecidableEq, Repr

mutual

def leaves : Tree → List Leaf
  | leaf _ _ layout text _ => [⟨layout,text⟩]
  | node _ _ _ ts => leavesOf ts

def leavesOf : List Tree → List Leaf
  | [] => []
  | t :: ts => leaves t ++ leavesOf ts

end

/-- The covered text, from the first character of the first token to the last one of the last. -/
def text (t : Tree) : String :=
  match t.leaves with
  | [] => ""
  | l :: ls => ls.foldl (fun s l => s ++ l.layout ++ l.text) l.text

/-! ## Size -/

mutual

def nodeCount : Tree → Nat
  | leaf .. => 1
  | node _ _ _ ts => nodeCountOf ts + 1

def nodeCountOf : List Tree → Nat
  | [] => 0
  | t :: ts => nodeCount t + nodeCountOf ts

end

theorem nodeCount_pos (t : Tree) : 0 < t.nodeCount := by
  cases t <;> simp [nodeCount]

theorem nodeCountOf_children_lt (t : Tree) : nodeCountOf t.children < t.nodeCount := by
  cases t <;> simp [nodeCount, children, nodeCountOf]

theorem nodeCountOf_append (ts us : List Tree) :
    nodeCountOf (ts ++ us) = nodeCountOf ts + nodeCountOf us := by
  induction ts with
  | nil => simp [nodeCountOf]
  | cons t ts ih => simp [nodeCountOf, ih, Nat.add_assoc]

theorem nodeCountOf_le_of_sublist {ts us : List Tree} (part : ts.Sublist us) :
    nodeCountOf ts ≤ nodeCountOf us := by
  induction part with
  | slnil => exact Nat.le_refl _
  | cons _ _ ih => simp only [nodeCountOf]; omega
  | cons_cons _ _ ih => simp only [nodeCountOf]; omega

theorem nodeCount_le_of_mem {t : Tree} {ts : List Tree} (member : t ∈ ts) :
    t.nodeCount ≤ nodeCountOf ts := by
  have single := nodeCountOf_le_of_sublist (List.singleton_sublist.mpr member)
  simpa [nodeCountOf] using single

theorem nodeCount_child?_lt {t c : Tree} {r : Role} (found : t.child? r = some c) :
    c.nodeCount < t.nodeCount :=
  Nat.lt_of_le_of_lt (nodeCount_le_of_mem (List.mem_of_find?_eq_some found)) t.nodeCountOf_children_lt

end Tree

end Coupling.Source
