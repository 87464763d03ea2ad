import Coupling.Outline
import Coupling.Source.Grammar
import Coupling.Source.Lexer
import Coupling.Source.Written

/-! The walk over a concrete tree enters a type declaration and a method through its body only, a field
through the initialisers of its variables, a creation through everything but the created type, and any
other node through all its named children. The constructs it meets make the outline. Types, methods,
creations and blocks count as levels; a source that nests them too deeply has no outline. -/
namespace Coupling.Source

open Coupling.Source.Tree (nodeCountOf nodeCountOf_append nodeCountOf_le_of_sublist)

/-! ## Types and parameters -/

def Tree.typeRef (t : Tree) : TypeRef := ⟨t.written,some t.line⟩

def Tree.dimensionsText (t : Tree) : String := Text.removeBlanks t.text

/-- A type followed by the dimensions that stand behind the name of a variable. -/
def declaredType (base : TypeRef) (declarator : Tree) : TypeRef :=
  match declarator.child? .dimensions with
  | some d => { base with written := base.written ++ d.dimensionsText }
  | none => base

def Tree.nameText (t : Tree) : String := ((t.child? .name).map Tree.text).getD ""

def Tree.typeParameterNames (t : Tree) : List String :=
  match t.namedChildren.find? (·.kind == .typeParameters) with
  | none => []
  | some ps =>
    (ps.namedChildren.filter (·.kind == .typeParameter)).filterMap fun p =>
      (p.namedChildren.find? fun c => c.kind == .typeIdentifier || c.kind == .identifier).map Tree.text

/-- A parameter of a method or a component of a record; a receiver is none. -/
def Tree.parameter? (t : Tree) : Option Parameter :=
  match t.kind with
  | .formalParameter =>
    (t.child? .type).map fun type =>
      ⟨declaredType type.typeRef t,t.nameText,some t.line,Text.trim t.text⟩
  | .spreadParameter =>
    let type := t.namedChildren.find? fun c => c.kind != .modifiers && !c.isAnnotationUse && !c.isComment
    let declarator := t.namedChildren.find? (·.kind == .variableDeclarator)
    type.map fun type =>
      ⟨type.typeRef,(declarator.map Tree.nameText).getD "",some t.line,Text.trim t.text⟩
  | _ => none

def Tree.parameterList (t : Tree) : List Parameter :=
  match t.child? .parameters with
  | some ps => ps.namedChildren.filterMap Tree.parameter?
  | none => []

def Tree.clauseTypes (t : Tree) : List TypeRef :=
  let types := t.namedChildren.flatMap fun c => if c.kind == .typeList then c.namedChildren else [c]
  (types.filter fun c => !c.isAnnotationUse && !c.isComment).map Tree.typeRef

def Tree.typesOfClauses (t : Tree) (kinds : List Kind) : List TypeRef :=
  (t.namedChildren.filter fun c => kinds.contains c.kind).flatMap Tree.clauseTypes

/-! ## Constructs -/

def Kind.typeKind? : Kind → Option TypeKind
  | .classDeclaration => some .ordinary
  | .interfaceDeclaration => some .interface
  | .enumDeclaration => some .enumeration
  | .recordDeclaration => some .record
  | .annotationTypeDeclaration => some .annotationType
  | _ => none

inductive Shape
  | type (kind : TypeKind)
  | field
  | method (hasReturnType : Bool)
  | creation
  | block
  | other
  deriving DecidableEq, Repr

def Kind.shape (k : Kind) : Shape :=
  match k with
  | .fieldDeclaration => .field
  | .constantDeclaration => .field
  | .methodDeclaration => .method true
  | .annotationElementDeclaration => .method true
  | .constructorDeclaration => .method false
  | .compactConstructorDeclaration => .method false
  | .objectCreation => .creation
  | .block => .block
  | .constructorBody => .block
  | .staticInitializer => .block
  | .lambda => .block
  | _ =>
    match k.typeKind? with
    | some kind => .type kind
    | none => .other

def Shape.isLevel : Shape → Bool
  | .type _ => true
  | .method _ => true
  | .creation => true
  | .block => true
  | .field => false
  | .other => false

def Tree.typeHead (t : Tree) (kind : TypeKind) (name : Tree) : TypeHead where
  kind := kind
  name := name.text
  line := some t.line
  typeParameters := t.typeParameterNames
  supertypes := t.typesOfClauses [.superclass, .extendsInterfaces]
  interfaces := t.typesOfClauses [.superInterfaces]

def Tree.components (t : Tree) (kind : TypeKind) : List Construct :=
  if kind = .record then t.parameterList.map fun p => .field p.type [⟨p.name,p.line⟩] else []

def Tree.methodHead (t : Tree) (hasReturnType : Bool) : MethodHead where
  name := t.nameText
  line := some t.line
  typeParameters := t.typeParameterNames
  returnType := if hasReturnType then (t.child? .type).map Tree.typeRef else none
  parameters := t.parameterList

/-- Adds a variable to the field of its type, or a new field behind the others. -/
def addVariable (type : TypeRef) (v : Variable) :
    List (TypeRef × List Variable) → List (TypeRef × List Variable)
  | [] => [(type, [v])]
  | (type', vs) :: rest =>
    if type'.written = type.written then (type', vs ++ [v]) :: rest
    else (type', vs) :: addVariable type v rest

def Tree.declarators (t : Tree) : List Tree := t.children.filter (·.role == .declarator)

/-- The fields of a declaration, one for each type that its variables have. -/
def fieldsOf (base : TypeRef) (declarators : List Tree) : List (TypeRef × List Variable) :=
  declarators.foldl (fun fields d =>
    match d.child? .name with
    | some name => addVariable (declaredType base d) ⟨name.text,some name.line⟩ fields
    | none => fields) []

/-- The constructs that a node contributes, given those that the walk finds inside it. -/
def Tree.build (t : Tree) (inner : List Construct) : List Construct :=
  match t.kind.shape with
  | .type kind =>
    match t.child? .name with
    | some name => [.type (t.typeHead kind name) (t.components kind ++ inner)]
    | none => []
  | .field =>
    match t.child? .type with
    | some type =>
      (fieldsOf type.typeRef t.declarators).map (fun f => .field f.1 f.2) ++ inner
    | none => []
  | .method hasReturnType => [.method (t.methodHead hasReturnType) inner]
  | .creation =>
    match t.child? .type with
    | some type => [.creation type.typeRef (some t.line) inner]
    | none => [.block inner]
  | .block => if inner.isEmpty then [] else [.block inner]
  | .other => inner

/-! ## The walk -/

def Tree.bodyParts (t : Tree) : List Tree := ((t.child? .body).map Tree.namedChildren).getD []

/-- Where the walk goes on from a node. It passes over a type without a name and a field without a
type. -/
def Tree.entered (t : Tree) : List Tree :=
  match t.kind.shape with
  | .type _ => if (t.child? .name).isSome then t.bodyParts else []
  | .field => if (t.child? .type).isSome then t.declarators.filterMap (·.child? .value) else []
  | .method _ => t.bodyParts
  | .creation => (t.children.eraseP (·.role == .type)).filter Tree.isNamed
  | .block => t.namedChildren
  | .other => t.namedChildren

theorem Tree.nodeCountOf_bodyParts_lt (t : Tree) : nodeCountOf t.bodyParts < t.nodeCount := by
  unfold bodyParts
  cases found : t.child? .body with
  | none => exact t.nodeCount_pos
  | some body =>
    have parts : nodeCountOf body.namedChildren ≤ nodeCountOf body.children :=
      nodeCountOf_le_of_sublist List.filter_sublist
    have inner := body.nodeCountOf_children_lt
    have outer := nodeCount_child?_lt found
    simp only [Option.map_some, Option.getD_some]
    omega

theorem nodeCountOf_values_le (ts : List Tree) :
    nodeCountOf (ts.filterMap (·.child? .value)) ≤ nodeCountOf ts := by
  induction ts with
  | nil => exact Nat.le_refl _
  | cons t ts ih =>
    cases found : t.child? .value with
    | none =>
      simp only [List.filterMap_cons, found, nodeCountOf]
      omega
    | some value =>
      have inner := Tree.nodeCount_child?_lt found
      simp only [List.filterMap_cons, found, nodeCountOf]
      omega

/-- The walk only goes inwards. -/
theorem Tree.nodeCountOf_entered_lt (t : Tree) : nodeCountOf t.entered < t.nodeCount := by
  have children := t.nodeCountOf_children_lt
  have below {ts : List Tree} (part : ts.Sublist t.children) : nodeCountOf ts < t.nodeCount :=
    Nat.lt_of_le_of_lt (nodeCountOf_le_of_sublist part) children
  unfold entered
  split
  · split
    · exact t.nodeCountOf_bodyParts_lt
    · exact t.nodeCount_pos
  · split
    · exact Nat.lt_of_le_of_lt (nodeCountOf_values_le _) (below List.filter_sublist)
    · exact t.nodeCount_pos
  · exact t.nodeCountOf_bodyParts_lt
  · exact below (List.filter_sublist.trans List.eraseP_sublist)
  · exact below List.filter_sublist
  · exact below List.filter_sublist

structure Levels where
  depth : Nat
  tooDeep : Option Nat
  deriving DecidableEq, Repr

/-- A part of the walk inside one more level, which begins at `line`. Where the limit is reached, the
part is left out. -/
def Levels.nested {α : Type} (l : Levels) (limit : Option Nat) (line : Nat)
    (part : Levels → α × Levels) : Option α × Levels :=
  if limit.any (· ≤ l.depth) then (none, { l with tooDeep := l.tooDeep.or (some line) })
  else
    let inner := part { l with depth := l.depth + 1 }
    (some inner.1, { inner.2 with depth := l.depth })

/-- Walks over a stack of nodes, the first one on top. A node that is no construct leaves what is inside
it on the stack, so that a long chain of operators costs no depth. -/
def walk (limit : Option Nat) : List Tree → Levels → List Construct × Levels
  | [], l => ([], l)
  | t :: pending, l =>
    match t.kind.shape with
    | .other => walk limit (t.entered ++ pending) l
    | .field =>
      let inner := walk limit t.entered l
      let rest := walk limit pending inner.2
      (t.build inner.1 ++ rest.1, rest.2)
    | .type _ | .method _ | .creation | .block =>
      let inner := l.nested limit t.line (walk limit t.entered)
      let rest := walk limit pending inner.2
      ((inner.1.map t.build).getD [] ++ rest.1, rest.2)
termination_by pending => nodeCountOf pending
decreasing_by
  all_goals
    have inwards := t.nodeCountOf_entered_lt
    simp only [nodeCountOf, nodeCountOf_append]
    omega

/-! ## Sources -/

def Tree.importOf (t : Tree) : Import where
  path := ((t.children.reverse.find? fun c =>
    c.kind == .identifier || c.kind == .scopedIdentifier).map Tree.text).getD ""
  isStatic := t.children.any fun c => c.kind == .token && c.text == "static"
  onDemand := t.children.any (·.kind == .asterisk)
  line := some t.line

def Tree.packageName (t : Tree) : Option String :=
  (t.namedChildren.find? fun c => c.kind == .identifier || c.kind == .scopedIdentifier).map Tree.text

/-- Declarations of the top level that the walk enters: all but the package and the imports. -/
def isWalked (t : Tree) : Bool :=
  t.isNamed && t.kind != .packageDeclaration && t.kind != .importDeclaration

/-- The outline of a whole source, in which the last package declaration counts, and the line of the
first construct that it leaves out. -/
def Tree.outlineWithin (limit : Option Nat) (root : Tree) : Outline × Option Nat :=
  let found := walk limit (root.children.filter isWalked) ⟨0,none⟩
  ({ package := (root.children.reverse.find? (·.kind == .packageDeclaration)).bind Tree.packageName
     imports := (root.children.filter (·.kind == .importDeclaration)).map Tree.importOf
     declarations := found.1 }, found.2.tooDeep)

/-- Types, methods, creations and blocks may be nested this deep. -/
def maxLevels : Nat := 200

inductive ParseFailure
  | noTree (position : Position)
  | tooDeep (line : Nat)
  deriving DecidableEq, Repr

def ParseFailure.message : ParseFailure → String
  | .noTree p =>
    "syntax error at line " ++ Nat.repr (p.row + 1) ++ ", column " ++ Nat.repr (p.column + 1)
  | .tooDeep line =>
    "nesting deeper than " ++ Nat.repr maxLevels ++ " levels at line " ++ Nat.repr line

/-- The outline of a concrete tree, unless something had to be left out. -/
def Tree.outline? (root : Tree) : Except ParseFailure Outline :=
  let found := root.outlineWithin (some maxLevels)
  match found.2 with
  | some line => .error (.tooDeep line)
  | none => .ok found.1

def parseTree (source : String) : Except ParseFailure Tree :=
  match tokens? source with
  | none => .error (.noTree ⟨0,0⟩)
  | some tokens =>
    match Tree.ofTokens tokens with
    | .error position => .error (.noTree position)
    | .ok tree => .ok tree

def parse (source : String) : Except ParseFailure Outline := (parseTree source).bind Tree.outline?

end Coupling.Source
