import Coupling.Text.Dotted

/-! The outline of a source keeps what can carry a dependency on a type: declarations of types, fields
and methods, and creations of objects. Everything in between is a block, or is left out if nothing of
this kind stands in it. -/
namespace Coupling

/-- A type as it is written, without layout, comments and annotations. -/
structure TypeRef where
  written : String
  line : Option Nat
  deriving DecidableEq, Repr

def TypeRef.erased (r : TypeRef) : String := Text.before '<' r.written

def isArrayName (name : String) : Bool := Text.endsWith name "[]"

def TypeRef.isArray (r : TypeRef) : Bool := isArrayName r.written

inductive TypeKind
  | ordinary
  | interface
  | enumeration
  | record
  | annotationType
  deriving DecidableEq, Repr

structure Variable where
  name : String
  line : Option Nat
  deriving DecidableEq, Repr

structure Parameter where
  type : TypeRef
  name : String
  line : Option Nat
  text : String
  deriving DecidableEq, Repr

structure Import where
  path : String
  isStatic : Bool
  onDemand : Bool
  line : Option Nat
  deriving DecidableEq, Repr

structure TypeHead where
  kind : TypeKind
  name : String
  line : Option Nat
  typeParameters : List String
  /-- The superclass, or the interfaces that an interface extends. -/
  supertypes : List TypeRef
  interfaces : List TypeRef
  deriving DecidableEq, Repr

/-- A method or constructor without its body. A constructor has no return type. -/
structure MethodHead where
  name : String
  line : Option Nat
  typeParameters : List String
  returnType : Option TypeRef
  parameters : List Parameter
  deriving DecidableEq, Repr

inductive Construct
  | type (head : TypeHead) (members : List Construct)
  | field (type : TypeRef) (declarators : List Variable)
  | method (head : MethodHead) (body : List Construct)
  /-- The children are the arguments and the members of an anonymous class. -/
  | creation (type : TypeRef) (line : Option Nat) (children : List Construct)
  | block (children : List Construct)
  deriving Repr

structure Outline where
  package : Option String
  imports : List Import
  declarations : List Construct
  deriving Repr

namespace Outline

def primaryType (o : Outline) : Option String :=
  o.declarations.findSome? fun
    | .type head _ => some head.name
    | _ => none

def qualify (o : Outline) (name : String) : String := Text.qualified (o.package.getD "") name

/-- The name of the unit: that of its primary type in its package, with `fallback` for a unit that
declares no type. -/
def unitName (o : Outline) (fallback : String) : String := o.qualify (o.primaryType.getD fallback)

end Outline

mutual

/-- The names of a type declaration and of the types nested in it, inside the namespace `space`. Types
that are local to a method, a field, a creation or a block have no such name. -/
def Construct.declaredTypes (space : String) : Construct → List String
  | .type head members =>
    let name := Text.qualified space head.name
    declaredTypesOf name members ++ [name]
  | .field _ _ => []
  | .method _ _ => []
  | .creation _ _ _ => []
  | .block _ => []

def declaredTypesOf (space : String) : List Construct → List String
  | [] => []
  | c :: cs => c.declaredTypes space ++ declaredTypesOf space cs

end

/-- The names of all types that the unit declares, nested ones before those that enclose them. -/
def Outline.declaredTypes (o : Outline) : List String :=
  declaredTypesOf (o.package.getD "") o.declarations

end Coupling
