import Coupling.Outline
import Coupling.Policy
import Coupling.SourceIndex
import Coupling.StandardLibrary

/-! A simple name is looked up in a fixed order: the types that the unit declares, its single-type
imports, its own package, its on-demand imports, `java.lang`, and last the first package of the platform
that it imports on demand. A dotted name is taken as it is if it is known, and otherwise as a member of
the type that its first segment names. -/
namespace Coupling

/-- Gives the full name of a type as it is written in a unit. -/
abbrev Resolver := TypeRef → Option String

/-- The resolved name, or else what is written. -/
def Resolver.target (resolve : Resolver) (r : TypeRef) : String := (resolve r).getD r.written

namespace Outline

def declaredType? (o : Outline) (name : String) : Option String :=
  o.declaredTypes.find? (Text.lastSegment · == name)

def singleImport? (o : Outline) (name : String) : Option String :=
  (o.imports.find? fun i => !i.isStatic && !i.onDemand && Text.lastSegment i.path == name).map
    Import.path

def onDemandPackages (o : Outline) : List String :=
  (o.imports.filter fun i => !i.isStatic && i.onDemand).map Import.path

end Outline

def splitFirstChars : List Char → Option (List Char × List Char)
  | [] => none
  | c :: cs =>
    if c == '.' then some ([], cs) else (splitFirstChars cs).map fun p => (c :: p.1, p.2)

def splitFirst? (name : String) : Option (String × String) :=
  (splitFirstChars name.toList).map fun p => (String.ofList p.1, String.ofList p.2)

namespace SourceIndex

/-- Whether a full name stands in the index or in a table of the standard library. -/
def knows (index : SourceIndex) (name : String) : Bool :=
  index.contains name || (match Text.splitLast? '.' name with
    | some (package, simple) => StandardLibrary.contains package simple
    | none => false)

def samePackage? (index : SourceIndex) (o : Outline) (name : String) : Option String :=
  if index.contains (o.qualify name) then some (o.qualify name) else none

def onDemand? (index : SourceIndex) (o : Outline) (name : String) : Option String :=
  (o.onDemandPackages.find? fun package =>
    index.contains (package ++ "." ++ name) || StandardLibrary.contains package name).map
    (· ++ "." ++ name)

end SourceIndex

/-- Names that do not begin with a capital letter are segments of a package. -/
def looksLikeType (name : String) : Bool :=
  match name.toList with
  | c :: _ => 'A' ≤ c && c ≤ 'Z'
  | [] => false

def platform? (o : Outline) (name : String) : Option String :=
  if looksLikeType name then
    (o.onDemandPackages.find? StandardLibrary.isPlatformPackage).map (· ++ "." ++ name)
  else none

def resolveSimple (index : SourceIndex) (o : Outline) (name : String) : Option String :=
  (o.declaredType? name).orElse fun _ =>
  (o.singleImport? name).orElse fun _ =>
  (index.samePackage? o name).orElse fun _ =>
  (index.onDemand? o name).orElse fun _ =>
  (StandardLibrary.langType? name).orElse fun _ =>
  platform? o name

def resolveName (index : SourceIndex) (o : Outline) (name : String) : Option String :=
  match splitFirst? name with
  | some (outer, members) =>
    if index.knows name then some name
    else (resolveSimple index o outer).map (· ++ "." ++ members)
  | none => resolveSimple index o name

/-- Resolves the references of a unit. Arrays, `void` and primitive types have no full name. -/
def resolver (index : SourceIndex) (o : Outline) : Resolver := fun r =>
  if r.isArray || r.erased.isEmpty || r.erased == "void" || isPrimitive r.erased then none
  else resolveName index o r.erased

end Coupling
