import Coupling.Policy
import Coupling.Report.Unit
import Coupling.Resolution
import Coupling.Text.Blank

/-! A walk over the outline of a unit meets its mentions of types, each under the type parameters of the
declarations around it. A mention becomes a dependency unless it names such a parameter or the policy
leaves its target out. -/
namespace Coupling

/-! ## Snippets -/

def maxSnippetLength : Nat := 80

/-- The words of a text with single spaces between them, cut to the length of a snippet. -/
def snippetOf (text : String) : String :=
  let flat := " ".intercalate (Text.words text)
  if flat.length ≤ maxSnippetLength then flat
  else String.ofList (flat.toList.take (maxSnippetLength - 3)) ++ "..."

/-! ## Mentions -/

structure Mention where
  reference : TypeRef
  kind : DependencyKind
  text : String
  line : Option Nat
  deriving DecidableEq, Repr

def TypeHead.mentions (h : TypeHead) : List Mention :=
  (h.supertypes.map fun r => ⟨r,.extension,"extends " ++ r.written,r.line⟩) ++
  (h.interfaces.map fun r => ⟨r,.implementation,"implements " ++ r.written,r.line⟩)

/-- A field mentions its type once for each variable. -/
def fieldMentions (type : TypeRef) (vs : List Variable) : List Mention :=
  vs.map fun v => ⟨type,.field,type.written ++ " " ++ v.name,v.line⟩

def MethodHead.mentions (h : MethodHead) : List Mention :=
  (h.returnType.toList.map fun r =>
    ⟨r,.methodReturn,r.written ++ " " ++ h.name ++ "()",r.line⟩) ++
  (h.parameters.map fun p => ⟨p.type,.methodParameter,p.text,p.line⟩)

def creationMention (type : TypeRef) (line : Option Nat) : Mention :=
  ⟨type,.instantiation,"new " ++ type.written ++ "()",line⟩

def Outline.importMentions (o : Outline) : List Mention :=
  (o.imports.filter fun i => !i.isStatic && !i.onDemand).map fun i =>
    ⟨⟨i.path,i.line⟩,.importation,"import " ++ i.path,i.line⟩

/-! ## The walk -/

structure Walk where
  report : UnitReport
  scope : List String

namespace Walk

/-- Adds the dependency that a mention stands for, if it stands for one. -/
def emit (resolve : Resolver) (policy : Policy) (w : Walk) (m : Mention) : Walk :=
  if m.reference.erased.isEmpty || w.scope.contains m.reference.erased then w
  else
    let target := resolve.target m.reference
    if policy.admits target w.report.name then
      { w with
        report := (w.report.add ⟨w.report.name,target,m.kind,snippetOf m.text,m.line⟩).1 }
    else w

def emitAll (resolve : Resolver) (policy : Policy) (w : Walk) (ms : List Mention) : Walk :=
  ms.foldl (emit resolve policy) w

def enter (w : Walk) (parameters : List String) : Walk := { w with scope := w.scope ++ parameters }

def leave (w : Walk) (depth : Nat) : Walk := { w with scope := w.scope.take depth }

end Walk

mutual

/-- Supertypes stand outside the scope of the parameters of their own type. The result and the
parameters of a method stand inside that of its own. -/
def Construct.walk (resolve : Resolver) (policy : Policy) (w : Walk) : Construct → Walk
  | .type head members =>
    let outside := w.emitAll resolve policy head.mentions
    (walkAll resolve policy (outside.enter head.typeParameters) members).leave outside.scope.length
  | .field type vs => w.emitAll resolve policy (fieldMentions type vs)
  | .method head body =>
    let inside := (w.enter head.typeParameters).emitAll resolve policy head.mentions
    (walkAll resolve policy inside body).leave w.scope.length
  | .creation type line children =>
    walkAll resolve policy (w.emit resolve policy (creationMention type line)) children
  | .block children => walkAll resolve policy w children

def walkAll (resolve : Resolver) (policy : Policy) (w : Walk) : List Construct → Walk
  | [] => w
  | c :: cs => walkAll resolve policy (c.walk resolve policy w) cs

end

/-- The report of a unit: imports come first, if they count, and then the declarations. -/
def classify (resolve : Resolver) (policy : Policy) (o : Outline) (unitName : String) : UnitReport :=
  let start : Walk := ⟨UnitReport.empty unitName,[]⟩
  let imported := if policy.includeImports then start.emitAll resolve policy o.importMentions else start
  (walkAll resolve policy imported o.declarations).report

end Coupling
