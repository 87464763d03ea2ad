import Mathlib.Data.List.Basic
import Coupling.Proofs.First
import Coupling.Proofs.Source.Written

/-! What the heads of types, methods and creations say of their nodes: each part of a head is read off the
children of its node, in the order in which they stand there. -/
namespace Coupling.Source

/-- The first of the nodes that has a property, if any of them has it. -/
inductive Leading (p : Tree → Prop) (ts : List Tree) : Option Tree → Prop
  | absent (without : ∀ t ∈ ts, ¬p t) : Leading p ts none
  | found {t} (first : First p ts t) : Leading p ts (some t)

/-- What each of the nodes tells, one after another. -/
inductive Listed {α : Type} (tells : Tree → List α → Prop) : List Tree → List α → Prop
  | nil : Listed tells [] []
  | cons {t ts xs ys} (first : tells t xs) (rest : Listed tells ts ys) :
      Listed tells (t :: ts) (xs ++ ys)

theorem leading_iff {p : Tree → Prop} {test : Tree → Bool} (tested : ∀ t, test t = true ↔ p t)
    {ts : List Tree} {o : Option Tree} : Leading p ts o ↔ ts.find? test = o := by
  obtain rfl : (test · = true) = p := funext fun t => propext (tested t)
  constructor
  · intro leading
    cases leading with
    | absent without => exact List.find?_eq_none.mpr without
    | found first => exact first_iff.mpr first
  · intro search
    cases o with
    | none => exact .absent (List.find?_eq_none.mp search)
    | some t => exact .found (first_iff.mp search)

theorem listed_iff {α : Type} {tells : Tree → List α → Prop} {read : Tree → List α}
    (reads : ∀ t xs, tells t xs ↔ read t = xs) {ts : List Tree} {xs : List α} :
    Listed tells ts xs ↔ ts.flatMap read = xs := by
  constructor
  · intro listed
    induction listed with
    | nil => rfl
    | cons first _ ih => rw [List.flatMap_cons, (reads _ _).mp first, ih]
  · rintro rfl
    induction ts with
    | nil => exact .nil
    | cons t ts ih => exact .cons ((reads t _).mpr rfl) ih

theorem flatMap_filter_eq {α β : Type} (test : α → Bool) (f : α → List β) (xs : List α) :
    (xs.filter test).flatMap f = xs.flatMap fun x => if test x = true then f x else [] := by
  induction xs with
  | nil => rfl
  | cons x xs ih => by_cases holds : test x = true <;> simp [holds,ih]

section Heads

variable {t : Tree}

def HasRole (t : Tree) (r : Role) (o : Option Tree) : Prop := Leading (·.role = r) t.children o

def HasKind (t : Tree) (kinds : List Kind) (o : Option Tree) : Prop :=
  Leading (·.kind ∈ kinds) t.namedChildren o

theorem hasRole_iff {r : Role} {o : Option Tree} : HasRole t r o ↔ t.child? r = o :=
  leading_iff fun _ => beq_iff_eq

/-! ## Types and names -/

/-- A type is written as the leaves of its node are, without those in annotations and comments. -/
structure SaysType (t : Tree) (type : TypeRef) : Prop where
  written : type.written = writtenText t.spots
  line : type.line = some (t.row + 1)

theorem typeRef_eq (t : Tree) : t.typeRef = ⟨writtenText t.spots,some (t.row + 1)⟩ := by
  rw [Tree.typeRef, t.written_eq, writtenOf_singleton]
  rfl

theorem saysType_iff {type : TypeRef} : SaysType t type ↔ t.typeRef = type := by
  rw [typeRef_eq]
  constructor
  · rintro ⟨written,line⟩
    cases type
    simp_all
  · rintro rfl
    exact ⟨rfl,rfl⟩

/-- The text of the name of a node, empty if it has none. -/
inductive SaysName (t : Tree) : String → Prop
  | text {name} (first : HasRole t .name name) : SaysName t ((name.map Tree.text).getD "")

theorem saysName_iff {name : String} : SaysName t name ↔ t.nameText = name := by
  constructor
  · rintro ⟨first⟩
    rw [Tree.nameText, hasRole_iff.mp first]
  · rintro rfl
    exact .text (hasRole_iff.mpr rfl)

/-! ## Type parameters -/

inductive NamesTypeParameter (t : Tree) : List String → Prop
  | parameter {name} (kind : t.kind = .typeParameter)
      (first : HasKind t [.typeIdentifier,.identifier] name) :
      NamesTypeParameter t (name.map Tree.text).toList
  | other (kind : t.kind ≠ .typeParameter) : NamesTypeParameter t []

inductive TypeParameters (t : Tree) : List String → Prop
  | listed {ps names} (first : HasKind t [.typeParameters] (some ps))
      (listed : Listed NamesTypeParameter ps.namedChildren names) : TypeParameters t names
  | absent (absent : HasKind t [.typeParameters] none) : TypeParameters t []

theorem namesTypeParameter_iff (t : Tree) (names : List String) :
    NamesTypeParameter t names ↔ (if (t.kind == .typeParameter) = true then
      ((t.namedChildren.find? fun c => c.kind == .typeIdentifier || c.kind == .identifier).map
        Tree.text).toList else []) = names := by
  have tested (u : Tree) : (u.kind == .typeIdentifier || u.kind == .identifier) = true ↔
      u.kind ∈ [Kind.typeIdentifier,.identifier] := by simp
  constructor
  · intro naming
    cases naming with
    | parameter kind first => simp [kind,(leading_iff tested).mp first]
    | other kind => simp [kind]
  · rintro rfl
    split
    next kind => exact .parameter (beq_iff_eq.mp kind) ((leading_iff tested).mpr rfl)
    next kind => exact .other fun same => kind (beq_iff_eq.mpr same)

theorem typeParameters_iff {names : List String} :
    TypeParameters t names ↔ t.typeParameterNames = names := by
  have first {o : Option Tree} :
      HasKind t [.typeParameters] o ↔ t.namedChildren.find? (·.kind == .typeParameters) = o :=
    leading_iff fun u => by simp
  unfold Tree.typeParameterNames
  constructor
  · intro naming
    cases naming with
    | listed found listed =>
      rw [listed_iff namesTypeParameter_iff] at listed
      simpa only [first.mp found,List.filterMap_eq_flatMap_toList,flatMap_filter_eq] using listed
    | absent absent => rw [first.mp absent]
  · rintro rfl
    cases found : t.namedChildren.find? (·.kind == .typeParameters) with
    | none => exact .absent (first.mpr found)
    | some ps =>
      refine .listed (first.mpr found) ((listed_iff namesTypeParameter_iff).mpr ?_)
      simp only [List.filterMap_eq_flatMap_toList,flatMap_filter_eq]

/-! ## Clauses -/

/-- What stands where a type can stand: comments and annotations may stand in front of it. -/
inductive MentionsType (t : Tree) : List TypeRef → Prop
  | type {type} (comment : t.isComment = false) (mark : t.isAnnotationUse = false)
      (tells : SaysType t type) : MentionsType t [type]
  | layout (beside : t.isComment = true ∨ t.isAnnotationUse = true) : MentionsType t []

/-- A clause holds its types directly, or in a list. -/
inductive ClausePart (t : Tree) : List TypeRef → Prop
  | list {types} (kind : t.kind = .typeList) (listed : Listed MentionsType t.namedChildren types) :
      ClausePart t types
  | single {types} (kind : t.kind ≠ .typeList) (mentions : MentionsType t types) : ClausePart t types

inductive Clause (kinds : List Kind) (t : Tree) : List TypeRef → Prop
  | types {types} (kind : t.kind ∈ kinds) (listed : Listed ClausePart t.namedChildren types) :
      Clause kinds t types
  | other (kind : t.kind ∉ kinds) : Clause kinds t []

theorem mentionsType_iff (t : Tree) (types : List TypeRef) :
    MentionsType t types ↔
      (if (!t.isAnnotationUse && !t.isComment) = true then [t.typeRef] else []) = types := by
  constructor
  · intro mentions
    cases mentions with
    | type comment mark tells => simp [comment,mark,saysType_iff.mp tells]
    | layout beside => rcases beside with comment | mark <;> simp [*]
  · rintro rfl
    split
    next plain =>
      rw [Bool.and_eq_true, Bool.not_eq_true', Bool.not_eq_true'] at plain
      exact .type plain.2 plain.1 (saysType_iff.mpr rfl)
    next beside =>
      refine .layout ?_
      cases comment : t.isComment <;> simp_all

def clausePartTypes (t : Tree) : List TypeRef :=
  ((if (t.kind == .typeList) = true then t.namedChildren else [t]).filter
    fun c => !c.isAnnotationUse && !c.isComment).map Tree.typeRef

theorem clausePart_iff (t : Tree) (types : List TypeRef) :
    ClausePart t types ↔ clausePartTypes t = types := by
  unfold clausePartTypes
  rw [List.map_eq_flatMap, flatMap_filter_eq]
  constructor
  · intro part
    cases part with
    | list kind listed => simpa [kind] using (listed_iff mentionsType_iff).mp listed
    | single kind mentions => simpa [kind] using (mentionsType_iff t types).mp mentions
  · rintro rfl
    split
    next kind =>
      exact .list (beq_iff_eq.mp kind) ((listed_iff mentionsType_iff).mpr rfl)
    next kind =>
      refine .single (fun same => kind (beq_iff_eq.mpr same)) ((mentionsType_iff t _).mpr ?_)
      simp

theorem clause_iff (kinds : List Kind) (t : Tree) (types : List TypeRef) :
    Clause kinds t types ↔ (if kinds.contains t.kind = true then t.clauseTypes else []) = types := by
  have parts : t.clauseTypes = t.namedChildren.flatMap clausePartTypes := by
    simp only [Tree.clauseTypes,List.filter_flatMap,List.map_flatMap]
    rfl
  rw [parts]
  constructor
  · intro clause
    cases clause with
    | types kind listed =>
      rw [if_pos (List.contains_iff_mem.mpr kind), (listed_iff clausePart_iff).mp listed]
    | other kind => rw [if_neg fun holds => kind (List.contains_iff_mem.mp holds)]
  · rintro rfl
    split
    next kind => exact .types (List.contains_iff_mem.mp kind) ((listed_iff clausePart_iff).mpr rfl)
    next kind => exact .other fun member => kind (List.contains_iff_mem.mpr member)

theorem listed_clause_iff {kinds : List Kind} {types : List TypeRef} :
    Listed (Clause kinds) t.namedChildren types ↔ t.typesOfClauses kinds = types := by
  rw [listed_iff (clause_iff kinds), Tree.typesOfClauses, flatMap_filter_eq]

/-! ## Parameters -/

inductive SaysDimensions (t : Tree) : String → Prop
  | text {dimensions} (first : HasRole t .dimensions dimensions) :
      SaysDimensions t ((dimensions.map fun d => Text.removeBlanks d.text).getD "")

/-- A parameter that takes any number of arguments has its type in front, behind its modifiers. -/
def IsSpreadType (t : Tree) : Prop :=
  t.kind ≠ .modifiers ∧ t.isAnnotationUse = false ∧ t.isComment = false

inductive SaysSpreadName (t : Tree) : String → Prop
  | declared {d name} (first : HasKind t [.variableDeclarator] (some d)) (named : SaysName d name) :
      SaysSpreadName t name
  | absent (absent : HasKind t [.variableDeclarator] none) : SaysSpreadName t ""

/-- A receiver is no parameter. -/
inductive DeclaresParameter (t : Tree) : List Parameter → Prop
  | formal {type dimensions name} (kind : t.kind = .formalParameter)
      (typed : HasRole t .type (some type)) (behind : SaysDimensions t dimensions)
      (named : SaysName t name) :
      DeclaresParameter t [{
        type := { written := writtenText type.spots ++ dimensions, line := some (type.row + 1) }
        name := name
        line := some (t.row + 1)
        text := Text.trim t.text }]
  | spread {type name} (kind : t.kind = .spreadParameter)
      (typed : Leading IsSpreadType t.namedChildren (some type)) (named : SaysSpreadName t name) :
      DeclaresParameter t [{
        type := { written := writtenText type.spots, line := some (type.row + 1) }
        name := name
        line := some (t.row + 1)
        text := Text.trim t.text }]
  | untyped (kind : t.kind = .formalParameter) (absent : HasRole t .type none) : DeclaresParameter t []
  | bare (kind : t.kind = .spreadParameter) (absent : Leading IsSpreadType t.namedChildren none) :
      DeclaresParameter t []
  | other (formal : t.kind ≠ .formalParameter) (spread : t.kind ≠ .spreadParameter) :
      DeclaresParameter t []

inductive Parameters (t : Tree) : List Parameter → Prop
  | listed {ps parameters} (first : HasRole t .parameters (some ps))
      (listed : Listed DeclaresParameter ps.namedChildren parameters) : Parameters t parameters
  | absent (absent : HasRole t .parameters none) : Parameters t []

theorem saysDimensions_iff {dimensions : String} :
    SaysDimensions t dimensions ↔ ((t.child? .dimensions).map Tree.dimensionsText).getD "" = dimensions := by
  constructor
  · rintro ⟨first⟩
    rw [hasRole_iff.mp first]
    rfl
  · rintro rfl
    exact .text (hasRole_iff.mpr rfl)

theorem declaredType_eq (base : TypeRef) (t : Tree) :
    declaredType base t = { base with
      written := base.written ++ ((t.child? .dimensions).map Tree.dimensionsText).getD "" } := by
  unfold declaredType
  cases t.child? .dimensions <;> simp

theorem saysSpreadName_iff {name : String} :
    SaysSpreadName t name ↔
      ((t.namedChildren.find? (·.kind == .variableDeclarator)).map Tree.nameText).getD "" = name := by
  have first {o : Option Tree} :
      HasKind t [.variableDeclarator] o ↔ t.namedChildren.find? (·.kind == .variableDeclarator) = o :=
    leading_iff fun u => by simp
  constructor
  · intro named
    cases named with
    | declared found named => simp [first.mp found,saysName_iff.mp named]
    | absent absent => simp only [first.mp absent]; rfl
  · rintro rfl
    cases found : t.namedChildren.find? (·.kind == .variableDeclarator) with
    | none => exact .absent (first.mpr found)
    | some d => exact .declared (first.mpr found) (saysName_iff.mpr rfl)

theorem isSpreadType_iff {o : Option Tree} :
    Leading IsSpreadType t.namedChildren o ↔
      (t.namedChildren.find? fun c => c.kind != .modifiers && !c.isAnnotationUse && !c.isComment) = o :=
  leading_iff fun u => by simp [IsSpreadType,and_assoc]

theorem declaresParameter_iff (t : Tree) (ps : List Parameter) :
    DeclaresParameter t ps ↔ t.parameter?.toList = ps := by
  constructor
  · intro declares
    unfold Tree.parameter?
    cases declares with
    | formal kind typed behind named =>
      simp only [kind,hasRole_iff.mp typed,declaredType_eq,saysDimensions_iff.mp behind,
        saysName_iff.mp named,typeRef_eq]
      rfl
    | spread kind typed named =>
      simp only [kind,isSpreadType_iff.mp typed,saysSpreadName_iff.mp named,typeRef_eq]
      rfl
    | untyped kind absent => simp only [kind,hasRole_iff.mp absent]; rfl
    | bare kind absent => simp only [kind,isSpreadType_iff.mp absent]; rfl
    | other formal spread => split <;> first | contradiction | rfl
  · rintro rfl
    unfold Tree.parameter?
    split
    next kind =>
      cases typed : t.child? .type with
      | none => exact .untyped kind (hasRole_iff.mpr typed)
      | some type =>
        simp only [Option.map_some,declaredType_eq,typeRef_eq]
        exact .formal kind (hasRole_iff.mpr typed) (saysDimensions_iff.mpr rfl) (saysName_iff.mpr rfl)
    next kind =>
      cases typed : t.namedChildren.find? fun c =>
          c.kind != .modifiers && !c.isAnnotationUse && !c.isComment with
      | none => exact .bare kind (isSpreadType_iff.mpr typed)
      | some type =>
        simp only [Option.map_some,typeRef_eq]
        exact .spread kind (isSpreadType_iff.mpr typed) (saysSpreadName_iff.mpr rfl)
    next formal spread => exact .other formal spread

theorem parameters_iff {ps : List Parameter} : Parameters t ps ↔ t.parameterList = ps := by
  unfold Tree.parameterList
  constructor
  · intro parameters
    cases parameters with
    | listed first listed =>
      rw [listed_iff declaresParameter_iff] at listed
      simpa only [hasRole_iff.mp first,List.filterMap_eq_flatMap_toList] using listed
    | absent absent => rw [hasRole_iff.mp absent]
  · rintro rfl
    cases found : t.child? .parameters with
    | none => exact .absent (hasRole_iff.mpr found)
    | some ps =>
      refine .listed (hasRole_iff.mpr found) ((listed_iff declaresParameter_iff).mpr ?_)
      rw [← List.filterMap_eq_flatMap_toList]

/-! ## Constructs -/

def typeDeclarations : List (Kind × TypeKind) :=
  [(.classDeclaration,.ordinary),(.interfaceDeclaration,.interface),(.enumDeclaration,.enumeration),
    (.recordDeclaration,.record),(.annotationTypeDeclaration,.annotationType)]

structure DescribesType (t : Tree) (head : TypeHead) : Prop where
  kind : (t.kind,head.kind) ∈ typeDeclarations
  name : ∃ name, HasRole t .name (some name) ∧ head.name = name.text
  line : head.line = some (t.row + 1)
  typeParameters : TypeParameters t head.typeParameters
  supertypes : Listed (Clause [.superclass,.extendsInterfaces]) t.namedChildren head.supertypes
  interfaces : Listed (Clause [.superInterfaces]) t.namedChildren head.interfaces

/-- The return type, which a constructor has not. -/
inductive Returns (t : Tree) : Option TypeRef → Prop
  | typed {result type} (kind : t.kind ∈ [Kind.methodDeclaration,.annotationElementDeclaration])
      (first : HasRole t .type (some result)) (tells : SaysType result type) : Returns t (some type)
  | untyped (kind : t.kind ∈ [Kind.methodDeclaration,.annotationElementDeclaration])
      (absent : HasRole t .type none) : Returns t none
  | constructs (kind : t.kind ∈ [Kind.constructorDeclaration,.compactConstructorDeclaration]) :
      Returns t none

structure DescribesMethod (t : Tree) (head : MethodHead) : Prop where
  name : SaysName t head.name
  line : head.line = some (t.row + 1)
  typeParameters : TypeParameters t head.typeParameters
  returnType : Returns t head.returnType
  parameters : Parameters t head.parameters

/-- A construct says what its node says, with the line of the node and the text of its types. -/
inductive Describes (t : Tree) : Construct → Prop
  | type {head members} (describes : DescribesType t head) : Describes t (.type head members)
  | method {head body} (describes : DescribesMethod t head) : Describes t (.method head body)
  | creation {created type children} (kind : t.kind = .objectCreation)
      (first : HasRole t .type (some created)) (tells : SaysType created type) :
      Describes t (.creation type (some (t.row + 1)) children)

theorem shape_eq_type_iff {k : Kind} {kind : TypeKind} :
    k.shape = .type kind ↔ (k,kind) ∈ typeDeclarations := by
  constructor
  · intro shape
    cases k <;> cases shape <;> decide
  · have all : ∀ p ∈ typeDeclarations, p.1.shape = .type p.2 := by decide
    exact all (k,kind)

theorem shape_eq_method_iff {k : Kind} {hasReturnType : Bool} :
    k.shape = .method hasReturnType ↔
      k ∈ (if hasReturnType = true then [Kind.methodDeclaration,.annotationElementDeclaration]
        else [.constructorDeclaration,.compactConstructorDeclaration]) := by
  cases k <;> cases hasReturnType <;> decide

theorem shape_eq_creation_iff {k : Kind} : k.shape = .creation ↔ k = .objectCreation := by
  cases k <;> decide

theorem describesType_typeHead {kind : TypeKind} {name : Tree} (shape : t.kind.shape = .type kind)
    (named : t.child? .name = some name) : DescribesType t (t.typeHead kind name) where
  kind := shape_eq_type_iff.mp shape
  name := ⟨name,hasRole_iff.mpr named,rfl⟩
  line := rfl
  typeParameters := typeParameters_iff.mpr rfl
  supertypes := listed_clause_iff.mpr rfl
  interfaces := listed_clause_iff.mpr rfl

theorem returns_iff {type : Option TypeRef} :
    Returns t type ↔ ∃ hasReturnType, t.kind.shape = .method hasReturnType ∧
      (t.methodHead hasReturnType).returnType = type := by
  constructor
  · intro returns
    cases returns with
    | typed kind first tells =>
      refine ⟨true,shape_eq_method_iff.mpr kind,?_⟩
      simp [Tree.methodHead,hasRole_iff.mp first,saysType_iff.mp tells]
    | untyped kind absent =>
      refine ⟨true,shape_eq_method_iff.mpr kind,?_⟩
      simp [Tree.methodHead,hasRole_iff.mp absent]
    | constructs kind => exact ⟨false,shape_eq_method_iff.mpr kind,rfl⟩
  · rintro ⟨hasReturnType,shape,rfl⟩
    rw [shape_eq_method_iff] at shape
    cases hasReturnType with
    | false => exact .constructs shape
    | true =>
      simp only [Tree.methodHead,if_true]
      cases typed : t.child? .type with
      | none => exact .untyped shape (hasRole_iff.mpr typed)
      | some result => exact .typed shape (hasRole_iff.mpr typed) (saysType_iff.mpr rfl)

theorem describesMethod_methodHead {hasReturnType : Bool}
    (shape : t.kind.shape = .method hasReturnType) :
    DescribesMethod t (t.methodHead hasReturnType) where
  name := saysName_iff.mpr rfl
  line := rfl
  typeParameters := typeParameters_iff.mpr rfl
  returnType := returns_iff.mpr ⟨hasReturnType,shape,rfl⟩
  parameters := parameters_iff.mpr rfl

/-- The description of a type leaves nothing about its head open. -/
theorem DescribesType.eq_typeHead {head : TypeHead} (describes : DescribesType t head) :
    ∃ kind name, t.kind.shape = .type kind ∧ t.child? .name = some name ∧
      head = t.typeHead kind name := by
  obtain ⟨name,named,text⟩ := describes.name
  refine ⟨head.kind,name,shape_eq_type_iff.mpr describes.kind,hasRole_iff.mp named,?_⟩
  have parameters := typeParameters_iff.mp describes.typeParameters
  have supertypes := listed_clause_iff.mp describes.supertypes
  have interfaces := listed_clause_iff.mp describes.interfaces
  have line := describes.line
  cases head
  simp_all [Tree.typeHead,Tree.line]

theorem DescribesMethod.eq_methodHead {head : MethodHead} (describes : DescribesMethod t head) :
    ∃ hasReturnType, t.kind.shape = .method hasReturnType ∧ head = t.methodHead hasReturnType := by
  obtain ⟨hasReturnType,shape,returned⟩ := returns_iff.mp describes.returnType
  refine ⟨hasReturnType,shape,?_⟩
  have name := saysName_iff.mp describes.name
  have typeParameters := typeParameters_iff.mp describes.typeParameters
  have parameters := parameters_iff.mp describes.parameters
  have line := describes.line
  cases head
  simp_all [Tree.methodHead,Tree.line]

end Heads

end Coupling.Source
