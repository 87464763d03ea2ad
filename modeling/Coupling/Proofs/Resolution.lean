import Coupling.Proofs.First
import Coupling.Resolution

/-! Which of several origins of a simple name prevails. Each origin is described on its own, by the place of
a declaration or an import among those of its kind; their order alone decides between them. Imports of
different kinds do not see each other, and static ones are not seen at all. -/
namespace Coupling

/-! ## Imports by kind -/

namespace Import

def isSingle (i : Import) : Bool := !i.isStatic && !i.onDemand

def isWide (i : Import) : Bool := !i.isStatic && i.onDemand

end Import

/-- The same imports of either kind, in the same order, with any others between them. -/
structure SameImports (imports imports' : List Import) : Prop where
  single : imports.filter Import.isSingle = imports'.filter Import.isSingle
  wide : imports.filter Import.isWide = imports'.filter Import.isWide

/-- Static imports are of neither kind. -/
theorem SameImports.of_static {imports imports' : List Import}
    (same : imports.filter (!·.isStatic) = imports'.filter (!·.isStatic)) :
    SameImports imports imports' := by
  have narrow (p : Import → Bool) : ∀ is : List Import,
      is.filter (fun i => !i.isStatic && p i) = (is.filter (!·.isStatic)).filter p := by
    intro is
    rw [List.filter_filter]
    exact List.filter_congr fun i _ => Bool.and_comm ..
  refine ⟨?_,?_⟩
  · exact (narrow (!·.onDemand) _).trans ((congrArg _ same).trans (narrow (!·.onDemand) _).symm)
  · exact (narrow (·.onDemand) _).trans ((congrArg _ same).trans (narrow (·.onDemand) _).symm)

section Congruence

variable {o : Outline} {imports : List Import}

theorem singleImport?_congr (same : o.imports.filter Import.isSingle = imports.filter Import.isSingle)
    (name : String) : { o with imports := imports }.singleImport? name = o.singleImport? name := by
  have found (is : List Import) : is.find? (fun i => !i.isStatic && !i.onDemand &&
      Text.lastSegment i.path == name) =
      (is.filter Import.isSingle).find? fun i => Text.lastSegment i.path == name := by
    rw [List.find?_filter]
    congr 1
    funext i
    rw [Bool.eq_iff_iff]
    simp [Import.isSingle]
  simp only [Outline.singleImport?,found,same]

theorem onDemandPackages_congr (same : o.imports.filter Import.isWide = imports.filter Import.isWide) :
    { o with imports := imports }.onDemandPackages = o.onDemandPackages :=
  congrArg (List.map Import.path) same.symm

/-- A name means the same under the same imports, whatever stands between them. -/
theorem resolveSimple_congr (same : SameImports o.imports imports) (index : SourceIndex)
    (name : String) :
    resolveSimple index { o with imports := imports } name = resolveSimple index o name := by
  have single := singleImport?_congr same.single name
  have wide := onDemandPackages_congr same.wide
  simp only [resolveSimple,single,SourceIndex.onDemand?,platform?,wide]
  rfl

theorem resolver_congr (same : SameImports o.imports imports) (index : SourceIndex) (r : TypeRef) :
    resolver index { o with imports := imports } r = resolver index o r := by
  simp only [resolver,resolveName,resolveSimple_congr same]

end Congruence

/-! ## Origins of a name -/

inductive Origin
  | declaration
  | singleImport
  | ownPackage
  | onDemandImport
  | language
  /-- A package of the platform whose types are not listed. -/
  | platform
  deriving DecidableEq, Repr

/-- An origin prevails over those of higher rank. -/
def Origin.rank : Origin → Nat
  | declaration => 0
  | singleImport => 1
  | ownPackage => 2
  | onDemandImport => 3
  | language => 4
  | platform => 5

def origins : List Origin :=
  [.declaration, .singleImport, .ownPackage, .onDemandImport, .language, .platform]

theorem mem_origins (origin : Origin) : origin ∈ origins := by
  cases origin <;> decide

/-- The origins are listed by rank. -/
theorem mem_stronger_iff {stronger weaker : List Origin} {origin : Origin}
    (split : origins = stronger ++ origin :: weaker) (other : Origin) :
    other ∈ stronger ↔ other.rank < origin.rank := by
  have sorted : origins.Pairwise fun a b => a.rank < b.rank := by decide
  rw [split, List.pairwise_append] at sorted
  obtain ⟨-,behind,across⟩ := sorted
  constructor
  · exact fun member => across other member origin (List.mem_cons_self ..)
  · intro less
    rcases List.mem_append.mp (split ▸ mem_origins other) with before | later
    · exact before
    · rcases List.mem_cons.mp later with rfl | after
      · omega
      · have greater := (List.pairwise_cons.mp behind).1 other after
        omega

/-- What a name stands for as far as one origin goes, if that origin has it. -/
def Claims (index : SourceIndex) (o : Outline) (name full : String) : Origin → Prop
  | .declaration => First (fun type => Text.lastSegment type = name) o.declaredTypes full
  | .singleImport => ∃ i, i.path = full ∧
      First (fun i => i.isSingle = true ∧ Text.lastSegment i.path = name) o.imports i
  | .ownPackage => o.qualify name = full ∧ index.contains full = true
  | .onDemandImport => ∃ i, i.path ++ "." ++ name = full ∧
      First (fun i => i.isWide = true ∧ (index.contains (i.path ++ "." ++ name) = true ∨
        StandardLibrary.contains i.path name = true)) o.imports i
  | .language => "java.lang." ++ name = full ∧ StandardLibrary.contains "java.lang" name = true
  | .platform => looksLikeType name = true ∧ ∃ i, i.path ++ "." ++ name = full ∧
      First (fun i => i.isWide = true ∧ StandardLibrary.isPlatformPackage i.path = true) o.imports i

def candidate (index : SourceIndex) (o : Outline) (name : String) : Origin → Option String
  | .declaration => o.declaredType? name
  | .singleImport => o.singleImport? name
  | .ownPackage => index.samePackage? o name
  | .onDemandImport => index.onDemand? o name
  | .language => StandardLibrary.langType? name
  | .platform => platform? o name

theorem resolveSimple_eq_findSome? (index : SourceIndex) (o : Outline) (name : String) :
    resolveSimple index o name = origins.findSome? (candidate index o name) := by
  have next (origin : Origin) (rest : List Origin) :
      (origin :: rest).findSome? (candidate index o name) =
        (candidate index o name origin).orElse fun _ => rest.findSome? (candidate index o name) := by
    rw [List.findSome?_cons]
    cases candidate index o name origin <;> rfl
  simp only [resolveSimple,origins,next,List.findSome?_nil,candidate]
  cases platform? o name <;> rfl

/-- The first package that is imported on demand and has a property, found among all imports. -/
theorem find?_onDemandPackages {o : Outline} {p : String → Bool} {name full : String} :
    (o.onDemandPackages.find? p).map (· ++ "." ++ name) = some full ↔
      ∃ i, i.path ++ "." ++ name = full ∧
        First (fun i => i.isWide = true ∧ p i.path = true) o.imports i := by
  have found : o.onDemandPackages.find? p =
      (o.imports.find? fun i => decide (i.isWide = true ∧ p i.path = true)).map Import.path := by
    rw [Outline.onDemandPackages, List.find?_map, List.find?_filter]
    rfl
  simp only [found,Option.map_map,Option.map_eq_some_iff,first_iff,decide_eq_true_eq,
    Function.comp_apply,and_comm]

theorem candidate_eq_some_iff {index : SourceIndex} {o : Outline} {name full : String}
    {origin : Origin} :
    candidate index o name origin = some full ↔ Claims index o name full origin := by
  cases origin with
  | declaration => simp [candidate,Outline.declaredType?,first_iff,Claims]
  | singleImport =>
    simp only [candidate,Outline.singleImport?,Option.map_eq_some_iff,first_iff,Claims]
    simp [Import.isSingle,and_comm]
  | ownPackage =>
    simp only [candidate,SourceIndex.samePackage?,Claims]
    split <;> grind
  | onDemandImport =>
    simp only [candidate,SourceIndex.onDemand?,find?_onDemandPackages,Claims,Bool.or_eq_true]
  | language =>
    simp only [candidate,StandardLibrary.langType?,Claims]
    split <;> simp_all
  | platform =>
    simp only [candidate,platform?,Claims]
    split
    · rename_i capital
      simp only [find?_onDemandPackages,capital,true_and]
    · simp_all

theorem candidate_eq_none_iff {index : SourceIndex} {o : Outline} {name : String} {origin : Origin} :
    candidate index o name origin = none ↔ ∀ full, ¬Claims index o name full origin := by
  simp only [← candidate_eq_some_iff,Option.eq_none_iff_forall_ne_some]

/-- Some origin has the name, and none that prevails over it has. -/
def Prevails (index : SourceIndex) (o : Outline) (name full : String) (origin : Origin) : Prop :=
  Claims index o name full origin ∧
    ∀ other : Origin, other.rank < origin.rank → ∀ full', ¬Claims index o name full' other

theorem resolveSimple_eq_some_iff {index : SourceIndex} {o : Outline} {name full : String} :
    resolveSimple index o name = some full ↔ ∃ origin, Prevails index o name full origin := by
  simp only [resolveSimple_eq_findSome?,List.findSome?_eq_some_iff,candidate_eq_some_iff,
    candidate_eq_none_iff,Prevails]
  constructor
  · rintro ⟨stronger,origin,weaker,split,claims,others⟩
    exact ⟨origin,claims,fun other less => others other ((mem_stronger_iff split other).mpr less)⟩
  · rintro ⟨origin,claims,others⟩
    obtain ⟨stronger,weaker,split⟩ := List.append_of_mem (mem_origins origin)
    exact ⟨stronger,origin,weaker,split,claims,
      fun other member => others other ((mem_stronger_iff split other).mp member)⟩

/-- Only a declaration of the unit itself prevails over an imported type. -/
theorem prevails_imported {o : Outline} {name : String} {i : Import}
    (first : First (fun i => i.isSingle = true ∧ Text.lastSegment i.path = name) o.imports i)
    (undeclared : ∀ type ∈ o.declaredTypes, Text.lastSegment type ≠ name) (index : SourceIndex) :
    Prevails index o name i.path .singleImport := by
  refine ⟨⟨i,rfl,first⟩,?_⟩
  intro other stronger full claims
  cases other with
  | declaration =>
    have declared : First (fun type => Text.lastSegment type = name) o.declaredTypes full := claims
    exact undeclared full declared.mem declared.1
  | _ => simp [Origin.rank] at stronger

theorem resolveSimple_eq_none_iff {index : SourceIndex} {o : Outline} {name : String} :
    resolveSimple index o name = none ↔ ∀ origin full, ¬Claims index o name full origin := by
  simp only [resolveSimple_eq_findSome?,List.findSome?_eq_none_iff,candidate_eq_none_iff]
  exact ⟨fun none origin => none origin (mem_origins origin),fun none origin _ => none origin⟩

/-! ## References -/

structure TypeRef.IsNamed (r : TypeRef) : Prop where
  noArray : r.isArray = false
  nonempty : r.erased ≠ ""
  noVoid : r.erased ≠ "void"
  noPrimitive : isPrimitive r.erased = false

theorem resolver_of_named {r : TypeRef} (named : r.IsNamed) (index : SourceIndex) (o : Outline) :
    resolver index o r = resolveName index o r.erased := by
  simp [resolver,named.noArray,named.nonempty,named.noVoid,named.noPrimitive]

theorem resolver_of_not_named {r : TypeRef} (nameless : ¬r.IsNamed) (index : SourceIndex) (o : Outline) :
    resolver index o r = none := by
  unfold resolver
  split
  · rfl
  · rename_i named
    simp only [Bool.or_eq_true,not_or,Bool.not_eq_true,String.isEmpty_eq_false_iff,
      beq_eq_false_iff_ne] at named
    obtain ⟨⟨⟨noArray,nonempty⟩,noVoid⟩,noPrimitive⟩ := named
    exact absurd ⟨noArray,nonempty,noVoid,noPrimitive⟩ nameless

structure TypeRef.IsSimple (r : TypeRef) (name : String) : Prop where
  erased : r.erased = name
  undotted : '.' ∉ name.toList
  nonempty : name ≠ ""
  noVoid : name ≠ "void"
  noPrimitive : isPrimitive name = false
  noArray : r.isArray = false

theorem splitFirstChars_eq_none {cs : List Char} (undotted : '.' ∉ cs) : splitFirstChars cs = none := by
  induction cs with
  | nil => rfl
  | cons c rest ih =>
    have other : c ≠ '.' := fun point => undotted (by simp [point])
    simp [splitFirstChars,other,ih fun later => undotted (List.mem_cons_of_mem c later)]

theorem resolveName_of_undotted {name : String} (undotted : '.' ∉ name.toList) (index : SourceIndex)
    (o : Outline) : resolveName index o name = resolveSimple index o name := by
  simp [resolveName,splitFirst?,splitFirstChars_eq_none undotted]

theorem TypeRef.IsSimple.isNamed {r : TypeRef} {name : String} (simple : r.IsSimple name) : r.IsNamed := by
  obtain ⟨rfl,-,nonempty,noVoid,noPrimitive,noArray⟩ := simple
  exact ⟨noArray,nonempty,noVoid,noPrimitive⟩

theorem resolver_of_simple {r : TypeRef} {name : String} (simple : r.IsSimple name)
    (index : SourceIndex) (o : Outline) : resolver index o r = resolveSimple index o name := by
  rw [resolver_of_named simple.isNamed, simple.erased, resolveName_of_undotted simple.undotted]

/-- What else is written without a point has no full name. -/
theorem resolver_of_not_simple {r : TypeRef} (undotted : '.' ∉ r.erased.toList)
    (other : ¬r.IsSimple r.erased) (index : SourceIndex) (o : Outline) : resolver index o r = none := by
  apply resolver_of_not_named
  rintro ⟨noArray,nonempty,noVoid,noPrimitive⟩
  exact other ⟨rfl,undotted,nonempty,noVoid,noPrimitive,noArray⟩

/-! ## Changes that do not matter -/

section Changes

variable {index : SourceIndex} {o : Outline} {name full : String} {imports : List Import}

theorem claims_singleImport_congr (index' : SourceIndex)
    (same : o.imports.filter Import.isSingle = imports.filter Import.isSingle) :
    Claims index' { o with imports := imports } name full .singleImport ↔
      Claims index o name full .singleImport := by
  rw [← candidate_eq_some_iff, ← candidate_eq_some_iff]
  simp only [candidate,singleImport?_congr same]

/-- A declared type is the same one under all imports and beside all units. -/
theorem Prevails.declaration (prevails : Prevails index o name full .declaration)
    (index' : SourceIndex) (imports : List Import) :
    Prevails index' { o with imports := imports } name full .declaration :=
  ⟨prevails.1,fun other less => by cases other <;> simp [Origin.rank] at less⟩

/-- An imported type is the same one beside all units, and with any packages imported on demand. -/
theorem Prevails.singleImport (prevails : Prevails index o name full .singleImport)
    (index' : SourceIndex)
    (same : o.imports.filter Import.isSingle = imports.filter Import.isSingle) :
    Prevails index' { o with imports := imports } name full .singleImport := by
  refine ⟨(claims_singleImport_congr index' same).mpr prevails.1,?_⟩
  intro other less
  cases other with
  | declaration => exact prevails.2 .declaration less
  | _ => simp [Origin.rank] at less

/-- A type of the own package is the same one with any packages imported on demand. -/
theorem Prevails.ownPackage (prevails : Prevails index o name full .ownPackage)
    (same : o.imports.filter Import.isSingle = imports.filter Import.isSingle) :
    Prevails index { o with imports := imports } name full .ownPackage := by
  refine ⟨prevails.1,?_⟩
  intro other less
  cases other with
  | declaration => exact prevails.2 .declaration less
  | singleImport =>
    intro full' claims
    exact prevails.2 .singleImport less full' ((claims_singleImport_congr index same).mp claims)
  | _ => simp [Origin.rank] at less

/-- A type of a package that is imported on demand is the same one with more of them behind. -/
theorem Prevails.onDemandImport (prevails : Prevails index o name full .onDemandImport)
    {more : List Import} (plural : ∀ i ∈ more, i.isSingle = false) :
    Prevails index { o with imports := o.imports ++ more } name full .onDemandImport := by
  have same : o.imports.filter Import.isSingle = (o.imports ++ more).filter Import.isSingle := by
    have none : more.filter Import.isSingle = [] :=
      List.filter_eq_nil_iff.mpr fun i member => by simp [plural i member]
    rw [List.filter_append, none, List.append_nil]
  obtain ⟨⟨i,path,first⟩,others⟩ := prevails
  refine ⟨⟨i,path,first.append more⟩,?_⟩
  intro other less
  cases other with
  | declaration => exact others .declaration less
  | singleImport =>
    intro full' claims
    exact others .singleImport less full' ((claims_singleImport_congr index same).mp claims)
  | ownPackage => exact others .ownPackage less
  | _ => simp [Origin.rank] at less

end Changes

/-- Imports count by kind and order alone, static ones not at all, and the meaning of a simple name is
settled by the first origin that has it. A declared type prevails over all imports and units, an imported one
over all units and imports on demand, one of the own package over all imports on demand, and one that is
imported on demand over all that is imported so behind it. -/
theorem import_precedence (index : SourceIndex) (o : Outline) :
    (∀ imports, SameImports o.imports imports → ∀ r,
      resolver index { o with imports := imports } r = resolver index o r) ∧
    (∀ imports, o.imports.filter (!·.isStatic) = imports.filter (!·.isStatic) → ∀ r,
      resolver index { o with imports := imports } r = resolver index o r) ∧
    (∀ r name, r.IsSimple name → resolver index o r = resolveSimple index o name) ∧
    (∀ r, '.' ∉ r.erased.toList → ¬r.IsSimple r.erased → resolver index o r = none) ∧
    ∀ name,
      (∀ full, resolveSimple index o name = some full ↔ ∃ origin, Prevails index o name full origin) ∧
      (resolveSimple index o name = none ↔ ∀ origin full, ¬Claims index o name full origin) ∧
      (∀ full, Prevails index o name full .declaration → ∀ index' imports,
        resolveSimple index' { o with imports := imports } name = some full) ∧
      (∀ full, Prevails index o name full .singleImport → ∀ index' imports,
        o.imports.filter Import.isSingle = imports.filter Import.isSingle →
        resolveSimple index' { o with imports := imports } name = some full) ∧
      (∀ full, Prevails index o name full .ownPackage → ∀ imports,
        o.imports.filter Import.isSingle = imports.filter Import.isSingle →
        resolveSimple index { o with imports := imports } name = some full) ∧
      (∀ full, Prevails index o name full .onDemandImport → ∀ more : List Import,
        (∀ i ∈ more, i.isSingle = false) →
        resolveSimple index { o with imports := o.imports ++ more } name = some full) := by
  refine ⟨fun imports same => resolver_congr same index,
    fun imports same => resolver_congr (.of_static same) index,
    fun r name simple => resolver_of_simple simple index o,
    fun r undotted other => resolver_of_not_simple undotted other index o,?_⟩
  intro name
  refine ⟨fun full => resolveSimple_eq_some_iff,resolveSimple_eq_none_iff,?_,?_,?_,?_⟩
  · intro full prevails index' imports
    exact resolveSimple_eq_some_iff.mpr ⟨_,prevails.declaration index' imports⟩
  · intro full prevails index' imports same
    exact resolveSimple_eq_some_iff.mpr ⟨_,prevails.singleImport index' same⟩
  · intro full prevails imports same
    exact resolveSimple_eq_some_iff.mpr ⟨_,prevails.ownPackage same⟩
  · intro full prevails more plural
    exact resolveSimple_eq_some_iff.mpr ⟨_,prevails.onDemandImport plural⟩

/-- A unit with imports of all kinds. One of them has the name of a type that the unit declares, another
one that of a type in its package. -/
def crowded : Outline where
  package := some "a"
  imports := [⟨"x.Peer",true,false,none⟩,⟨"c",false,true,none⟩,⟨"b.Peer",false,false,none⟩,
    ⟨"b.Own",false,false,none⟩,⟨"java.util",false,true,none⟩]
  declarations := [.type ⟨.ordinary,"Own",none,[],[],[]⟩ []]

def crowdedIndex : SourceIndex := .ofPaths [⟨"a/Peer.java"⟩,⟨"c/Peer.java"⟩,⟨"c/Own.java"⟩]

def rearrangedImports : List Import :=
  [⟨"b.Peer",false,false,none⟩,⟨"c",false,true,none⟩,⟨"b.Own",false,false,none⟩,
    ⟨"java.util",false,true,none⟩]

/-- The declared type prevails over the import, and the imported one beside any units, also when the
imports are rearranged and the static one is left out. -/
theorem import_precedence_crowded :
    Prevails crowdedIndex crowded "Own" "a.Own" .declaration ∧
    (∀ index imports, resolveSimple index { crowded with imports := imports } "Own" = some "a.Own") ∧
    Prevails crowdedIndex crowded "Peer" "b.Peer" .singleImport ∧
    (∀ index, resolveSimple index { crowded with imports := rearrangedImports } "Peer" =
      some "b.Peer") ∧
    SameImports crowded.imports rearrangedImports ∧
    ∀ r, resolver crowdedIndex { crowded with imports := rearrangedImports } r =
      resolver crowdedIndex crowded r := by
  have declares : Prevails crowdedIndex crowded "Own" "a.Own" .declaration := by
    refine ⟨candidate_eq_some_iff.mp rfl,?_⟩
    intro other less
    cases other <;> simp [Origin.rank] at less
  have imports : Prevails crowdedIndex crowded "Peer" "b.Peer" .singleImport := by
    refine ⟨candidate_eq_some_iff.mp rfl,?_⟩
    intro other less
    cases other with
    | declaration => exact candidate_eq_none_iff.mp rfl
    | _ => simp [Origin.rank] at less
  have same : SameImports crowded.imports rearrangedImports := ⟨rfl,rfl⟩
  obtain ⟨rearranged,-,-,-,meanings⟩ := import_precedence crowdedIndex crowded
  obtain ⟨-,-,declared,-⟩ := meanings "Own"
  obtain ⟨-,-,-,imported,-⟩ := meanings "Peer"
  exact ⟨declares,fun index imports => declared _ declares index imports,imports,
    fun index => imported _ imports index _ rfl,same,rearranged _ same⟩

end Coupling
