import Coupling.Proofs.Qualification
import Coupling.Proofs.SourceIndex

/-! Resolution beside more units. A larger index can lead a name away from where it led before, at the whole
of a dotted name or at its first segment, but then to a name that the larger index has gained; what was
resolved stays resolved. -/
namespace Coupling

/-! ## Indices -/

namespace SourceIndex

def Within (small large : SourceIndex) : Prop :=
  ∀ name, small.contains name = true → large.contains name = true

def Gains (small large : SourceIndex) (name : String) : Prop :=
  large.contains name = true ∧ small.contains name = false

theorem ofPaths_within {fewer more : List Path} (within : ∀ p ∈ fewer, p ∈ more) :
    (ofPaths fewer).Within (ofPaths more) := by
  intro name known
  obtain ⟨p,member,name⟩ := contains_ofPaths.mp known
  exact contains_ofPaths.mpr ⟨p,within p member,name⟩

/-- A name is gained through a unit that is new. -/
theorem exists_path_of_gains {fewer more : List Path} {name : String}
    (gains : (ofPaths fewer).Gains (ofPaths more) name) :
    ∃ p ∈ more, p ∉ fewer ∧ name ∈ namesOf p := by
  obtain ⟨known,unknown⟩ := gains
  obtain ⟨p,member,called⟩ := contains_ofPaths.mp known
  refine ⟨p,member,?_,called⟩
  intro old
  rw [contains_ofPaths.mpr ⟨p,old,called⟩] at unknown
  cases unknown

theorem Within.knows {small large : SourceIndex} (within : small.Within large) {name : String}
    (known : small.knows name = true) : large.knows name = true := by
  simp only [SourceIndex.knows,Bool.or_eq_true] at known ⊢
  exact known.imp_left (within name)

/-- The tables of the standard library are the same beside both. -/
theorem gains_of_knows {small large : SourceIndex} {name : String} (known : large.knows name = true)
    (unknown : small.knows name = false) : small.Gains large name := by
  simp only [SourceIndex.knows,Bool.or_eq_true,Bool.or_eq_false_iff] at known unknown
  obtain ⟨unknown,unlisted⟩ := unknown
  refine ⟨known.resolve_right ?_,unknown⟩
  rw [unlisted]
  simp

end SourceIndex

/-! ## Origins -/

theorem Origin.eq_of_rank {a b : Origin} (same : a.rank = b.rank) : a = b := by
  cases a <;> cases b <;> simp_all [rank]

section Growth

variable {small large : SourceIndex} {o : Outline} {name full : String} {origin : Origin}

theorem Claims.unique {index : SourceIndex} {full' : String} (claims : Claims index o name full origin)
    (claims' : Claims index o name full' origin) : full' = full := by
  have first := candidate_eq_some_iff.mpr claims
  have second := candidate_eq_some_iff.mpr claims'
  exact Option.some.inj (second.symm.trans first)

/-- An origin that has the name has it beside more units, though perhaps another one. -/
theorem Claims.grow (claims : Claims small o name full origin) (within : small.Within large) :
    ∃ full', Claims large o name full' origin := by
  cases origin with
  | declaration => exact ⟨full,claims⟩
  | singleImport => exact ⟨full,claims⟩
  | ownPackage => exact ⟨full,claims.1,within full claims.2⟩
  | onDemandImport =>
    obtain ⟨i,-,first⟩ := claims
    obtain ⟨wide,has⟩ := first.1
    have again : ∃ i ∈ o.imports, i.isWide = true ∧ (large.contains (i.path ++ "." ++ name) = true ∨
        StandardLibrary.contains i.path name = true) := ⟨i,first.mem,wide,has.imp_left (within _)⟩
    obtain ⟨i',first'⟩ := exists_first again
    exact ⟨_,i',rfl,first'⟩
  | language => exact ⟨full,claims⟩
  | platform => exact ⟨full,claims⟩

/-- What an origin has beside more units it had before, unless it is gained. -/
theorem Claims.shrink (claims : Claims large o name full origin) (within : small.Within large) :
    Claims small o name full origin ∨ small.Gains large full := by
  cases origin with
  | declaration => exact .inl claims
  | singleImport => exact .inl claims
  | ownPackage =>
    obtain ⟨path,known⟩ := claims
    cases before : small.contains full with
    | true => exact .inl ⟨path,before⟩
    | false => exact .inr ⟨known,before⟩
  | onDemandImport =>
    obtain ⟨i,rfl,⟨wide,has⟩,front,back,split,others⟩ := claims
    by_cases had : small.contains (i.path ++ "." ++ name) = true ∨
        StandardLibrary.contains i.path name = true
    · refine .inl ⟨i,rfl,⟨wide,had⟩,front,back,split,?_⟩
      intro other earlier has
      exact others other earlier ⟨has.1,has.2.imp_left (within _)⟩
    · rw [not_or, Bool.not_eq_true] at had
      exact .inr ⟨has.resolve_right had.2,had.1⟩
  | language => exact .inl claims
  | platform => exact .inl claims

/-- A name that has a meaning keeps it beside more units, or takes one that is gained: the stronger of two
origins is the same before and after, if nothing is gained. -/
theorem Prevails.grow (prevails : Prevails small o name full origin) (within : small.Within large) :
    ∃ full' origin', Prevails large o name full' origin' ∧ (full' = full ∨ small.Gains large full') := by
  obtain ⟨kept,claims⟩ := prevails.1.grow within
  have resolved : resolveSimple large o name ≠ none := by
    intro none
    exact resolveSimple_eq_none_iff.mp none origin kept claims
  obtain ⟨full',found⟩ := Option.ne_none_iff_exists'.mp resolved
  obtain ⟨origin',prevails'⟩ := resolveSimple_eq_some_iff.mp found
  refine ⟨full',origin',prevails',?_⟩
  rcases prevails'.1.shrink within with old | gained
  · have same : origin'.rank = origin.rank := by
      apply Nat.le_antisymm
      · apply Nat.le_of_not_lt
        exact fun stronger => prevails'.2 origin stronger kept claims
      · apply Nat.le_of_not_lt
        exact fun stronger => prevails.2 origin' stronger full' old
    obtain rfl := Origin.eq_of_rank same
    exact .inl (prevails.1.unique old)
  · exact .inr gained

/-- A full name that begins with a gained one. -/
def Diverted (small large : SourceIndex) (full : String) : Prop :=
  ∃ known, small.Gains large known ∧ (full = known ∨ ∃ members, full = known ++ "." ++ members)

/-- A dotted name can be led away as a whole or at its first segment. -/
theorem Denotes.grow (denotes : Denotes small o name full) (within : small.Within large) :
    ∃ full', Denotes large o name full' ∧ (full' = full ∨ Diverted small large full') := by
  cases denotes with
  | known undotted known => exact ⟨_,.known undotted (within.knows known),.inl rfl⟩
  | @member outer members base _ undotted unknown prevails =>
    cases known : large.knows (outer ++ "." ++ members) with
    | true =>
      have gains := SourceIndex.gains_of_knows known unknown
      exact ⟨_,.known undotted known,.inr ⟨_,gains,.inl rfl⟩⟩
    | false =>
      obtain ⟨base',origin',prevails',change⟩ := prevails.grow within
      refine ⟨_,.member undotted known prevails',?_⟩
      rcases change with rfl | gains
      · exact .inl rfl
      · exact .inr ⟨base',gains,.inr ⟨members,rfl⟩⟩
  | simple undotted prevails =>
    obtain ⟨full',origin',prevails',change⟩ := prevails.grow within
    refine ⟨full',.simple undotted prevails',?_⟩
    exact change.imp_right fun gains => ⟨full',gains,.inl rfl⟩

/-- The unit itself says what the name stands for: it declares a type of that name, or imports one. -/
def Outline.Settles (o : Outline) (name : String) : Prop :=
  (∃ type ∈ o.declaredTypes, Text.lastSegment type = name) ∨
    ∃ i ∈ o.imports, i.isSingle = true ∧ Text.lastSegment i.path = name

/-- What the unit says does not depend on other units. -/
theorem resolveSimple_of_settles (settles : o.Settles name) :
    ∃ full, ∀ index, resolveSimple index o name = some full := by
  by_cases declared : ∃ type ∈ o.declaredTypes, Text.lastSegment type = name
  · obtain ⟨full,first⟩ := exists_first declared
    refine ⟨full,fun index => resolveSimple_eq_some_iff.mpr ⟨.declaration,first,?_⟩⟩
    intro other stronger
    simp [Origin.rank] at stronger
  · obtain ⟨i,first⟩ := exists_first (settles.resolve_left declared)
    have undeclared : ∀ type ∈ o.declaredTypes, Text.lastSegment type ≠ name :=
      fun type member same => declared ⟨type,member,same⟩
    exact ⟨i.path,fun index => resolveSimple_eq_some_iff.mpr ⟨_,prevails_imported first undeclared index⟩⟩

end Growth

/-- More units never take a resolved reference back. Its full name changes only into one that begins with a
name of a unit that is new, and does not change at all if the unit declares or imports a type of that simple
name. -/
theorem resolution_grows (o : Outline) (r : TypeRef) (fewer more : List Path)
    (within : ∀ p ∈ fewer, p ∈ more) :
    (∀ full, resolver (.ofPaths fewer) o r = some full →
      ∃ full', resolver (.ofPaths more) o r = some full' ∧
        (full' = full ∨ ∃ p ∈ more, p ∉ fewer ∧ ∃ known ∈ SourceIndex.namesOf p,
          full' = known ∨ ∃ members, full' = known ++ "." ++ members)) ∧
    ('.' ∉ r.erased.toList → o.Settles r.erased →
      resolver (.ofPaths more) o r = resolver (.ofPaths fewer) o r) := by
  constructor
  · intro full resolved
    obtain ⟨named,denotes⟩ := resolver_eq_some_iff.mp resolved
    obtain ⟨full',denotes',change⟩ := denotes.grow (SourceIndex.ofPaths_within within)
    refine ⟨full',resolver_eq_some_iff.mpr ⟨named,denotes'⟩,?_⟩
    rcases change with same | ⟨known,gains,leads⟩
    · exact .inl same
    · obtain ⟨p,member,new,called⟩ := SourceIndex.exists_path_of_gains gains
      exact .inr ⟨p,member,new,known,called,leads⟩
  · intro undotted settles
    by_cases named : r.IsNamed
    · obtain ⟨full,always⟩ := resolveSimple_of_settles settles
      simp only [resolver_of_named named,resolveName_of_undotted undotted,always]
    · rw [resolver_of_not_named named, resolver_of_not_named named]

/-- A new unit of the own package takes the place of a type that is imported on demand, and leaves an
imported type alone. -/
theorem resolution_grows_diverted :
    resolver (.ofPaths [⟨"a/Peer.java"⟩]) crowded ⟨"Map.Entry",none⟩ = some "java.util.Map.Entry" ∧
    (∃ full, resolver (.ofPaths [⟨"a/Map.java"⟩,⟨"a/Peer.java"⟩]) crowded ⟨"Map.Entry",none⟩ = some full ∧
      full = "a.Map.Entry") ∧
    resolver (.ofPaths [⟨"a/Map.java"⟩,⟨"a/Peer.java"⟩]) crowded ⟨"Peer",none⟩ =
      resolver (.ofPaths [⟨"a/Peer.java"⟩]) crowded ⟨"Peer",none⟩ := by
  have within : ∀ p ∈ [Path.mk "a/Peer.java"], p ∈ [⟨"a/Map.java"⟩,⟨"a/Peer.java"⟩] := by simp
  have before : resolver (.ofPaths [⟨"a/Peer.java"⟩]) crowded ⟨"Map.Entry",none⟩ =
      some "java.util.Map.Entry" := by decide +kernel
  have after : resolver (.ofPaths [⟨"a/Map.java"⟩,⟨"a/Peer.java"⟩]) crowded ⟨"Map.Entry",none⟩ =
      some "a.Map.Entry" := by decide +kernel
  obtain ⟨kept,-⟩ := resolution_grows crowded ⟨"Map.Entry",none⟩ _ _ within
  obtain ⟨-,settled⟩ := resolution_grows crowded ⟨"Peer",none⟩ _ _ within
  obtain ⟨full,resolved,-⟩ := kept _ before
  refine ⟨before,⟨full,resolved,Option.some.inj (resolved.symm.trans after)⟩,settled (by decide) (.inr ?_)⟩
  exact ⟨⟨"b.Peer",false,false,none⟩,by decide,by decide,by decide⟩

end Coupling
