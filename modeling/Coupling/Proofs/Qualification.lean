import Coupling.Proofs.Resolution
import Coupling.Proofs.Text

/-! What a written name can be resolved to. A dotted name is cut at its first point and put together again,
full names are compared by their last segment, and nothing of what is written gets lost between the two: a
full name is the written one, perhaps behind a qualifier. -/
namespace Coupling

/-! ## Dotted names -/

theorem splitFirstChars_append {front : List Char} (free : '.' ∉ front) (back : List Char) :
    splitFirstChars (front ++ '.' :: back) = some (front,back) := by
  induction front with
  | nil => simp [splitFirstChars]
  | cons c rest ih =>
    simp only [List.mem_cons,not_or] at free
    simp [splitFirstChars,Ne.symm free.1,ih free.2]

theorem splitFirst?_append {outer : String} (free : '.' ∉ outer.toList) (members : String) :
    splitFirst? (outer ++ "." ++ members) = some (outer,members) := by
  have text : (outer ++ "." ++ members).toList = outer.toList ++ '.' :: members.toList := by simp
  simp [splitFirst?,text,splitFirstChars_append free]

/-- A name has no point, or is cut at the first one. -/
theorem dotted_cases (name : String) : '.' ∉ name.toList ∨
    ∃ outer members, '.' ∉ outer.toList ∧ name = outer ++ "." ++ members := by
  by_cases dotted : '.' ∈ name.toList
  · obtain ⟨front,back,text,free⟩ := List.eq_append_cons_of_mem dotted
    refine .inr ⟨String.ofList front,String.ofList back,by simpa using free,?_⟩
    rw [← String.toList_inj, text]
    simp
  · exact .inl dotted

theorem resolveName_append {outer : String} (undotted : '.' ∉ outer.toList) (members : String)
    (index : SourceIndex) (o : Outline) :
    resolveName index o (outer ++ "." ++ members) =
      if index.knows (outer ++ "." ++ members) then some (outer ++ "." ++ members)
      else (resolveSimple index o outer).map (· ++ "." ++ members) := by
  simp only [resolveName,splitFirst?_append undotted]

/-! ## What a name denotes -/

/-- A dotted name that is known denotes itself, and any other one a member of what its first segment
denotes. -/
inductive Denotes (index : SourceIndex) (o : Outline) : String → String → Prop
  | known {outer members : String} (undotted : '.' ∉ outer.toList)
      (known : index.knows (outer ++ "." ++ members) = true) :
      Denotes index o (outer ++ "." ++ members) (outer ++ "." ++ members)
  | member {outer members base : String} {origin : Origin} (undotted : '.' ∉ outer.toList)
      (unknown : index.knows (outer ++ "." ++ members) = false)
      (prevails : Prevails index o outer base origin) :
      Denotes index o (outer ++ "." ++ members) (base ++ "." ++ members)
  | simple {name full : String} {origin : Origin} (undotted : '.' ∉ name.toList)
      (prevails : Prevails index o name full origin) : Denotes index o name full

theorem resolveName_eq_some_iff {index : SourceIndex} {o : Outline} {name full : String} :
    resolveName index o name = some full ↔ Denotes index o name full := by
  constructor
  · intro resolved
    rcases dotted_cases name with undotted | ⟨outer,members,undotted,rfl⟩
    · rw [resolveName_of_undotted undotted] at resolved
      obtain ⟨origin,prevails⟩ := resolveSimple_eq_some_iff.mp resolved
      exact .simple undotted prevails
    · rw [resolveName_append undotted] at resolved
      split at resolved
      · rename_i known
        cases resolved
        exact .known undotted known
      · rename_i unknown
        obtain ⟨base,simple,rfl⟩ := Option.map_eq_some_iff.mp resolved
        obtain ⟨origin,prevails⟩ := resolveSimple_eq_some_iff.mp simple
        exact .member undotted (by simpa using unknown) prevails
  · intro denotes
    cases denotes with
    | known undotted known => simp [resolveName_append undotted,known]
    | member undotted unknown prevails =>
      simp [resolveName_append undotted,unknown,resolveSimple_eq_some_iff.mpr ⟨_,prevails⟩]
    | simple undotted prevails =>
      rw [resolveName_of_undotted undotted]
      exact resolveSimple_eq_some_iff.mpr ⟨_,prevails⟩

theorem resolver_eq_some_iff {index : SourceIndex} {o : Outline} {r : TypeRef} {full : String} :
    resolver index o r = some full ↔ r.IsNamed ∧ Denotes index o r.erased full := by
  by_cases named : r.IsNamed
  · simp [resolver_of_named named,resolveName_eq_some_iff,named]
  · simp [resolver_of_not_named named,named]

/-! ## Qualifiers -/

namespace Text

/-- A full name that is `name`, or `name` in some namespace. -/
def Qualifies (full name : String) : Prop := full = name ∨ ∃ space, full = space ++ "." ++ name

theorem qualifies_lastSegment (s : String) : Qualifies s (lastSegment s) := by
  unfold lastSegment
  split
  · rename_i front back split
    obtain ⟨text,-⟩ := splitLast?_eq_some_iff.mp split
    refine .inr ⟨front,?_⟩
    rw [← String.toList_inj, text]
    simp
  · exact .inl rfl

theorem qualifies_qualified (space name : String) : Qualifies (qualified space name) name := by
  unfold qualified
  split
  · exact .inl rfl
  · exact .inr ⟨space,rfl⟩

/-- A member of a qualified name is qualified alike. -/
theorem Qualifies.member {full name : String} (qualifies : Qualifies full name) (members : String) :
    Qualifies (full ++ "." ++ members) (name ++ "." ++ members) := by
  rcases qualifies with rfl | ⟨space,rfl⟩
  · exact .inl rfl
  · exact .inr ⟨space,by simp only [String.append_assoc]⟩

end Text

section Qualifiers

variable {index : SourceIndex} {o : Outline} {name full : String}

/-- Every origin of a name gives it a qualifier at most. -/
theorem Claims.qualifies {origin : Origin} (claims : Claims index o name full origin) :
    Text.Qualifies full name := by
  cases origin with
  | declaration =>
    obtain ⟨rfl,-⟩ := claims
    exact Text.qualifies_lastSegment full
  | singleImport =>
    obtain ⟨i,rfl,⟨-,rfl⟩,-⟩ := claims
    exact Text.qualifies_lastSegment i.path
  | ownPackage =>
    obtain ⟨rfl,-⟩ := claims
    exact Text.qualifies_qualified _ name
  | onDemandImport =>
    obtain ⟨i,rfl,-⟩ := claims
    exact .inr ⟨i.path,rfl⟩
  | language =>
    obtain ⟨rfl,-⟩ := claims
    exact .inr ⟨"java.lang",by simp⟩
  | platform =>
    obtain ⟨-,i,rfl,-⟩ := claims
    exact .inr ⟨i.path,rfl⟩

theorem Denotes.qualifies (denotes : Denotes index o name full) : Text.Qualifies full name := by
  cases denotes with
  | known => exact .inl rfl
  | member _ _ prevails => exact prevails.1.qualifies.member _
  | simple _ prevails => exact prevails.1.qualifies

end Qualifiers

/-- A reference is resolved to what its name denotes, which is the written name without type arguments, or
that name behind a qualifier. Arrays, `void`, primitive types and what has no name are never resolved. -/
theorem resolution_adds_qualifier (index : SourceIndex) (o : Outline) (r : TypeRef) :
    (∀ full, resolver index o r = some full → full = r.erased ∨ ∃ space, full = space ++ "." ++ r.erased) ∧
    (r.isArray = true ∨ r.erased = "void" ∨ isPrimitive r.erased = true ∨ r.erased = "" →
      resolver index o r = none) ∧
    (∀ full, resolver index o r = some full ↔ r.IsNamed ∧ Denotes index o r.erased full) := by
  refine ⟨?_,?_,fun full => resolver_eq_some_iff⟩
  · intro full resolved
    obtain ⟨-,denotes⟩ := resolver_eq_some_iff.mp resolved
    exact denotes.qualifies
  · intro refused
    apply resolver_of_not_named
    intro named
    rcases refused with array | void | primitive | empty
    · exact absurd (named.noArray.symm.trans array) (by simp)
    · exact named.noVoid void
    · exact absurd (named.noPrimitive.symm.trans primitive) (by simp)
    · exact named.nonempty empty

/-- A member of a type that a package of the platform is known to have, and an array of it. -/
theorem resolution_adds_qualifier_member :
    resolver crowdedIndex crowded ⟨"Map.Entry<K,V>",none⟩ = some "java.util.Map.Entry" ∧
    (∃ space, "java.util.Map.Entry" = space ++ "." ++ TypeRef.erased ⟨"Map.Entry<K,V>",none⟩) ∧
    resolver crowdedIndex crowded ⟨"Map.Entry<K,V>[]",none⟩ = none := by
  have resolved : resolver crowdedIndex crowded ⟨"Map.Entry<K,V>",none⟩ = some "java.util.Map.Entry" := by
    decide +kernel
  obtain ⟨qualifies,-,-⟩ := resolution_adds_qualifier crowdedIndex crowded ⟨"Map.Entry<K,V>",none⟩
  obtain ⟨-,refused,-⟩ := resolution_adds_qualifier crowdedIndex crowded ⟨"Map.Entry<K,V>[]",none⟩
  refine ⟨resolved,?_,refused (.inl (by decide))⟩
  rcases qualifies _ resolved with same | qualified
  · exact absurd same (by decide)
  · exact qualified

end Coupling
