import Coupling.Proofs.Sorted
import Coupling.Proofs.Text
import Coupling.Resolution

/-! The types that a unit declares, each under the names of the types around it. Full names are made from
such chains alone, so a type can be told by its simple name as long as no two types share one. -/
namespace Coupling

/-! ## Dotted texts -/

namespace Text

theorem lastSegment_of_undotted {s : String} (undotted : '.' ∉ s.toList) : lastSegment s = s := by
  simp [lastSegment,splitLast?,splitLastChars_of_not_mem undotted]

theorem lastSegment_append {name : String} (undotted : '.' ∉ name.toList) (space : String) :
    lastSegment (space ++ "." ++ name) = name := by
  have split : splitLast? '.' (space ++ "." ++ name) = some (space,name) :=
    splitLast?_eq_some_iff.mpr ⟨by simp,undotted⟩
  simp [lastSegment,split]

theorem lastSegment_qualified {name : String} (undotted : '.' ∉ name.toList) (space : String) :
    lastSegment (qualified space name) = name := by
  unfold qualified
  split
  · exact lastSegment_of_undotted undotted
  · exact lastSegment_append undotted space

/-- A member of a name in a namespace is in that namespace itself. -/
theorem qualified_append (space name members : String) :
    qualified space (name ++ "." ++ members) = qualified space name ++ "." ++ members := by
  unfold qualified
  split
  · rfl
  · simp only [String.append_assoc]

/-- Names one inside the other make one dotted name, from the first of them that is not empty. The last one
stays in any case. -/
theorem foldl_qualified_concat (names : List String) (name space : String) :
    (names ++ [name]).foldl qualified space =
      ".".intercalate ((space :: names).dropWhile String.isEmpty ++ [name]) := by
  induction names generalizing space with
  | nil =>
    by_cases empty : space = ""
    · subst empty
      exact String.intercalate_singleton.symm
    · have solid : ¬space.isEmpty = true := by simpa using empty
      have dotted : qualified space name = space ++ "." ++ name := if_neg solid
      rw [List.dropWhile_cons_of_neg solid, List.singleton_append, String.intercalate_cons_cons,
        String.intercalate_singleton]
      exact dotted
  | cons first rest ih =>
    rw [List.cons_append, List.foldl_cons, ih]
    by_cases empty : space = ""
    · subst empty
      rfl
    · have solid : ¬space.isEmpty = true := by simpa using empty
      have dotted : qualified space first = space ++ "." ++ first := if_neg solid
      rw [dotted, List.dropWhile_cons_of_neg (by simp), List.dropWhile_cons_of_neg solid]
      simp only [List.cons_append,String.intercalate_cons_append,String.intercalate_cons_cons]

/-- Names that are not empty make one dotted name inside a namespace. -/
theorem foldl_qualified {names : List String} (named : ∀ name ∈ names, name ≠ "") (some : names ≠ [])
    (space : String) : names.foldl qualified space = qualified space (".".intercalate names) := by
  have split := List.dropLast_concat_getLast some
  generalize names.dropLast = front at split
  generalize names.getLast some = last at split
  subst split
  rw [foldl_qualified_concat]
  by_cases empty : space = ""
  · have kept : front.dropWhile String.isEmpty = front := by
      cases front with
      | nil => rfl
      | cons first rest => exact List.dropWhile_cons_of_neg (by simpa using named first (by simp))
    rw [empty, List.dropWhile_cons_of_pos rfl, kept]
    rfl
  · have solid : ¬space.isEmpty = true := by simpa using empty
    rw [List.dropWhile_cons_of_neg solid, List.cons_append, String.intercalate_cons_of_ne_nil (by simp)]
    exact (if_neg solid).symm

end Text

/-! ## Declared types -/

/-- A declared type: the names of the types around it, outermost first, and its own. -/
structure NestedName where
  around : List String
  name : String
  deriving DecidableEq, Repr

namespace NestedName

def chain (t : NestedName) : List String := t.around ++ [t.name]

def inside (t : NestedName) (outer : String) : NestedName := ⟨outer :: t.around,t.name⟩

def fullName (space : String) (t : NestedName) : String := t.chain.foldl Text.qualified space

theorem chain_inside (t : NestedName) (outer : String) : (t.inside outer).chain = outer :: t.chain := rfl

theorem fullName_eq (space : String) (t : NestedName) :
    t.fullName space = Text.qualified (t.around.foldl Text.qualified space) t.name := by
  simp [fullName,chain]

/-- The full name is that of the namespace with all names on the way behind it. -/
theorem fullName_of_nonempty {t : NestedName} (nonempty : ∀ name ∈ t.chain, name ≠ "") (space : String) :
    t.fullName space = Text.qualified space (".".intercalate t.chain) :=
  Text.foldl_qualified nonempty (by simp [chain]) space

end NestedName

mutual

def Construct.nestedNames : Construct → List NestedName
  | .type head members => (nestedNamesOf members).map (·.inside head.name) ++ [⟨[],head.name⟩]
  | .field _ _ => []
  | .method _ _ => []
  | .creation _ _ _ => []
  | .block _ => []

def nestedNamesOf : List Construct → List NestedName
  | [] => []
  | c :: cs => c.nestedNames ++ nestedNamesOf cs

end

def Outline.nestedNames (o : Outline) : List NestedName := nestedNamesOf o.declarations

theorem mem_nestedNamesOf_iff {t : NestedName} {cs : List Construct} :
    t ∈ nestedNamesOf cs ↔ ∃ c ∈ cs, t ∈ c.nestedNames := by
  induction cs with
  | nil => simp [nestedNamesOf]
  | cons c rest ih => simp [nestedNamesOf,ih]

mutual

/-- Full names are made from the outside in, types are listed from the inside out. -/
theorem Construct.declaredTypes_eq (c : Construct) (space : String) :
    c.declaredTypes space = c.nestedNames.map (NestedName.fullName space) := by
  match c with
  | .type head members =>
    have inner := declaredTypesOf_eq members (Text.qualified space head.name)
    simp only [Construct.declaredTypes,Construct.nestedNames,inner,List.map_append,List.map_map]
    rfl
  | .field _ _ => rfl
  | .method _ _ => rfl
  | .creation _ _ _ => rfl
  | .block _ => rfl

theorem declaredTypesOf_eq (cs : List Construct) (space : String) :
    declaredTypesOf space cs = (nestedNamesOf cs).map (NestedName.fullName space) := by
  match cs with
  | [] => rfl
  | c :: rest =>
    simp only [declaredTypesOf,nestedNamesOf,List.map_append,Construct.declaredTypes_eq c space,
      declaredTypesOf_eq rest space]

end

mutual

/-- The types around a declared type are declared types as well. -/
theorem Construct.mem_nestedNames_of_chain (c : Construct) {t : NestedName} (member : t ∈ c.nestedNames)
    {front back : List String} {name : String} (split : t.chain = front ++ name :: back) :
    ⟨front,name⟩ ∈ c.nestedNames := by
  match c with
  | .type head members =>
    simp only [Construct.nestedNames,List.mem_append,List.mem_map,List.mem_singleton] at member ⊢
    rcases member with ⟨inner,nested,rfl⟩ | rfl
    · rw [NestedName.chain_inside] at split
      cases front with
      | nil =>
        obtain ⟨rfl,-⟩ := List.cons.inj split
        exact .inr rfl
      | cons outer rest =>
        obtain ⟨rfl,inside⟩ := List.cons.inj split
        exact .inl ⟨_,mem_nestedNamesOf_of_chain members nested inside,rfl⟩
    · cases front with
      | nil =>
        obtain ⟨rfl,-⟩ := List.cons.inj split
        exact .inr rfl
      | cons outer rest => simp [NestedName.chain] at split
  | .field _ _ => cases member
  | .method _ _ => cases member
  | .creation _ _ _ => cases member
  | .block _ => cases member

theorem mem_nestedNamesOf_of_chain (cs : List Construct) {t : NestedName} (member : t ∈ nestedNamesOf cs)
    {front back : List String} {name : String} (split : t.chain = front ++ name :: back) :
    ⟨front,name⟩ ∈ nestedNamesOf cs := by
  match cs with
  | [] => cases member
  | c :: rest =>
    simp only [nestedNamesOf,List.mem_append] at member ⊢
    rcases member with first | later
    · exact .inl (Construct.mem_nestedNames_of_chain c first split)
    · exact .inr (mem_nestedNamesOf_of_chain rest later split)

end

namespace Outline

variable {o : Outline}

theorem declaredTypes_eq (o : Outline) :
    o.declaredTypes = o.nestedNames.map (NestedName.fullName (o.package.getD "")) :=
  declaredTypesOf_eq o.declarations _

/-- The primary type stands on the top level. -/
theorem mem_nestedNames_of_primaryType {name : String} (primary : o.primaryType = some name) :
    ⟨[],name⟩ ∈ o.nestedNames := by
  obtain ⟨c,member,found⟩ := List.exists_of_findSome?_eq_some primary
  apply mem_nestedNamesOf_iff.mpr
  refine ⟨c,member,?_⟩
  cases c with
  | type head members =>
    cases found
    simp [Construct.nestedNames]
  | _ => cases found

/-- A simple name that only one declared type has leads to that type. -/
theorem declaredType?_of_distinct (distinct : (o.nestedNames.map NestedName.name).Nodup)
    (undotted : ∀ t ∈ o.nestedNames, '.' ∉ t.name.toList) {t : NestedName} (member : t ∈ o.nestedNames) :
    o.declaredType? t.name = some (t.fullName (o.package.getD "")) := by
  have lastSegment {u : NestedName} (inside : u ∈ o.nestedNames) :
      Text.lastSegment (u.fullName (o.package.getD "")) = u.name := by
    rw [NestedName.fullName_eq]
    exact Text.lastSegment_qualified (undotted u inside) _
  have distinct' : (o.declaredTypes.map Text.lastSegment).Nodup := by
    have names : o.declaredTypes.map Text.lastSegment = o.nestedNames.map NestedName.name := by
      rw [declaredTypes_eq, List.map_map]
      exact List.map_congr_left fun u inside => lastSegment inside
    rwa [names]
  have declared : t.fullName (o.package.getD "") ∈ o.declaredTypes := by
    rw [declaredTypes_eq]
    exact List.mem_map_of_mem member
  have found := Sorted.find?_of_distinct distinct' declared
  rwa [lastSegment member] at found

end Outline

end Coupling
