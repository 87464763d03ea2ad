import Coupling.Proofs.Declarations
import Coupling.Proofs.Source.Address

/-! The list of declared types against the places of their declarations. It has one name for each type that
is reached through members of types alone, in the order in which a walk over the declarations leaves them. -/
namespace Coupling

open Coupling.Source (Address)

/-! ## Places of declarations -/

/-- A type declaration at an address. The first index counts the constructs of a list, each further one the
members of the type before it. -/
inductive DeclaredAt : List Construct → Address → NestedName → Prop
  | here {cs i head members} (found : cs[i]? = some (.type head members)) : DeclaredAt cs [i] ⟨[],head.name⟩
  | inside {cs i head members a t} (found : cs[i]? = some (.type head members))
      (member : DeclaredAt members a t) : DeclaredAt cs (i :: a) (t.inside head.name)

namespace Source.Address

/-- A walk leaves the first place earlier than the second one: it stands inside the second or, where they
part, takes the earlier child. -/
def LeftBefore (a b : Address) : Prop := Encloses b a ∨ Before a b

def bump : Address → Address
  | [] => []
  | i :: a => (i + 1) :: a

variable {a b : Address}

theorem LeftBefore.ne (left : LeftBefore a b) : a ≠ b := by
  rintro rfl
  rcases left with inside | before
  · exact inside.2 rfl
  · exact Before.irrefl a before

theorem LeftBefore.cons (left : LeftBefore a b) (i : Nat) : LeftBefore (i :: a) (i :: b) := by
  rcases left with inside | before
  · exact .inl ⟨List.cons_prefix_cons.mpr ⟨rfl,inside.1⟩,by simpa using inside.2⟩
  · exact .inr (.inr ⟨rfl,before⟩)

theorem LeftBefore.bump (left : LeftBefore a b) : LeftBefore (bump a) (bump b) := by
  cases a with
  | nil =>
    rcases left with ⟨inside,other⟩ | before
    · exact absurd (List.prefix_nil.mp inside) other
    · exact before.elim
  | cons i a =>
    cases b with
    | nil => exact .inl ⟨List.nil_prefix,by simp [Address.bump]⟩
    | cons j b => simpa [LeftBefore,Encloses,Before,Address.bump] using left

end Source.Address

open Coupling.Source.Address (LeftBefore bump)

section DeclaredAt

variable {c : Construct} {cs : List Construct} {a : Address} {t : NestedName}

theorem DeclaredAt.ne_nil (declared : DeclaredAt cs a t) : a ≠ [] := by
  cases declared <;> simp

/-- A declaration is the first construct, stands inside it or behind it. -/
theorem declaredAt_cons_iff : DeclaredAt (c :: cs) a t ↔
    (∃ head members, c = .type head members ∧
      ((∃ b u, DeclaredAt members b u ∧ (0 :: b,u.inside head.name) = (a,t)) ∨
        (a,t) = ([0],⟨[],head.name⟩))) ∨
    ∃ b u, DeclaredAt cs b u ∧ (bump b,u) = (a,t) := by
  constructor
  · intro declared
    cases declared with
    | @here _ i head members found =>
      cases i with
      | zero => exact .inl ⟨head,members,Option.some.inj found,.inr rfl⟩
      | succ i => exact .inr ⟨[i],_,.here found,rfl⟩
    | @inside _ i head members b u found member =>
      cases i with
      | zero => exact .inl ⟨head,members,Option.some.inj found,.inl ⟨b,u,member,rfl⟩⟩
      | succ i => exact .inr ⟨i :: b,_,.inside found member,rfl⟩
  · rintro (⟨head,members,rfl,⟨b,u,member,place⟩ | place⟩ | ⟨b,u,declared,place⟩)
    · cases place
      exact .inside rfl member
    · cases place
      exact .here rfl
    · cases place
      cases declared with
      | here found => exact .here found
      | inside found member => exact .inside found member

end DeclaredAt

/-! ## Listings -/

/-- The types declared among constructs, each one at its place, in the order in which a walk leaves them. -/
structure Listing (cs : List Construct) (listed : List (Address × NestedName)) : Prop where
  listed_iff : ∀ a t, (a,t) ∈ listed ↔ DeclaredAt cs a t
  ordered : listed.Pairwise fun d e => LeftBefore d.1 e.1

namespace Listing

variable {cs members : List Construct} {inner later : List (Address × NestedName)}

theorem nil : Listing [] [] where
  listed_iff a t := by
    refine iff_of_false List.not_mem_nil ?_
    rintro (found | found) <;> cases found
  ordered := .nil

/-- No place is listed twice. -/
theorem distinct {listed : List (Address × NestedName)} (listing : Listing cs listed) :
    (listed.map Prod.fst).Nodup :=
  List.pairwise_map.mpr (listing.ordered.imp LeftBefore.ne)

/-- The types of a list, for a list with one more construct in front. -/
theorem bumped_ordered (listing : Listing cs later) :
    (later.map fun e => (bump e.1,e.2)).Pairwise fun d e => LeftBefore d.1 e.1 :=
  List.pairwise_map.mpr (listing.ordered.imp LeftBefore.bump)

theorem cons_other {c : Construct} (other : ∀ head members, c ≠ .type head members)
    (behind : Listing cs later) : Listing (c :: cs) (later.map fun e => (bump e.1,e.2)) where
  listed_iff a t := by
    simp only [declaredAt_cons_iff,← behind.listed_iff,List.mem_map,Prod.exists,other,false_and,exists_false,
      false_or]
  ordered := behind.bumped_ordered

/-- The members of a type come first, then the type, and then what stands behind it. -/
theorem cons_type (head : TypeHead) (within : Listing members inner) (behind : Listing cs later) :
    Listing (.type head members :: cs) ((inner.map fun d => (0 :: d.1,d.2.inside head.name)) ++
      ([0],⟨[],head.name⟩) :: later.map fun e => (bump e.1,e.2)) where
  listed_iff a t := by
    simp only [declaredAt_cons_iff,Construct.type.injEq,List.mem_append,List.mem_cons,List.mem_map,Prod.exists,
      within.listed_iff,behind.listed_iff,and_assoc,exists_and_left,exists_eq_left',or_assoc]
  ordered := by
    have inside {d : Address × NestedName} (member : d ∈ inner.map fun d => (0 :: d.1,d.2.inside head.name)) :
        ∃ a, a ≠ [] ∧ d.1 = 0 :: a := by
      obtain ⟨⟨a,t⟩,nested,rfl⟩ := List.mem_map.mp member
      exact ⟨a,((within.listed_iff a t).mp nested).ne_nil,rfl⟩
    have beyond {e : Address × NestedName} (member : e ∈ later.map fun e => (bump e.1,e.2)) :
        ∃ j b, e.1 = (j + 1) :: b := by
      obtain ⟨⟨b,t⟩,listed,rfl⟩ := List.mem_map.mp member
      obtain ⟨j,b,rfl⟩ := List.exists_cons_of_ne_nil ((behind.listed_iff b t).mp listed).ne_nil
      exact ⟨j,b,rfl⟩
    have parted (a b : Address) (j : Nat) : LeftBefore (0 :: a) ((j + 1) :: b) := .inr (.inl (Nat.succ_pos j))
    refine List.pairwise_append.mpr ⟨?_,List.pairwise_cons.mpr ⟨?_,behind.bumped_ordered⟩,?_⟩
    · exact List.pairwise_map.mpr (within.ordered.imp fun left => left.cons 0)
    · intro e member
      obtain ⟨j,b,place⟩ := beyond member
      rw [place]
      exact parted [] b j
    · intro d nested e member
      obtain ⟨a,deeper,place⟩ := inside nested
      rw [place]
      rcases List.mem_cons.mp member with rfl | further
      · exact .inl (Source.Address.encloses_append [0] deeper)
      · obtain ⟨j,b,place'⟩ := beyond further
        rw [place']
        exact parted a b j

end Listing

/-- The types declared among constructs are listed with the names of the types around them. -/
theorem exists_listing (cs : List Construct) :
    ∃ listed, Listing cs listed ∧ listed.map Prod.snd = nestedNamesOf cs := by
  cases cs with
  | nil => exact ⟨[],.nil,rfl⟩
  | cons c rest =>
    obtain ⟨later,behind,names⟩ := exists_listing rest
    have bumped : (later.map fun e => (bump e.1,e.2)).map Prod.snd = nestedNamesOf rest := by
      rw [← names, List.map_map]
      rfl
    cases c with
    | type head members =>
      obtain ⟨inner,within,names'⟩ := exists_listing members
      refine ⟨_,within.cons_type head behind,?_⟩
      rw [List.map_append, List.map_cons, bumped, nestedNamesOf, Construct.nestedNames, ← names']
      simp
    | _ =>
      refine ⟨_,behind.cons_other (by simp),?_⟩
      rw [bumped]
      rfl
termination_by sizeOf cs

/-! ## Full names -/

/-- Leaving out names makes a dotted name no longer. -/
theorem length_intercalate_dropWhile_le (p : String → Bool) (names : List String) (name : String) :
    (".".intercalate (names.dropWhile p ++ [name])).length ≤ (".".intercalate (names ++ [name])).length := by
  induction names with
  | nil => exact Nat.le_refl _
  | cons first rest ih =>
    rw [List.dropWhile_cons]
    split
    · refine Nat.le_trans ih ?_
      rw [List.cons_append, String.intercalate_cons_of_ne_nil (by simp), String.length_append]
      omega
    · exact Nat.le_refl _

namespace NestedName

variable {space : String} {t : NestedName}

/-- The namespace, if there is one, and all names on the way, with points between them. -/
def spelled (space : String) (t : NestedName) : String :=
  ".".intercalate ((if space = "" then [] else [space]) ++ t.chain)

/-- The same without the empty names in front. The own name of the type stays in any case. -/
def dotted (space : String) (t : NestedName) : String :=
  ".".intercalate ((space :: t.around).dropWhile String.isEmpty ++ [t.name])

theorem fullName_eq_dotted (space : String) (t : NestedName) : t.fullName space = t.dotted space :=
  Text.foldl_qualified_concat t.around t.name space

/-- Only a type without a namespace can have empty names in front, those of the types around it. -/
theorem dotted_eq_spelled_iff :
    t.dotted space = t.spelled space ↔ ¬(space = "" ∧ t.around.head? = some "") := by
  by_cases empty : space = ""
  · obtain ⟨around,name⟩ := t
    subst empty
    cases around with
    | nil => simp [dotted,spelled,chain]
    | cons outer rest =>
      by_cases nameless : outer = ""
      · subst nameless
        refine iff_of_false ?_ (by simp)
        intro same
        have shorter := length_intercalate_dropWhile_le String.isEmpty rest name
        have longer : (spelled "" ⟨"" :: rest,name⟩).length = (".".intercalate (rest ++ [name])).length + 1 := by
          rw [spelled, if_pos rfl, chain, List.nil_append, List.cons_append,
            String.intercalate_cons_of_ne_nil (by simp), String.length_append]
          exact Nat.add_comm ..
        have kept : dotted "" ⟨"" :: rest,name⟩ = ".".intercalate (rest.dropWhile String.isEmpty ++ [name]) := rfl
        rw [← same, kept] at longer
        omega
      · simp [dotted,spelled,chain,nameless]
  · simp [dotted,spelled,chain,empty]

end NestedName

/-! ## The list of declared types -/

/-- Each type that is reached from the top level through members of types alone is listed once, nested types
before those around them and otherwise in the order of the source. The name in the list is the package, if
there is one, with the names of the types on the way behind it, less the empty names that would stand in front
of all others. The unit is named for a type in the list, if it has a primary type. -/
theorem declared_types_listed (o : Outline) :
    (∃ listed, Listing o.declarations listed ∧ (listed.map Prod.fst).Nodup ∧
      o.declaredTypes = listed.map (fun d => d.2.dotted (o.package.getD "")) ∧
      ∀ d ∈ listed, d.2.dotted (o.package.getD "") = d.2.spelled (o.package.getD "") ↔
        ¬(o.package.getD "" = "" ∧ d.2.around.head? = some "")) ∧
    ∀ primary, o.primaryType = some primary → ∀ fallback, o.unitName fallback ∈ o.declaredTypes := by
  constructor
  · obtain ⟨listed,listing,names⟩ := exists_listing o.declarations
    refine ⟨listed,listing,listing.distinct,?_,fun d _ => NestedName.dotted_eq_spelled_iff⟩
    rw [Outline.declaredTypes_eq, Outline.nestedNames, ← names, List.map_map]
    exact List.map_congr_left fun d _ => NestedName.fullName_eq_dotted ..
  · intro primary first fallback
    have unit : o.unitName fallback = NestedName.fullName (o.package.getD "") ⟨[],primary⟩ := by
      rw [Outline.unitName, first]
      rfl
    rw [unit, Outline.declaredTypes_eq]
    exact List.mem_map_of_mem (Outline.mem_nestedNames_of_primaryType first)

def classOf (name : String) (members : List Construct) : Construct :=
  .type ⟨.ordinary,name,none,[],[],[]⟩ members

def namelessOuter : Outline := ⟨none,[],[classOf "" [classOf "Inner" []]]⟩

/-- Behind a name that is empty no point is written, unless something else stands in front of it. -/
theorem nameless_outer_left_out :
    namelessOuter.declaredTypes = ["Inner",""] ∧
    ¬∃ listed, Listing namelessOuter.declarations listed ∧
      namelessOuter.declaredTypes = listed.map fun d => d.2.spelled (namelessOuter.package.getD "") := by
  refine ⟨rfl,?_⟩
  rintro ⟨listed,listing,names⟩
  have inner : DeclaredAt [classOf "Inner" []] [0] ⟨[],"Inner"⟩ :=
    declaredAt_cons_iff.mpr (.inl ⟨_,_,rfl,.inr rfl⟩)
  have nested : DeclaredAt namelessOuter.declarations [0,0] ⟨[""],"Inner"⟩ :=
    declaredAt_cons_iff.mpr (.inl ⟨_,_,rfl,.inl ⟨_,_,inner,rfl⟩⟩)
  have spelled := List.mem_map_of_mem (f := fun d => d.2.spelled (namelessOuter.package.getD ""))
    ((listing.listed_iff _ _).mpr nested)
  have absent : NestedName.spelled "" ⟨[""],"Inner"⟩ ∉ namelessOuter.declaredTypes := by decide
  rw [← names] at spelled
  exact absent spelled

def twinTypes : Outline where
  package := some "a"
  imports := []
  declarations := [.block [classOf "Hidden" []],
    classOf "Main" [classOf "Inner" [classOf "Deep" []], .method ⟨"run",none,[],none,[]⟩ [classOf "Local" []],
      classOf "Other" []],
    classOf "Main" []]

theorem declared_types_listed_twinTypes :
    twinTypes.primaryType = some "Main" ∧ twinTypes.unitName "File" ∈ twinTypes.declaredTypes ∧
    ∃ listed, Listing twinTypes.declarations listed ∧ (listed.map Prod.fst).Nodup ∧
      listed.map (fun d => d.2.dotted "a") =
        ["a.Main.Inner.Deep","a.Main.Inner","a.Main.Other","a.Main","a.Main"] := by
  obtain ⟨⟨listed,listing,distinct,names,-⟩,unit⟩ := declared_types_listed twinTypes
  exact ⟨rfl,unit "Main" rfl "File",listed,listing,distinct,names.symm.trans rfl⟩

end Coupling
