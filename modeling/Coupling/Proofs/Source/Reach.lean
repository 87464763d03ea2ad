import Coupling.Proofs.Source.Address
import Coupling.Proofs.Source.Completeness
import Coupling.Proofs.Source.Walk

/-! Which nodes the walk reaches. The rules of the walk are given once for single steps, by places in the
tree; in a complete tree the lists that the walk works on hold the nodes that the rules name, in the
order of the document. -/
namespace Coupling.Source

open Address

/-! ## The rules of the walk -/

def Shape.isDeclaration : Shape → Bool
  | .type _ => true
  | .method _ => true
  | .field => false
  | .creation => false
  | .block => false
  | .other => false

namespace Tree

def childIndex? (t : Tree) (r : Role) : Option Nat := t.children.findIdx? (·.role == r)

/-- The walk goes on from a node to another one, which stands at an address inside it. -/
inductive Enters : Tree → Address → Tree → Prop
  | body {t body c i j} (declaration : t.kind.shape.isDeclaration = true)
      (index : t.childIndex? .body = some i) (outer : t.children[i]? = some body)
      (inner : body.children[j]? = some c) (named : c.isNamed = true) : Enters t [i,j] c
  | initializer {t declarator value i j} (field : t.kind.shape = .field)
      (outer : t.children[i]? = some declarator) (declares : declarator.role = .declarator)
      (index : declarator.childIndex? .value = some j)
      (inner : declarator.children[j]? = some value) : Enters t [i,j] value
  | beside {t c i} (creation : t.kind.shape = .creation) (child : t.children[i]? = some c)
      (named : c.isNamed = true) (notCreated : t.childIndex? .type ≠ some i) : Enters t [i] c
  | child {t c i} (plain : t.kind.shape = .block ∨ t.kind.shape = .other)
      (child : t.children[i]? = some c) (named : c.isNamed = true) : Enters t [i] c

def levels (t : Tree) : Nat := if t.kind.shape.isLevel then 1 else 0

/-- The walk over a source reaches the node at an address, inside `depth` levels. -/
inductive Reaches (root : Tree) : Address → Nat → Tree → Prop
  | top {i t} (child : root.children[i]? = some t) (walked : isWalked t = true) :
      Reaches root [i] 0 t
  | enter {a depth t b u} (reached : Reaches root a depth t) (enters : t.Enters b u) :
      Reaches root (a ++ b) (depth + t.levels) u

theorem Enters.at? {t u : Tree} {b : Address} (enters : t.Enters b u) :
    at? children t b = some u := by
  cases enters with
  | body _ _ outer inner _ => simp [Source.at?,outer,inner]
  | initializer _ outer _ _ inner => simp [Source.at?,outer,inner]
  | beside _ child _ _ => simp [Source.at?,child]
  | child _ child _ => simp [Source.at?,child]

theorem Reaches.at? {root t : Tree} {a : Address} {depth : Nat} (reached : root.Reaches a depth t) :
    at? children root a = some t := by
  induction reached with
  | top child => simp [Source.at?,child]
  | enter _ enters ih =>
    rw [at?_append, ih]
    exact enters.at?

end Tree

/-! ## Located nodes -/

abbrev Located := Address × Tree

namespace Tree

variable (t : Tree) (a : Address)

def parts : List Located := t.children.mapIdx fun i c => (a ++ [i],c)

def part? (r : Role) : Option Located :=
  (t.childIndex? r).bind fun i => t.children[i]?.map fun c => (a ++ [i],c)

def partsBeside (r : Role) : List Located :=
  match t.childIndex? r with
  | some i => (t.parts a).eraseIdx i
  | none => t.parts a

def bodyPartsAt : List Located :=
  match t.part? a .body with
  | some body => (body.2.parts body.1).filter (·.2.isNamed)
  | none => []

def enteredAt : List Located :=
  match t.kind.shape with
  | .type _ => if (t.child? .name).isSome then t.bodyPartsAt a else []
  | .field =>
    if (t.child? .type).isSome then
      ((t.parts a).filter (·.2.role == .declarator)).filterMap fun d => d.2.part? d.1 .value
    else []
  | .method _ => t.bodyPartsAt a
  | .creation => (t.partsBeside a .type).filter (·.2.isNamed)
  | .block => (t.parts a).filter (·.2.isNamed)
  | .other => (t.parts a).filter (·.2.isNamed)

theorem map_snd_parts : (t.parts a).map Prod.snd = t.children := by
  apply List.ext_getElem?
  intro i
  cases entry : t.children[i]? <;> simp [parts,entry]

theorem map_snd_part? (r : Role) : (t.part? a r).map Prod.snd = t.child? r := by
  rw [part?, child?, List.find?_eq_bind_findIdx?_getElem?, childIndex?]
  cases t.children.findIdx? (·.role == r) with
  | none => rfl
  | some i => cases entry : t.children[i]? <;> simp [entry]

theorem map_snd_partsBeside (r : Role) :
    (t.partsBeside a r).map Prod.snd = t.children.eraseP (·.role == r) := by
  rw [partsBeside, List.eraseP_eq_eraseIdx, childIndex?]
  cases t.children.findIdx? (·.role == r) with
  | none => exact t.map_snd_parts a
  | some i =>
    rw [← t.map_snd_parts a]
    apply List.ext_getElem?
    intro j
    by_cases before : j < i <;> simp [List.getElem?_eraseIdx,before]

/-- A choice among located nodes that does not look at their addresses. -/
theorem map_snd_filter (ps : List Located) (p : Tree → Bool) :
    (ps.filter fun q => p q.2).map Prod.snd = (ps.map Prod.snd).filter p := by
  rw [List.filter_map]
  rfl

theorem map_snd_bodyPartsAt : (t.bodyPartsAt a).map Prod.snd = t.bodyParts := by
  rw [bodyPartsAt, bodyParts, ← t.map_snd_part? a]
  cases t.part? a .body with
  | none => rfl
  | some body => exact (map_snd_filter _ _).trans (congrArg _ (map_snd_parts ..))

theorem map_snd_values (ds : List Located) :
    (ds.filterMap fun d => d.2.part? d.1 .value).map Prod.snd =
      (ds.map Prod.snd).filterMap (·.child? .value) := by
  rw [List.map_filterMap, List.filterMap_map]
  congr 1
  funext d
  exact map_snd_part? ..

theorem map_snd_enteredAt : (t.enteredAt a).map Prod.snd = t.entered := by
  unfold enteredAt entered
  cases t.kind.shape with
  | type kind => simp only [apply_ite (List.map Prod.snd),map_snd_bodyPartsAt,List.map_nil]
  | method hasReturnType => exact t.map_snd_bodyPartsAt a
  | field =>
    simp only [apply_ite (List.map Prod.snd),map_snd_values,map_snd_filter _ (·.role == .declarator),
      map_snd_parts,declarators,List.map_nil]
  | creation => simp only [map_snd_filter,map_snd_partsBeside]
  | block => simp only [map_snd_filter,map_snd_parts,namedChildren]
  | other => simp only [map_snd_filter,map_snd_parts,namedChildren]

/-! Addresses only grow, and they keep the order of the document. -/

/-- Nodes at different places, in the order of the document, none inside another. -/
def Apart (ps : List Located) : Prop := ps.Pairwise fun p q => Before p.1 q.1

variable {t a}

theorem mem_parts {q : Located} :
    q ∈ t.parts a ↔ ∃ i, t.children[i]? = some q.2 ∧ q.1 = a ++ [i] := by
  obtain ⟨b,c⟩ := q
  simp only [parts,List.mem_iff_getElem?,List.getElem?_mapIdx,Option.map_eq_some_iff,Prod.mk.injEq]
  constructor
  · rintro ⟨i,_,child,rfl,rfl⟩
    exact ⟨i,child,rfl⟩
  · rintro ⟨i,child,rfl⟩
    exact ⟨i,c,child,rfl,rfl⟩

theorem part?_eq_some_iff {r : Role} {q : Located} :
    t.part? a r = some q ↔
      ∃ i, t.childIndex? r = some i ∧ t.children[i]? = some q.2 ∧ q.1 = a ++ [i] := by
  obtain ⟨b,c⟩ := q
  simp only [part?,Option.bind_eq_some_iff,Option.map_eq_some_iff,Prod.mk.injEq]
  constructor
  · rintro ⟨i,index,_,child,rfl,rfl⟩
    exact ⟨i,index,child,rfl⟩
  · rintro ⟨i,index,child,rfl⟩
    exact ⟨i,index,c,child,rfl,rfl⟩

theorem mem_partsBeside {r : Role} {q : Located} :
    q ∈ t.partsBeside a r ↔
      ∃ i, t.children[i]? = some q.2 ∧ q.1 = a ++ [i] ∧ t.childIndex? r ≠ some i := by
  unfold partsBeside
  cases index : t.childIndex? r with
  | none => simp [mem_parts]
  | some k =>
    obtain ⟨b,c⟩ := q
    simp only [List.mem_eraseIdx_iff_getElem?,parts,List.getElem?_mapIdx,Option.map_eq_some_iff,
      Prod.mk.injEq]
    constructor
    · rintro ⟨i,other,_,child,rfl,rfl⟩
      exact ⟨i,child,rfl,by simpa using Ne.symm other⟩
    · rintro ⟨i,child,rfl,other⟩
      exact ⟨i,by simpa using Ne.symm other,c,child,rfl,rfl⟩

theorem mem_bodyPartsAt {q : Located} :
    q ∈ t.bodyPartsAt a ↔ ∃ i body j, t.childIndex? .body = some i ∧ t.children[i]? = some body ∧
      body.children[j]? = some q.2 ∧ q.2.isNamed = true ∧ q.1 = a ++ [i,j] := by
  unfold bodyPartsAt
  cases found : t.part? a .body with
  | none =>
    simp only [List.not_mem_nil,false_iff]
    rintro ⟨i,body,j,index,outer,-⟩
    have present : t.part? a .body = some (a ++ [i],body) :=
      part?_eq_some_iff.mpr ⟨i,index,outer,rfl⟩
    rw [found] at present
    cases present
  | some body =>
    obtain ⟨i,index,outer,place⟩ := part?_eq_some_iff.mp found
    simp only [List.mem_filter,mem_parts]
    constructor
    · rintro ⟨⟨j,inner,inside⟩,named⟩
      exact ⟨i,body.2,j,index,outer,inner,named,by simp [inside,place]⟩
    · rintro ⟨i',body',j,index',outer',inner,named,inside⟩
      cases index.symm.trans index'
      cases outer.symm.trans outer'
      exact ⟨⟨j,inner,by simp [inside,place]⟩,named⟩

section Enters

variable {b : Address} {c : Tree}

theorem enters_declaration_iff (shape : t.kind.shape.isDeclaration = true) :
    t.Enters b c ↔ ∃ i body j, t.childIndex? .body = some i ∧ t.children[i]? = some body ∧
      body.children[j]? = some c ∧ c.isNamed = true ∧ b = [i,j] := by
  constructor
  · intro enters
    cases enters with
    | body _ index outer inner named => exact ⟨_,_,_,index,outer,inner,named,rfl⟩
    | initializer field => simp [field,Shape.isDeclaration] at shape
    | beside creation => simp [creation,Shape.isDeclaration] at shape
    | child plain => rcases plain with plain | plain <;> simp [plain,Shape.isDeclaration] at shape
  · rintro ⟨i,body,j,index,outer,inner,named,rfl⟩
    exact .body shape index outer inner named

theorem enters_field_iff (shape : t.kind.shape = .field) :
    t.Enters b c ↔ ∃ i declarator j, t.children[i]? = some declarator ∧
      declarator.role = .declarator ∧ declarator.childIndex? .value = some j ∧
      declarator.children[j]? = some c ∧ b = [i,j] := by
  constructor
  · intro enters
    cases enters with
    | body declaration => simp [shape,Shape.isDeclaration] at declaration
    | initializer _ outer declares index inner => exact ⟨_,_,_,outer,declares,index,inner,rfl⟩
    | beside creation => simp [shape] at creation
    | child plain => simp [shape] at plain
  · rintro ⟨i,declarator,j,outer,declares,index,inner,rfl⟩
    exact .initializer shape outer declares index inner

theorem enters_creation_iff (shape : t.kind.shape = .creation) :
    t.Enters b c ↔ ∃ i, t.children[i]? = some c ∧ c.isNamed = true ∧
      t.childIndex? .type ≠ some i ∧ b = [i] := by
  constructor
  · intro enters
    cases enters with
    | body declaration => simp [shape,Shape.isDeclaration] at declaration
    | initializer field => simp [shape] at field
    | beside _ child named notCreated => exact ⟨_,child,named,notCreated,rfl⟩
    | child plain => simp [shape] at plain
  · rintro ⟨i,child,named,notCreated,rfl⟩
    exact .beside shape child named notCreated

theorem enters_plain_iff (shape : t.kind.shape = .block ∨ t.kind.shape = .other) :
    t.Enters b c ↔ ∃ i, t.children[i]? = some c ∧ c.isNamed = true ∧ b = [i] := by
  constructor
  · intro enters
    cases enters with
    | body declaration => rcases shape with shape | shape <;> simp [shape,Shape.isDeclaration] at declaration
    | initializer field => simp [field] at shape
    | beside creation => simp [creation] at shape
    | child _ child named => exact ⟨_,child,named,rfl⟩
  · rintro ⟨i,child,named,rfl⟩
    exact .child shape child named

theorem Enters.ne_nil (enters : t.Enters b c) : b ≠ [] := by
  cases enters <;> simp

end Enters

/-- In a complete tree the located nodes are those that the rules of the walk name. -/
theorem mem_enteredAt_iff {q : Located} (complete : t.Complete) :
    q ∈ t.enteredAt a ↔ ∃ b, t.Enters b q.2 ∧ q.1 = a ++ b := by
  have present {r : Role} (required : t.kind.shape.required = some r) : (t.child? r).isSome = true := by
    obtain ⟨c,found⟩ := complete.child? required
    simp [found]
  have declaration (shape : t.kind.shape.isDeclaration = true) :
      q ∈ t.bodyPartsAt a ↔ ∃ b, t.Enters b q.2 ∧ q.1 = a ++ b := by
    simp only [mem_bodyPartsAt,enters_declaration_iff shape]
    constructor
    · rintro ⟨i,body,j,index,outer,inner,named,place⟩
      exact ⟨_,⟨i,body,j,index,outer,inner,named,rfl⟩,place⟩
    · rintro ⟨_,⟨i,body,j,index,outer,inner,named,rfl⟩,place⟩
      exact ⟨i,body,j,index,outer,inner,named,place⟩
  have plain (shape : t.kind.shape = .block ∨ t.kind.shape = .other) :
      q ∈ (t.parts a).filter (·.2.isNamed) ↔ ∃ b, t.Enters b q.2 ∧ q.1 = a ++ b := by
    simp only [List.mem_filter,mem_parts,enters_plain_iff shape]
    constructor
    · rintro ⟨⟨i,child,place⟩,named⟩
      exact ⟨_,⟨i,child,named,rfl⟩,place⟩
    · rintro ⟨_,⟨i,child,named,rfl⟩,place⟩
      exact ⟨⟨i,child,place⟩,named⟩
  unfold enteredAt
  cases shape : t.kind.shape with
  | type kind =>
    simp only [present (r := .name) (by rw [shape]; rfl),if_true]
    exact declaration (by rw [shape]; rfl)
  | method hasReturnType => exact declaration (by rw [shape]; rfl)
  | field =>
    simp only [present (r := .type) (by rw [shape]; rfl),if_true,List.mem_filterMap,List.mem_filter,
      mem_parts,part?_eq_some_iff,enters_field_iff shape,beq_iff_eq]
    constructor
    · rintro ⟨d,⟨⟨i,outer,place⟩,declares⟩,j,index,inner,inside⟩
      exact ⟨_,⟨i,d.2,j,outer,declares,index,inner,rfl⟩,by simp [inside,place]⟩
    · rintro ⟨_,⟨i,declarator,j,outer,declares,index,inner,rfl⟩,inside⟩
      exact ⟨(a ++ [i],declarator),⟨⟨i,outer,rfl⟩,declares⟩,j,index,inner,by simp [inside]⟩
  | creation =>
    simp only [List.mem_filter,mem_partsBeside,enters_creation_iff shape]
    constructor
    · rintro ⟨⟨i,child,place,other⟩,named⟩
      exact ⟨_,⟨i,child,named,other,rfl⟩,place⟩
    · rintro ⟨_,⟨i,child,named,other,rfl⟩,place⟩
      exact ⟨⟨i,child,place,other⟩,named⟩
  | block => exact plain (.inl shape)
  | other => exact plain (.inr shape)

theorem enteredAt_encloses {q : Located} (complete : t.Complete) (member : q ∈ t.enteredAt a) :
    Encloses a q.1 := by
  obtain ⟨b,enters,place⟩ := (mem_enteredAt_iff complete).mp member
  rw [place]
  exact encloses_append a enters.ne_nil

theorem Complete.at? {t u : Tree} {b : Address} (complete : t.Complete)
    (inside : Source.at? children t b = some u) : u.Complete := by
  induction b generalizing t with
  | nil =>
    cases inside
    exact complete
  | cons i b ih =>
    obtain ⟨c,child,inside⟩ := Option.bind_eq_some_iff.mp inside
    exact ih (complete.of_mem (List.mem_of_getElem? child)) inside

theorem enteredAt_complete {q : Located} (complete : t.Complete) (member : q ∈ t.enteredAt a) :
    q.2.Complete := by
  obtain ⟨b,enters,-⟩ := (mem_enteredAt_iff complete).mp member
  exact complete.at? enters.at?

theorem parts_apart (t : Tree) (a : Address) : Apart (t.parts a) := by
  refine List.pairwise_iff_getElem.mpr fun i j _ _ less => ?_
  simp only [parts,List.getElem_mapIdx]
  exact before_index a less [] []

theorem bodyPartsAt_apart (t : Tree) (a : Address) : Apart (t.bodyPartsAt a) := by
  unfold bodyPartsAt
  split
  · exact (parts_apart ..).filter _
  · exact .nil

theorem enteredAt_apart (t : Tree) (a : Address) : Apart (t.enteredAt a) := by
  unfold enteredAt
  split
  · split
    · exact t.bodyPartsAt_apart a
    · exact .nil
  · split
    · refine List.pairwise_filterMap.mpr (((t.parts_apart a).filter _).imp ?_)
      intro d e before p inD q inE
      obtain ⟨_,-,-,left⟩ := part?_eq_some_iff.mp inD
      obtain ⟨_,-,-,right⟩ := part?_eq_some_iff.mp inE
      rw [left, right]
      exact before.extend (List.prefix_append ..) (List.prefix_append ..)
    · exact .nil
  · exact t.bodyPartsAt_apart a
  · refine List.Pairwise.filter _ ?_
    unfold partsBeside
    split
    · exact (t.parts_apart a).eraseIdx _
    · exact t.parts_apart a
  · exact (t.parts_apart a).filter _
  · exact (t.parts_apart a).filter _

def tops (root : Tree) : List Located := (root.parts []).filter (isWalked ·.2)

theorem map_snd_tops (root : Tree) : root.tops.map Prod.snd = root.children.filter isWalked := by
  rw [tops, map_snd_filter, map_snd_parts]

theorem mem_tops_iff {root : Tree} {q : Located} :
    q ∈ root.tops ↔ ∃ i, root.children[i]? = some q.2 ∧ isWalked q.2 = true ∧ q.1 = [i] := by
  simp only [tops,List.mem_filter,mem_parts,List.nil_append]
  constructor
  · rintro ⟨⟨i,child,place⟩,walked⟩
    exact ⟨i,child,walked,place⟩
  · rintro ⟨i,child,walked,place⟩
    exact ⟨⟨i,child,place⟩,walked⟩

end Tree

/-! ## The nodes below located ones -/

/-- Complete nodes at different places, in the order of the document. -/
structure Orderly (ps : List Located) : Prop where
  apart : Tree.Apart ps
  complete : ∀ p ∈ ps, p.2.Complete

theorem Orderly.head {p : Located} {ps : List Located} (orderly : Orderly (p :: ps)) : p.2.Complete :=
  orderly.complete p (List.mem_cons_self ..)

theorem Orderly.tail {p : Located} {ps : List Located} (orderly : Orderly (p :: ps)) : Orderly ps :=
  ⟨(List.pairwise_cons.mp orderly.apart).2,fun q member =>
    orderly.complete q (List.mem_cons_of_mem _ member)⟩

theorem orderly_enteredAt {t : Tree} (complete : t.Complete) (a : Address) : Orderly (t.enteredAt a) :=
  ⟨t.enteredAt_apart a,fun _ => Tree.enteredAt_complete complete⟩

theorem orderly_tops {root : Tree} (complete : root.Complete) : Orderly root.tops := by
  refine ⟨(root.parts_apart []).filter _,?_⟩
  intro p member
  obtain ⟨i,child,-⟩ := Tree.mem_tops_iff.mp member
  exact complete.of_mem (List.mem_of_getElem? child)

/-- Induction along the walk over located nodes. -/
theorem located_induction {motive : List Located → Prop} (nil : motive [])
    (cons : ∀ a t ps, motive (t.enteredAt a) → motive ps → motive ((a,t) :: ps)) (ps : List Located) :
    motive ps := by
  have general : ∀ ts : List Tree, ∀ ps : List Located, ps.map Prod.snd = ts → motive ps := by
    intro ts
    induction ts using walk_induction with
    | nil =>
      intro ps same
      rw [List.map_eq_nil_iff.mp same]
      exact nil
    | cons t ts inside behind =>
      intro ps same
      cases ps with
      | nil => cases same
      | cons p ps =>
        obtain ⟨head,tail⟩ := List.cons.inj same
        obtain ⟨a,u⟩ := p
        cases head
        exact cons a u ps (inside _ (u.map_snd_enteredAt a)) (behind ps tail)
  exact general _ ps rfl

/-- From located nodes inside `depth` levels, the walk comes to a node. -/
inductive Within : List Located → Nat → Address → Nat → Tree → Prop
  | here {ps depth a t} (member : (a,t) ∈ ps) : Within ps depth a depth t
  | inside {ps depth a t b inner u} (member : (a,t) ∈ ps)
      (below : Within (t.enteredAt a) (depth + t.levels) b inner u) : Within ps depth b inner u

section Within

variable {ps : List Located} {depth inner : Nat} {a b : Address} {t u : Tree}

theorem not_within_nil : ¬Within [] depth b inner u := by
  rintro (⟨⟨⟩⟩ | ⟨⟨⟩,-⟩)

theorem within_singleton_iff :
    Within [(a,t)] depth b inner u ↔
      (b = a ∧ inner = depth ∧ u = t) ∨ Within (t.enteredAt a) (depth + t.levels) b inner u := by
  constructor
  · intro within
    cases within with
    | here member =>
      cases List.mem_singleton.mp member
      exact .inl ⟨rfl,rfl,rfl⟩
    | inside member below =>
      cases List.mem_singleton.mp member
      exact .inr below
  · rintro (⟨rfl,rfl,rfl⟩ | below)
    · exact .here (List.mem_singleton_self _)
    · exact .inside (List.mem_singleton_self _) below

theorem within_cons_iff {p : Located} :
    Within (p :: ps) depth b inner u ↔ Within [p] depth b inner u ∨ Within ps depth b inner u := by
  constructor
  · intro within
    cases within with
    | here member =>
      rcases List.mem_cons.mp member with rfl | later
      · exact .inl (.here (List.mem_singleton_self _))
      · exact .inr (.here later)
    | inside member below =>
      rcases List.mem_cons.mp member with rfl | later
      · exact .inl (.inside (List.mem_singleton_self _) below)
      · exact .inr (.inside later below)
  · have widen {qs : List Located} (part : ∀ q ∈ qs, q ∈ p :: ps) (within : Within qs depth b inner u) :
        Within (p :: ps) depth b inner u := by
      cases within with
      | here member => exact .here (part _ member)
      | inside member below => exact .inside (part _ member) below
    rintro (first | later)
    · exact widen (by simp) first
    · exact widen (fun q member => List.mem_cons_of_mem _ member) later

/-- Whatever the walk comes to stands inside one of the nodes it starts from. -/
theorem Within.origin (complete : ∀ p ∈ ps, p.2.Complete) (within : Within ps depth b inner u) :
    ∃ p ∈ ps, p.1 <+: b := by
  induction within with
  | here member => exact ⟨_,member,List.prefix_refl _⟩
  | inside member below ih =>
    have whole := complete _ member
    obtain ⟨q,entered,further⟩ := ih fun q => Tree.enteredAt_complete whole
    exact ⟨_,member,(Tree.enteredAt_encloses whole entered).1.trans further⟩

theorem Within.enclosed (complete : t.Complete) (within : Within (t.enteredAt a) depth b inner u) :
    Encloses a b := by
  obtain ⟨q,entered,further⟩ := within.origin fun q => Tree.enteredAt_complete complete
  exact (Tree.enteredAt_encloses complete entered).extend further

theorem Within.enter (within : Within ps depth a inner t) {q : Located} (member : q ∈ t.enteredAt a) :
    Within ps depth q.1 (inner + t.levels) q.2 := by
  induction within with
  | here start => exact .inside start (.here member)
  | inside start _ ih => exact .inside start (ih member)

theorem Within.complete (complete : ∀ p ∈ ps, p.2.Complete) (within : Within ps depth b inner u) :
    u.Complete := by
  induction within with
  | here member => exact complete _ member
  | inside member _ ih => exact ih fun q => Tree.enteredAt_complete (complete _ member)

/-- What the walk comes to from a node stands in front of what it comes to from a later one. -/
theorem Orderly.before {p : Located} {outer : Nat} (orderly : Orderly (p :: ps))
    (inHead : Within [p] depth a inner t) (inTail : Within ps depth b outer u) : Before a b := by
  obtain ⟨q,member,left⟩ := inHead.origin (by simpa using orderly.head)
  cases List.mem_singleton.mp member
  obtain ⟨q,member,right⟩ := inTail.origin orderly.tail.complete
  exact ((List.pairwise_cons.mp orderly.apart).1 q member).extend left right

end Within

/-- The walk from the top nodes comes to the nodes that the rules of the walk name. -/
theorem reaches_iff_within {root t : Tree} {a : Address} {depth : Nat} (complete : root.Complete) :
    root.Reaches a depth t ↔ Within root.tops 0 a depth t := by
  constructor
  · intro reached
    induction reached with
    | top child walked => exact .here (Tree.mem_tops_iff.mpr ⟨_,child,walked,rfl⟩)
    | enter _ enters ih =>
      have whole := ih.complete (orderly_tops complete).complete
      exact ih.enter (q := (_,_)) ((Tree.mem_enteredAt_iff whole).mpr ⟨_,enters,rfl⟩)
  · have general {ps : List Located} {start : Nat} (within : Within ps start a depth t)
        (reached : ∀ p ∈ ps, root.Reaches p.1 start p.2) : root.Reaches a depth t := by
      induction within with
      | here member => exact reached _ member
      | inside member _ ih =>
        have outer := reached _ member
        refine ih fun q entered => ?_
        obtain ⟨b,enters,place⟩ :=
          (Tree.mem_enteredAt_iff (complete.at? outer.at?)).mp entered
        rw [place]
        exact .enter outer enters
    intro within
    refine general within fun p member => ?_
    obtain ⟨i,child,walked,place⟩ := Tree.mem_tops_iff.mp member
    rw [place]
    exact .top child walked

end Coupling.Source
