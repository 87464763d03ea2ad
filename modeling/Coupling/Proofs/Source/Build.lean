import Coupling.Proofs.Classification
import Coupling.Proofs.Source.Completeness
import Coupling.Proofs.Source.Heads

/-! What a single node contributes to an outline: a level makes one construct around those that are found
inside it, and a field stands in front of them. -/
namespace Coupling

/-! ## Constructs that enclose others -/

def Construct.isLevel : Construct → Bool
  | .type _ _ => true
  | .field _ _ => false
  | .method _ _ => true
  | .creation _ _ _ => true
  | .block _ => true

section Stands

variable {cs ds around : List Construct} {c p : Construct}

theorem stands_append_iff : Stands (cs ++ ds) around c ↔ Stands cs around c ∨ Stands ds around c := by
  constructor
  · intro stands
    cases stands with
    | here member => exact (List.mem_append.mp member).imp .here .here
    | inside member below =>
      exact (List.mem_append.mp member).imp (fun first => .inside first below)
        fun second => .inside second below
  · rintro (stands | stands)
    · cases stands with
      | here member => exact .here (List.mem_append_left _ member)
      | inside member below => exact .inside (List.mem_append_left _ member) below
    · cases stands with
      | here member => exact .here (List.mem_append_right _ member)
      | inside member below => exact .inside (List.mem_append_right _ member) below

theorem not_stands_nil : ¬Stands [] around c := by
  rintro (⟨⟨⟩⟩ | ⟨⟨⟩,-⟩)

theorem stands_singleton_iff :
    Stands [p] around c ↔
      (around = [] ∧ c = p) ∨ ∃ rest, around = p :: rest ∧ Stands p.children rest c := by
  constructor
  · intro stands
    cases stands with
    | here member => exact .inl ⟨rfl,List.mem_singleton.mp member⟩
    | inside member below =>
      cases List.mem_singleton.mp member
      exact .inr ⟨_,rfl,below⟩
  · rintro (⟨rfl,rfl⟩ | ⟨rest,rfl,below⟩)
    · exact .here (List.mem_singleton_self _)
    · exact .inside (List.mem_singleton_self _) below

/-- There are no levels among fields and inside them. -/
theorem not_level_of_fields (fields : ∀ f ∈ cs, ∃ type vs, f = .field type vs)
    (stands : Stands cs around c) : c.isLevel = false := by
  cases stands with
  | here member =>
    obtain ⟨_,_,rfl⟩ := fields _ member
    rfl
  | inside member below =>
    obtain ⟨_,_,rfl⟩ := fields _ member
    exact absurd below not_stands_nil

end Stands

/-! ## Constructs of a node -/

namespace Source

theorem components_fields (t : Tree) (kind : TypeKind) :
    ∀ f ∈ t.components kind, ∃ type vs, f = .field type vs := by
  intro f member
  unfold Tree.components at member
  split at member
  · obtain ⟨p,-,rfl⟩ := List.mem_map.mp member
    exact ⟨_,_,rfl⟩
  · cases member

/-- Shapes of nodes that always have a construct of their own: a field shares its construct with other
variables, and a block that encloses nothing is left out. -/
def Shape.isKept : Shape → Bool
  | .type _ => true
  | .field => false
  | .method _ => true
  | .creation => true
  | .block => false
  | .other => false

def keptKinds : List Kind :=
  [.classDeclaration,.interfaceDeclaration,.enumDeclaration,.recordDeclaration,
    .annotationTypeDeclaration,.methodDeclaration,.constructorDeclaration,
    .compactConstructorDeclaration,.annotationElementDeclaration,.objectCreation]

theorem isKept_iff_mem_keptKinds {k : Kind} : k.shape.isKept = true ↔ k ∈ keptKinds := by
  cases k <;> decide

theorem Shape.kept_cases (s : Shape) : s.isKept = true ∨ s = .block ∨ s = .field ∨ s = .other := by
  cases s <;> simp [isKept]

section Build

variable {t : Tree}

/-- What a walk makes of a kept node is one construct, around fields and what is inside the node. -/
theorem build_kept (complete : t.Complete) (kept : t.kind.shape.isKept = true) (inner : List Construct) :
    ∃ c fields, t.build inner = [c] ∧ Describes t c ∧ c.children = fields ++ inner ∧
      ∀ f ∈ fields, ∃ type vs, f = Construct.field type vs := by
  unfold Tree.build
  cases shape : t.kind.shape with
  | type kind =>
    obtain ⟨name,named⟩ := complete.child? (r := .name) (by rw [shape]; rfl)
    simp only [named]
    exact ⟨_,t.components kind,rfl,.type (describesType_typeHead shape named),rfl,components_fields t kind⟩
  | method hasReturnType => exact ⟨_,[],rfl,.method (describesMethod_methodHead shape),rfl,by simp⟩
  | creation =>
    obtain ⟨type,created⟩ := complete.child? (r := .type) (by rw [shape]; rfl)
    simp only [created]
    have describes : Describes t (.creation type.typeRef (some t.line) inner) :=
      .creation (shape_eq_creation_iff.mp shape) (hasRole_iff.mpr created) (saysType_iff.mpr rfl)
    exact ⟨_,[],rfl,describes,rfl,by simp⟩
  | field => simp [shape,Shape.isKept] at kept
  | block => simp [shape,Shape.isKept] at kept
  | other => simp [shape,Shape.isKept] at kept

theorem build_field (complete : t.Complete) (shape : t.kind.shape = .field) (inner : List Construct) :
    ∃ fields, t.build inner = fields ++ inner ∧ ∀ f ∈ fields, ∃ type vs, f = Construct.field type vs := by
  obtain ⟨type,typed⟩ := complete.child? (r := .type) (by rw [shape]; rfl)
  simp only [Tree.build,shape,typed]
  refine ⟨_,rfl,?_⟩
  intro f member
  obtain ⟨entry,-,rfl⟩ := List.mem_map.mp member
  exact ⟨_,_,rfl⟩

theorem build_block (shape : t.kind.shape = .block) (inner : List Construct) :
    t.build inner = if inner.isEmpty then [] else [.block inner] := by
  rw [Tree.build, shape]

theorem build_other (shape : t.kind.shape = .other) (inner : List Construct) : t.build inner = inner := by
  rw [Tree.build, shape]

/-- A level that makes anything makes one construct, around fields and what is inside the node. -/
theorem build_level_cases (complete : t.Complete) (level : t.kind.shape.isLevel = true)
    (inner : List Construct) :
    t.build inner = [] ∨ ∃ c fields, t.build inner = [c] ∧ c.children = fields ++ inner ∧
      ∀ f ∈ fields, ∃ type vs, f = Construct.field type vs := by
  rcases t.kind.shape.kept_cases with kept | block | field | other
  · obtain ⟨c,fields,built,-,children,allFields⟩ := build_kept complete kept inner
    exact .inr ⟨c,fields,built,children,allFields⟩
  · rw [build_block block]
    split
    · exact .inl rfl
    · exact .inr ⟨_,[],rfl,rfl,by simp⟩
  · simp [field,Shape.isLevel] at level
  · simp [other,Shape.isLevel] at level

end Build

end Source

end Coupling
