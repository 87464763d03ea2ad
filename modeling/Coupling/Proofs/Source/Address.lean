/-! Places in a tree. A node is known by its address, the child indices on the way to it, since equal
nodes can stand at several places. The order of a document is that of addresses: what stands inside a
node comes after it, and the children of a node come one after the other. -/
namespace Coupling.Source

abbrev Address := List Nat

namespace Address

/-- The second address leads further inside. -/
def Encloses (a b : Address) : Prop := a <+: b ∧ a ≠ b

/-- Where the addresses part, the first one takes the earlier child. -/
def Before : Address → Address → Prop
  | i :: a, j :: b => i < j ∨ i = j ∧ Before a b
  | _, _ => False

def Precedes (a b : Address) : Prop := Encloses a b ∨ Before a b

variable {a b c : Address}

theorem encloses_append (a : Address) {r : Address} (further : r ≠ []) : Encloses a (a ++ r) :=
  ⟨List.prefix_append a r,by simpa using further⟩

theorem Encloses.extend (outer : Encloses a b) (further : b <+: c) : Encloses a c := by
  refine ⟨outer.1.trans further,?_⟩
  rintro rfl
  exact outer.2 (outer.1.eq_of_length_le further.length_le)

theorem Encloses.asymm (outer : Encloses a b) : ¬Encloses b a :=
  fun inner => (outer.extend inner.1).2 rfl

theorem before_append_iff (a : Address) : Before (a ++ b) (a ++ c) ↔ Before b c := by
  induction a with
  | nil => rfl
  | cons i a ih => simp [Before,ih]

theorem before_index (a : Address) {i j : Nat} (less : i < j) (b c : Address) :
    Before (a ++ i :: b) (a ++ j :: c) :=
  (before_append_iff a).mpr (.inl less)

/-- Whatever stands inside two places stands as they do. -/
theorem Before.extend (before : Before a b) {a' b' : Address} (left : a <+: a') (right : b <+: b') :
    Before a' b' := by
  obtain ⟨r,rfl⟩ := left
  obtain ⟨s,rfl⟩ := right
  fun_induction Before a b with
  | case1 i a j b ih =>
    simp only [List.cons_append,Before]
    exact before.imp_right fun same => ⟨same.1,ih same.2⟩
  | case2 => exact before.elim

theorem Before.asymm (before : Before a b) : ¬Before b a := by
  fun_induction Before a b with
  | case1 i a j b ih =>
    simp only [Before]
    rcases before with less | ⟨rfl,before⟩
    · omega
    · simpa using ih before
  | case2 => exact before.elim

theorem Before.irrefl (a : Address) : ¬Before a a := fun before => before.asymm before

theorem Before.not_encloses (before : Before a b) : ¬Encloses a b ∧ ¬Encloses b a := by
  constructor
  · intro inside
    exact Before.irrefl b (before.extend inside.1 (List.prefix_refl b))
  · intro inside
    exact Before.irrefl a (before.extend (List.prefix_refl a) inside.1)

theorem Precedes.asymm (first : Precedes a b) : ¬Precedes b a := by
  rintro (inside | before)
  · exact first.elim inside.asymm fun other => other.not_encloses.2 inside
  · exact first.elim before.not_encloses.2 before.asymm

end Address

open Address

section Places

variable {α : Type} (children : α → List α)

def at? : α → Address → Option α
  | t, [] => some t
  | t, i :: a => (children t)[i]?.bind fun c => at? c a

/-- What stands at an address, the first index of which counts the nodes of a list. -/
def below? (ts : List α) : Address → Option α
  | [] => none
  | i :: a => ts[i]?.bind fun t => at? children t a

theorem at?_append (t : α) (a b : Address) :
    at? children t (a ++ b) = (at? children t a).bind fun c => at? children c b := by
  induction a generalizing t with
  | nil => rfl
  | cons i a ih =>
    simp only [List.cons_append,at?]
    cases (children t)[i]? with
    | none => rfl
    | some c => exact ih c

end Places

end Coupling.Source
