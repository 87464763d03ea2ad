import Coupling.Edge
import Coupling.Path

/-! The orders by which tables are sorted. Names, kinds and edges are equal when they compare as equal.
Paths are not: two spellings of the same components compare as equal, so their order is only total and
transitive. -/
namespace Coupling

/-- An order inherits its laws from any comparison that it agrees with. -/
theorem transOrd_of_eq {α : Type} [Ord α] {cmp : α → α → Ordering} [Std.TransCmp cmp]
    (agree : ∀ a b : α, compare a b = cmp a b) : Std.TransOrd α where
  eq_swap := by
    intro a b
    rw [agree, agree]
    exact Std.OrientedCmp.eq_swap
  isLE_trans := by
    intro a b c first second
    rw [agree] at first second ⊢
    exact Std.TransCmp.isLE_trans first second

/-! ## Kinds and edges -/

namespace DependencyKind

theorem rank_injective {a b : DependencyKind} (same : a.rank = b.rank) : a = b := by
  cases a <;> cases b <;> first | rfl | cases same

instance : Std.TransOrd DependencyKind :=
  inferInstanceAs (Std.TransCmp (compareOn rank))

instance : Std.LawfulEqOrd DependencyKind where
  compare_self := Std.ReflOrd.compare_self (α := Nat)
  eq_of_compare equal := rank_injective (Std.LawfulEqOrd.eq_of_compare (α := Nat) equal)

end DependencyKind

namespace Edge

theorem compareLines_eq (a b : Option Nat) : compareLines a b = compare a b := by
  cases a <;> cases b <;> rfl

/-- The order of edges is the lexicographic one of their five fields. -/
def compareFields : Edge → Edge → Ordering :=
  compareLex (compareOn source) <| compareLex (compareOn target) <| compareLex (compareOn kind) <|
    compareLex (compareOn snippet) (compareOn line)

theorem compare_eq_compareFields (a b : Edge) : compare a b = compareFields a b := by
  change Ordering.then _ _ = Ordering.then _ _
  rw [compareLines_eq]
  rfl

instance : Std.TransCmp compareFields := by
  unfold compareFields
  infer_instance

instance : Std.TransOrd Edge := transOrd_of_eq compare_eq_compareFields

instance : Std.LawfulEqOrd Edge where
  compare_self := by
    intro a
    rw [compare_eq_compareFields]
    exact Std.ReflCmp.compare_self
  eq_of_compare := by
    intro a b equal
    rw [compare_eq_compareFields] at equal
    simp only [compareFields,compareLex_eq_eq,compareOn,Std.LawfulEqOrd.compare_eq_iff_eq] at equal
    obtain ⟨source,target,kind,snippet,line⟩ := equal
    cases a; cases b
    simp_all

end Edge

/-! ## Paths -/

namespace Component

def key : Component → Nat × String
  | normal name => (3,name)
  | c => (c.rank,"")

def compareKeys : Component → Component → Ordering :=
  compareLex (compareOn fun c => c.key.1) (compareOn fun c => c.key.2)

theorem compare_eq_compareKeys (a b : Component) : compare a b = compareKeys a b := by
  cases a <;> cases b <;> rfl

instance : Std.TransCmp compareKeys := by
  unfold compareKeys
  infer_instance

instance : Std.TransOrd Component := transOrd_of_eq compare_eq_compareKeys

theorem key_injective {a b : Component} (same : a.key = b.key) : a = b := by
  cases a <;> cases b <;> simp_all [key,rank]

instance : Std.LawfulEqOrd Component where
  eq_of_compare equal := by
    simp only [compare_eq_compareKeys,compareKeys,compareLex_eq_eq,compareOn,
      Std.LawfulEqOrd.compare_eq_iff_eq] at equal
    exact key_injective (Prod.ext equal.1 equal.2)

end Component

namespace Path

theorem compareComponents_eq (as bs : List Component) :
    compareComponents as bs = List.compareLex compare as bs := by
  fun_induction compareComponents as bs with
  | case1 => rfl
  | case2 => rfl
  | case3 => rfl
  | case4 a as b bs ih => rw [List.compareLex_cons_cons, ih]

theorem compare_eq_compareOn (a b : Path) : compare a b = compareOn components a b :=
  compareComponents_eq a.components b.components

instance : Std.TransOrd Path := transOrd_of_eq compare_eq_compareOn

theorem compare_eq_iff {p q : Path} : compare p q = .eq ↔ p.components = q.components := by
  have lists (as bs : List Component) : compareComponents as bs = .eq ↔ as = bs := by
    fun_induction compareComponents as bs with
    | case1 => simp
    | case2 => simp
    | case3 => simp
    | case4 a as b bs ih => simp [Ordering.then_eq_eq,ih]
  exact lists p.components q.components

end Path

end Coupling
