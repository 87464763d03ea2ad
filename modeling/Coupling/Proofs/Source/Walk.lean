import Coupling.Proofs.Source.Build

/-! The walk without its stack. What it makes of a list of nodes is made node by node, so that it can be
followed by recursion on the tree; and without a limit, the levels have no part in it. -/
namespace Coupling.Source

open Coupling.Source.Tree (nodeCountOf)

/-- Induction along the walk: what holds of the nodes inside a node and of those behind it holds of them
all. -/
theorem walk_induction {motive : List Tree → Prop} (nil : motive [])
    (cons : ∀ t ts, motive t.entered → motive ts → motive (t :: ts)) :
    ∀ ts, motive ts
  | [] => nil
  | t :: ts => cons t ts (walk_induction nil cons t.entered) (walk_induction nil cons ts)
termination_by ts => nodeCountOf ts
decreasing_by
  all_goals
    have inwards := t.nodeCountOf_entered_lt
    simp only [nodeCountOf]
    omega

/-! ## One node after the other -/

section

variable (limit : Option Nat) (l : Levels)

theorem walk_nil : walk limit [] l = ([],l) := by rw [walk]

theorem walk_other {t : Tree} (shape : t.kind.shape = .other) (ts : List Tree) :
    walk limit (t :: ts) l = walk limit (t.entered ++ ts) l := by
  rw [walk, shape]

theorem walk_field {t : Tree} (shape : t.kind.shape = .field) (ts : List Tree) :
    walk limit (t :: ts) l =
      let inner := walk limit t.entered l
      let rest := walk limit ts inner.2
      (t.build inner.1 ++ rest.1,rest.2) := by
  rw [walk, shape]

theorem walk_level {t : Tree} (level : t.kind.shape.isLevel = true) (ts : List Tree) :
    walk limit (t :: ts) l =
      let inner := l.nested limit t.line (walk limit t.entered)
      let rest := walk limit ts inner.2
      ((inner.1.map t.build).getD [] ++ rest.1,rest.2) := by
  rw [walk]
  cases shape : t.kind.shape with
  | type kind => rfl
  | method hasReturnType => rfl
  | creation => rfl
  | block => rfl
  | field => simp [shape,Shape.isLevel] at level
  | other => simp [shape,Shape.isLevel] at level

end

theorem Shape.level_cases (s : Shape) : s.isLevel = true ∨ s = .field ∨ s = .other := by
  cases s <;> simp [isLevel]

/-- What stands further down on the stack waits until everything above it is done. -/
theorem walk_append (limit : Option Nat) (ts us : List Tree) (l : Levels) :
    walk limit (ts ++ us) l =
      let first := walk limit ts l
      let second := walk limit us first.2
      (first.1 ++ second.1,second.2) := by
  induction ts using walk_induction generalizing us l with
  | nil => simp [walk_nil]
  | cons t ts inside behind =>
    rw [List.cons_append]
    rcases t.kind.shape.level_cases with level | field | other
    · simp only [walk_level limit l level,behind,List.append_assoc]
    · simp only [walk_field limit l field,behind,List.append_assoc]
    · rw [walk_other limit l other, walk_other limit l other, inside, inside]
      simp only [behind,List.append_assoc]

/-! ## Without a limit -/

/-- The constructs that a walk makes where nothing is too deep. -/
def constructsOf (ts : List Tree) : List Construct := (walk none ts ⟨0,none⟩).1

theorem nested_none {α : Type} (l : Levels) (line : Nat) (part : Levels → α × Levels) :
    l.nested none line part =
      let inner := part { l with depth := l.depth + 1 }
      (some inner.1,{ inner.2 with depth := l.depth }) := rfl

/-- Without a limit, neither the levels around a node nor what is noted about them matters. -/
theorem walk_none (ts : List Tree) (l : Levels) : walk none ts l = (constructsOf ts,l) := by
  have uniform : ∃ cs, ∀ l, walk none ts l = (cs,l) := by
    induction ts using walk_induction with
    | nil => exact ⟨[],walk_nil none⟩
    | cons t ts inside behind =>
      obtain ⟨inner,inside⟩ := inside
      obtain ⟨rest,behind⟩ := behind
      refine ⟨t.build inner ++ rest,fun l => ?_⟩
      rcases t.kind.shape.level_cases with level | field | other
      · simp [walk_level none l level,nested_none,inside,behind]
      · simp [walk_field none l field,inside,behind]
      · simp [walk_other none l other,walk_append,build_other other,inside,behind]
  obtain ⟨cs,uniform⟩ := uniform
  rw [constructsOf, uniform, uniform]

@[simp] theorem constructsOf_nil : constructsOf [] = [] := by rw [constructsOf, walk_nil]

theorem constructsOf_cons (t : Tree) (ts : List Tree) :
    constructsOf (t :: ts) = t.build (constructsOf t.entered) ++ constructsOf ts := by
  conv => lhs; unfold constructsOf
  rcases t.kind.shape.level_cases with level | field | other
  · simp [walk_level none _ level,nested_none,walk_none]
  · simp [walk_field none _ field,walk_none]
  · simp [walk_other none _ other,walk_append,walk_none,build_other other]

end Coupling.Source
