/-! The first element of a list with a property, told by what stands in front of it. -/
namespace Coupling

def First {α : Type} (p : α → Prop) (xs : List α) (x : α) : Prop :=
  p x ∧ ∃ before after, xs = before ++ x :: after ∧ ∀ y ∈ before, ¬p y

theorem first_iff {α : Type} {p : α → Bool} {xs : List α} {x : α} :
    xs.find? p = some x ↔ First (p · = true) xs x := by
  simp [List.find?_eq_some_iff_append,First]

section First

variable {α : Type} {p : α → Prop} {xs : List α} {x : α}

theorem exists_first (some : ∃ x ∈ xs, p x) : ∃ x, First p xs x := by
  classical
  obtain ⟨x,member,has⟩ := some
  have isSome : (xs.find? (decide <| p ·)).isSome := List.find?_isSome.mpr ⟨x,member,by simpa using has⟩
  obtain ⟨first,found⟩ := Option.isSome_iff_exists.mp isSome
  exact ⟨first,by simpa using first_iff.mp found⟩

theorem First.mem (first : First p xs x) : x ∈ xs := by
  obtain ⟨-,before,after,rfl,-⟩ := first
  simp

theorem First.append (first : First p xs x) (ys : List α) : First p (xs ++ ys) x := by
  obtain ⟨has,before,after,rfl,others⟩ := first
  exact ⟨has,before,after ++ ys,by simp,others⟩

/-- One more element at the end is the first one only if there was none. -/
theorem first_concat_iff {y : α} :
    First p (xs ++ [y]) x ↔ First p xs x ∨ (x = y ∧ p y ∧ ∀ z ∈ xs, ¬p z) := by
  constructor
  · rintro ⟨has,before,after,split,others⟩
    rcases List.eq_nil_or_concat after with rfl | ⟨rest,last,rfl⟩
    · obtain ⟨rfl,rfl⟩ : xs = before ∧ y = x := by simpa using List.append_inj' split rfl
      exact .inr ⟨rfl,has,others⟩
    · rw [List.concat_eq_append, ← List.cons_append, ← List.append_assoc] at split
      obtain ⟨rfl,-⟩ := List.append_inj' split rfl
      exact .inl ⟨has,before,rest,rfl,others⟩
  · rintro (first | ⟨rfl,has,others⟩)
    · exact first.append [y]
    · exact ⟨has,xs,[],rfl,others⟩

end First

end Coupling
