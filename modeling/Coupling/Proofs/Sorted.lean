import Coupling.Sorted

/-! Sets and tables kept as sorted lists. Membership and lookup follow every write, whether or not the
list is sorted; sortedness makes a list the only one with its contents. -/
namespace Coupling.Sorted

variable {κ ν μ : Type} [Ord κ]

/-! ## Sets -/

/-- Strictly increasing, so that no two elements compare as equal. -/
def Strict (ks : List κ) : Prop := ks.Pairwise fun a b => compare a b = .lt

theorem mem_of_mem_add {k x : κ} {ks : List κ} (member : x ∈ add k ks) : x = k ∨ x ∈ ks := by
  induction ks with
  | nil => simpa [add] using member
  | cons k' rest ih =>
    simp only [add] at member
    split at member
    · simpa using member
    · exact .inr member
    · rcases List.mem_cons.mp member with rfl | later
      · exact .inr (List.mem_cons_self ..)
      · exact (ih later).imp_right (List.mem_cons_of_mem _)

theorem mem_add_of_mem {k x : κ} {ks : List κ} (member : x ∈ ks) : x ∈ add k ks := by
  induction ks with
  | nil => cases member
  | cons k' rest ih =>
    simp only [add]
    split
    · exact List.mem_cons_of_mem _ member
    · exact member
    · rcases List.mem_cons.mp member with rfl | later
      · exact List.mem_cons_self ..
      · exact List.mem_cons_of_mem _ (ih later)

/-- What is added is in the set, though perhaps in the form of an equal element. -/
theorem exists_equal_add [Std.ReflOrd κ] (k : κ) (ks : List κ) : ∃ x ∈ add k ks, compare k x = .eq := by
  induction ks with
  | nil => exact ⟨k,by simp [add],Std.ReflOrd.compare_self⟩
  | cons k' rest ih =>
    simp only [add]
    split
    · exact ⟨k,by simp,Std.ReflOrd.compare_self⟩
    · exact ⟨k',by simp,‹_›⟩
    · obtain ⟨x,member,equal⟩ := ih
      exact ⟨x,List.mem_cons_of_mem _ member,equal⟩

theorem add_strict [Std.TransOrd κ] {k : κ} {ks : List κ} (strict : Strict ks) :
    Strict (add k ks) := by
  induction ks with
  | nil => simp [add,Strict]
  | cons k' rest ih =>
    obtain ⟨head,tail⟩ := List.pairwise_cons.mp strict
    cases order : compare k k' with
    | lt =>
      simp only [add,order]
      refine List.pairwise_cons.mpr ⟨?_,strict⟩
      intro x member
      rcases List.mem_cons.mp member with rfl | later
      · exact order
      · exact Std.TransCmp.lt_trans order (head x later)
    | eq => simpa only [add,order] using strict
    | gt =>
      simp only [add,order]
      refine List.pairwise_cons.mpr ⟨?_,ih tail⟩
      intro x member
      rcases mem_of_mem_add member with rfl | later
      · exact Std.OrientedCmp.lt_of_gt order
      · exact head x later

/-- A new element goes between those below it and those above it, wherever a search finds the place. -/
theorem add_between [Std.OrientedOrd κ] {k : κ} {lower upper : List κ}
    (below : ∀ x ∈ lower, compare x k = .lt) (above : ∀ x ∈ upper, compare k x = .lt) :
    add k (lower ++ upper) = lower ++ k :: upper := by
  induction lower with
  | nil =>
    cases upper with
    | nil => rfl
    | cons first rest => simp [add,above first (List.mem_cons_self ..)]
  | cons first rest ih =>
    obtain ⟨less,later⟩ := List.forall_mem_cons.mp below
    have greater : compare k first = .gt := Std.OrientedCmp.gt_of_lt less
    simp [add,greater,ih later]

/-- An element that is equal to one of a sorted list changes nothing. -/
theorem add_equal [Std.TransOrd κ] {k x : κ} {ks : List κ} (strict : Strict ks) (member : x ∈ ks)
    (equal : compare k x = .eq) : add k ks = ks := by
  induction ks with
  | nil => cases member
  | cons first rest ih =>
    obtain ⟨head,tail⟩ := List.pairwise_cons.mp strict
    rcases List.mem_cons.mp member with rfl | later
    · simp [add,equal]
    · have greater : compare k first = .gt := by
        rw [Std.TransCmp.congr_left equal]
        exact Std.OrientedCmp.gt_of_lt (head x later)
      simp [add,greater,ih tail later]

/-- An element is new in a sorted list, or an equal one was there before. -/
theorem mem_add_iff_of_strict [Std.TransOrd κ] {k x : κ} {ks : List κ} (strict : Strict ks) :
    x ∈ add k ks ↔ x ∈ ks ∨ (x = k ∧ ∀ y ∈ ks, compare k y ≠ .eq) := by
  by_cases known : ∃ y ∈ ks, compare k y = .eq
  · obtain ⟨y,member,equal⟩ := known
    rw [add_equal strict member equal]
    exact ⟨.inl,fun inside => inside.resolve_right fun new => new.2 y member equal⟩
  · have new : ∀ y ∈ ks, compare k y ≠ .eq := fun y member equal => known ⟨y,member,equal⟩
    obtain ⟨y,member,equal⟩ := exists_equal_add k ks
    have self : k ∈ add k ks := by
      rcases mem_of_mem_add member with rfl | old
      · exact member
      · exact absurd equal (new y old)
    constructor
    · exact fun inside => (mem_of_mem_add inside).symm.imp_right fun same => ⟨same,new⟩
    · rintro (old | ⟨rfl,-⟩)
      · exact mem_add_of_mem old
      · exact self

theorem ofList_strict [Std.TransOrd κ] (ks : List κ) : Strict (ofList ks) := by
  have kept : ∀ s : List κ, Strict s → Strict (ks.foldl (fun s k => add k s) s) := by
    induction ks with
    | nil => exact fun s strict => strict
    | cons first rest ih => exact fun s strict => ih _ (add_strict strict)
  exact kept [] .nil

theorem length_add_of_new {k : κ} {ks : List κ} (new : has k ks = false) :
    (add k ks).length = ks.length + 1 := by
  induction ks with
  | nil => rfl
  | cons k' rest ih =>
    simp only [has,List.any_cons,Bool.or_eq_false_iff,decide_eq_false_iff_not] at new
    simp only [add]
    split
    · rfl
    · exact absurd ‹_› new.1
    · simp only [List.length_cons,ih new.2]

theorem Strict.nodup [Std.ReflOrd κ] {ks : List κ} (strict : Strict ks) : ks.Nodup := by
  refine strict.imp ?_
  rintro a b order rfl
  simp [Std.ReflOrd.compare_self] at order

section LawfulEq

variable [Std.LawfulEqOrd κ]

@[simp] theorem mem_add {k x : κ} {ks : List κ} : x ∈ add k ks ↔ x = k ∨ x ∈ ks := by
  refine ⟨mem_of_mem_add,?_⟩
  rintro (rfl | member)
  · induction ks with
    | nil => simp [add]
    | cons k' rest ih =>
      simp only [add]
      split
      · exact List.mem_cons_self ..
      · rename_i equal
        rw [Std.LawfulEqOrd.compare_eq_iff_eq.mp equal]
        exact List.mem_cons_self ..
      · exact List.mem_cons_of_mem _ ih
  · exact mem_add_of_mem member

@[simp] theorem has_iff {k : κ} {ks : List κ} : has k ks = true ↔ k ∈ ks := by
  simp [has]

theorem mem_ofList {k : κ} {ks : List κ} : k ∈ ofList ks ↔ k ∈ ks := by
  have grown : ∀ s : List κ, k ∈ ks.foldl (fun s k => add k s) s ↔ k ∈ ks ∨ k ∈ s := by
    induction ks with
    | nil => simp
    | cons first rest ih =>
      intro s
      rw [List.foldl_cons, ih, mem_add, List.mem_cons, or_left_comm, ← or_assoc]
  exact (grown []).trans (by simp)

end LawfulEq

/-- Elements of a sorted list that compare as equal are the same one. -/
theorem Strict.eq_of_compare [Std.TransOrd κ] {a b : κ} {ks : List κ} (strict : Strict ks)
    (inA : a ∈ ks) (inB : b ∈ ks) (equal : compare a b = .eq) : a = b := by
  induction ks with
  | nil => cases inA
  | cons k rest ih =>
    obtain ⟨head,tail⟩ := List.pairwise_cons.mp strict
    rcases List.mem_cons.mp inA with rfl | laterA
    · rcases List.mem_cons.mp inB with rfl | laterB
      · rfl
      · rw [head b laterB] at equal
        cases equal
    · rcases List.mem_cons.mp inB with rfl | laterB
      · rw [Std.OrientedOrd.eq_swap, head a laterA] at equal
        cases equal
      · exact ih tail laterA laterB

/-- A sorted list is determined by its elements. -/
theorem Strict.eq_of_mem_iff [Std.TransOrd κ] {ks ls : List κ} (left : Strict ks) (right : Strict ls)
    (same : ∀ k, k ∈ ks ↔ k ∈ ls) : ks = ls := by
  have perm := (List.perm_ext_iff_of_nodup left.nodup right.nodup).mpr same
  refine perm.eq_of_pairwise ?_ left right
  intro a b _ _ below above
  rw [Std.OrientedOrd.eq_swap, above] at below
  cases below

/-! ## Tables -/

theorem keys_insert (k : κ) (v : ν) (t : List (κ × ν)) :
    (insert k v t).map Prod.fst = add k (t.map Prod.fst) := by
  induction t with
  | nil => rfl
  | cons entry rest ih =>
    obtain ⟨k',v'⟩ := entry
    simp only [insert,List.map_cons,add]
    split <;> simp [ih]

/-- An entry behind all others is written at the end. -/
theorem insert_last [Std.OrientedOrd κ] {k : κ} {t : List (κ × ν)}
    (below : ∀ key ∈ t.map Prod.fst, compare key k = .lt) (v : ν) : insert k v t = t ++ [(k,v)] := by
  induction t with
  | nil => rfl
  | cons entry rest ih =>
    obtain ⟨first,later⟩ := List.forall_mem_cons.mp below
    simp only [insert,Std.OrientedOrd.eq_swap (a := k),first,Ordering.swap_lt,ih later,List.cons_append]

theorem mem_of_mem_insert [Std.ReflOrd κ] {k : κ} {v : ν} {entry : κ × ν} {t : List (κ × ν)}
    (member : entry ∈ insert k v t) :
    (compare k entry.1 = .eq ∧ entry.2 = v) ∨ entry ∈ t := by
  induction t with
  | nil =>
    cases List.mem_singleton.mp member
    exact .inl ⟨Std.ReflOrd.compare_self,rfl⟩
  | cons first rest ih =>
    obtain ⟨k',v'⟩ := first
    simp only [insert] at member
    split at member
    · rcases List.mem_cons.mp member with rfl | later
      · exact .inl ⟨Std.ReflOrd.compare_self,rfl⟩
      · exact .inr later
    · rename_i same
      rcases List.mem_cons.mp member with rfl | later
      · exact .inl ⟨same,rfl⟩
      · exact .inr (List.mem_cons_of_mem _ later)
    · rcases List.mem_cons.mp member with rfl | later
      · exact .inr (List.mem_cons_self ..)
      · exact (ih later).imp_right (List.mem_cons_of_mem _)

/-- What holds of all values holds of them after a write. -/
theorem forall_value_insert [Std.ReflOrd κ] {p : ν → Prop} {t : List (κ × ν)}
    (all : ∀ entry ∈ t, p entry.2) (k : κ) {v : ν} (holds : p v) : ∀ entry ∈ insert k v t, p entry.2 := by
  intro entry member
  rcases mem_of_mem_insert member with ⟨-,value⟩ | old
  · rwa [value]
  · exact all entry old

/-- Values that stand under their own names still do after a write under a value's own name. -/
theorem own_insert [Std.LawfulEqOrd κ] {name : ν → κ} {t : List (κ × ν)}
    (own : ∀ entry ∈ t, name entry.2 = entry.1) (v : ν) :
    ∀ entry ∈ insert (name v) v t, name entry.2 = entry.1 := by
  intro entry member
  rcases mem_of_mem_insert member with ⟨key,value⟩ | old
  · rw [value]
    exact Std.LawfulEqOrd.compare_eq_iff_eq.mp key
  · exact own entry old

theorem mem_of_find? {k : κ} {v : ν} {t : List (κ × ν)} (found : find? k t = some v) :
    ∃ key, (key,v) ∈ t := by
  induction t with
  | nil => cases found
  | cons first rest ih =>
    obtain ⟨k',v'⟩ := first
    simp only [find?] at found
    split at found
    · cases found
      exact ⟨k',List.mem_cons_self ..⟩
    · obtain ⟨key,member⟩ := ih found
      exact ⟨key,List.mem_cons_of_mem _ member⟩

theorem find?_congr [Std.TransOrd κ] {k k' : κ} (equal : compare k k' = .eq) (t : List (κ × ν)) :
    find? k t = find? k' t := by
  induction t with
  | nil => rfl
  | cons entry rest ih => rw [find?, find?, Std.TransCmp.congr_left equal, ih]

theorem find?_of_mem [Std.TransOrd κ] {k : κ} {v : ν} {t : List (κ × ν)}
    (strict : Strict (t.map Prod.fst)) (member : (k,v) ∈ t) : find? k t = some v := by
  induction t with
  | nil => cases member
  | cons entry rest ih =>
    obtain ⟨head,tail⟩ := List.pairwise_cons.mp strict
    rcases List.mem_cons.mp member with rfl | later
    · simp [find?,Std.ReflOrd.compare_self]
    · have below := head k (List.mem_map_of_mem later)
      rw [find?, if_neg (by simp [Std.OrientedOrd.eq_swap (a := k),below]), ih tail later]

theorem find?_insert [Std.TransOrd κ] (k k' : κ) (v : ν) (t : List (κ × ν)) :
    find? k (insert k' v t) = if compare k k' = .eq then some v else find? k t := by
  induction t with
  | nil => simp [insert,find?]
  | cons entry rest ih =>
    obtain ⟨key,value⟩ := entry
    simp only [insert]
    split
    · simp [find?]
    · rename_i same
      have alike : compare k k' = compare k key := Std.TransCmp.congr_right same
      simp only [find?,alike]
      split <;> rfl
    · rename_i above
      by_cases same : compare k key = .eq
      · have apart : compare k k' ≠ .eq := by
          rw [Std.TransCmp.congr_left same, Std.OrientedOrd.eq_swap, above]
          decide
        simp [find?,same,apart]
      · simp [find?,same,ih]

theorem mem_keys_iff [Std.LawfulEqOrd κ] {k : κ} {t : List (κ × ν)} :
    k ∈ t.map Prod.fst ↔ (find? k t).isSome := by
  induction t with
  | nil => simp [find?]
  | cons entry rest ih =>
    obtain ⟨key,value⟩ := entry
    rw [List.map_cons, List.mem_cons, ih]
    by_cases same : k = key
    · simp [find?,same]
    · simp [find?,same]

/-- In a sorted table of lawful keys, an entry is found exactly under its own key. -/
theorem find?_eq_some_iff [Std.TransOrd κ] [Std.LawfulEqOrd κ] {k : κ} {v : ν} {t : List (κ × ν)}
    (strict : Strict (t.map Prod.fst)) : find? k t = some v ↔ (k,v) ∈ t := by
  induction t with
  | nil => simp [find?]
  | cons entry rest ih =>
    obtain ⟨key,value⟩ := entry
    obtain ⟨head,tail⟩ := List.pairwise_cons.mp strict
    by_cases same : compare k key = .eq
    · have equal : k = key := Std.LawfulEqOrd.compare_eq_iff_eq.mp same
      subst equal
      have absent : (k,v) ∉ rest := by
        intro member
        have order := head k (List.mem_map.mpr ⟨(k,v),member,rfl⟩)
        rw [same] at order
        cases order
      simp [find?,absent,eq_comm]
    · have different : k ≠ key := fun equal => same (Std.LawfulEqOrd.compare_eq_iff_eq.mpr equal)
      simp [find?,same,different,ih tail]

/-- Two sorted tables with the same lookups are equal. -/
theorem ext [Std.TransOrd κ] [Std.LawfulEqOrd κ] {t u : List (κ × ν)}
    (left : Strict (t.map Prod.fst)) (right : Strict (u.map Prod.fst))
    (agree : ∀ k, find? k t = find? k u) : t = u := by
  have members : ∀ entry : κ × ν, entry ∈ t ↔ entry ∈ u := by
    rintro ⟨k,v⟩
    rw [← find?_eq_some_iff left, ← find?_eq_some_iff right, agree]
  have distinct {w : List (κ × ν)} (strict : Strict (w.map Prod.fst)) : w.Nodup :=
    List.Pairwise.of_map Prod.fst (fun _ _ apart same => apart (congrArg Prod.fst same)) strict.nodup
  have perm : t.Perm u :=
    (List.perm_ext_iff_of_nodup (distinct left) (distinct right)).mpr members
  refine perm.eq_of_pairwise ?_ (List.pairwise_map.mp left) (List.pairwise_map.mp right)
  intro a b _ _ below above
  rw [Std.OrientedOrd.eq_swap, above] at below
  cases below

/-- A key below all others is not in the table. -/
theorem find?_eq_none_of_lt {k : κ} {t : List (κ × ν)}
    (below : ∀ key ∈ t.map Prod.fst, compare k key = .lt) : find? k t = none := by
  induction t with
  | nil => rfl
  | cons entry rest ih =>
    obtain ⟨first,later⟩ := List.forall_mem_cons.mp below
    simp [find?,first,ih later]

theorem erase_sublist (k : κ) (t : List (κ × ν)) : (erase k t).Sublist t := by
  induction t with
  | nil => exact .slnil
  | cons entry rest ih =>
    simp only [erase]
    split
    · exact List.sublist_cons_self ..
    · exact ih.cons_cons _

theorem find?_erase [Std.TransOrd κ] {t : List (κ × ν)} (strict : Strict (t.map Prod.fst)) (k k' : κ) :
    find? k (erase k' t) = if compare k k' = .eq then none else find? k t := by
  induction t with
  | nil => simp [erase,find?]
  | cons entry rest ih =>
    obtain ⟨head,tail⟩ := List.pairwise_cons.mp strict
    by_cases erased : compare k' entry.1 = .eq
    · have alike : compare k k' = compare k entry.1 := Std.TransCmp.congr_right erased
      simp only [erase,erased,if_true,find?,alike]
      split
      · rename_i same
        refine find?_eq_none_of_lt fun key member => ?_
        rw [Std.TransCmp.congr_left same]
        exact head key member
      · rfl
    · simp only [erase,erased,if_false,find?,ih tail]
      by_cases same : compare k entry.1 = .eq
      · have apart : compare k k' ≠ .eq := fun equal =>
          erased ((Std.TransCmp.congr_left equal).symm.trans same)
        simp only [same,if_true,apart,if_false]
      · simp only [same,if_false]

/-! ## Sums over a table -/

def total (weight : ν → Nat) (t : List (κ × ν)) : Nat := t.foldr (fun entry n => weight entry.2 + n) 0

omit [Ord κ] in
theorem total_one (t : List (κ × ν)) : total (fun _ => 1) t = t.length := by
  induction t with
  | nil => rfl
  | cons entry rest ih =>
    rw [List.length_cons, ← ih, Nat.add_comm]
    rfl

/-- A write adds the weight of the new value and takes away that of the replaced one. -/
theorem total_insert [Std.TransOrd κ] (weight : ν → Nat) {t : List (κ × ν)}
    (strict : Strict (t.map Prod.fst)) (k : κ) (v : ν) :
    total weight (insert k v t) + ((find? k t).map weight).getD 0 = total weight t + weight v := by
  induction t with
  | nil => simp [insert,find?,total]
  | cons entry rest ih =>
    obtain ⟨head,tail⟩ := List.pairwise_cons.mp strict
    have before := ih tail
    cases order : compare k entry.1 with
    | lt =>
      have missing : find? k (entry :: rest) = none := by
        refine find?_eq_none_of_lt (List.forall_mem_cons.mpr ⟨order,fun key member => ?_⟩)
        exact Std.TransCmp.lt_trans order (head key member)
      simp only [missing,insert,order]
      simp [total]
      omega
    | eq =>
      simp [insert,find?,order,total]
      omega
    | gt =>
      simp [insert,find?,order,total] at before ⊢
      omega

omit [Ord κ] in
/-- Where keys decide about weights, it is enough to look at the keys. -/
theorem total_eq_foldr_keys {weight : ν → Nat} {f : κ → Nat} {t : List (κ × ν)}
    (agree : ∀ entry ∈ t, weight entry.2 = f entry.1) :
    total weight t = (t.map Prod.fst).foldr (fun k n => f k + n) 0 := by
  induction t with
  | nil => rfl
  | cons entry rest ih =>
    obtain ⟨first,later⟩ := List.forall_mem_cons.mp agree
    rw [List.map_cons, List.foldr_cons, ← ih later, ← first]
    rfl

omit [Ord κ] in
/-- Among elements with distinct keys, each is the first one with its key. -/
theorem find?_of_distinct [BEq κ] [LawfulBEq κ] {key : ν → κ} {xs : List ν} {x : ν}
    (distinct : (xs.map key).Nodup) (member : x ∈ xs) : xs.find? (key · == key x) = some x := by
  induction xs with
  | nil => cases member
  | cons first rest ih =>
    obtain ⟨apart,later⟩ := List.nodup_cons.mp distinct
    rcases List.mem_cons.mp member with rfl | behind
    · exact List.find?_cons_of_pos (by simp)
    · have other : key first ≠ key x := fun same => apart (same ▸ List.mem_map_of_mem behind)
      rw [List.find?_cons_of_neg (by simpa using other)]
      exact ih later behind

/-! ## Values

A write does not look at values, so a map over them passes through every operation. -/

section Values

variable (f : ν → μ)

def mapValues (t : List (κ × ν)) : List (κ × μ) := t.map fun e => (e.1,f e.2)

theorem mapValues_insert (k : κ) (v : ν) (t : List (κ × ν)) :
    mapValues f (insert k v t) = insert k (f v) (mapValues f t) := by
  induction t with
  | nil => rfl
  | cons entry rest ih =>
    obtain ⟨k',v'⟩ := entry
    simp only [mapValues,insert,List.map_cons] at ih ⊢
    split <;> simp [ih]

theorem find?_mapValues (k : κ) (t : List (κ × ν)) :
    find? k (mapValues f t) = (find? k t).map f := by
  induction t with
  | nil => rfl
  | cons entry rest ih =>
    obtain ⟨k',v'⟩ := entry
    simp only [mapValues,List.map_cons,find?] at ih ⊢
    split <;> simp [ih]

theorem mapValues_erase (k : κ) (t : List (κ × ν)) :
    mapValues f (erase k t) = erase k (mapValues f t) := by
  induction t with
  | nil => rfl
  | cons entry rest ih =>
    obtain ⟨k',v'⟩ := entry
    simp only [mapValues,List.map_cons,erase] at ih ⊢
    split <;> simp [ih]

end Values

end Coupling.Sorted
