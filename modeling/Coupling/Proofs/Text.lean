import Coupling.Text.Blank
import Coupling.Text.Dotted

/-! Texts at a character, at their ends, between separators and without their blanks. -/
namespace Coupling.Text

variable {c : Char}

theorem takeWhile_until {front : List Char} (free : c ∉ front) (rest : List Char) :
    (front ++ c :: rest).takeWhile (· != c) = front := by
  have others : ∀ d ∈ front, (d != c) = true := by
    intro d member
    exact bne_iff_ne.mpr fun same => free (same ▸ member)
  rw [List.takeWhile_append_of_pos others]
  simp

theorem splitLastChars_of_not_mem {cs : List Char} (free : c ∉ cs) : splitLastChars c cs = none := by
  induction cs with
  | nil => rfl
  | cons x rest ih =>
    simp only [List.mem_cons,not_or] at free
    simp [splitLastChars,ih free.2,Ne.symm free.1]

theorem splitLastChars_append {back : List Char} (free : c ∉ back) (front : List Char) :
    splitLastChars c (front ++ c :: back) = some (front,back) := by
  induction front with
  | nil => simp [splitLastChars,splitLastChars_of_not_mem free]
  | cons x rest ih => simp [splitLastChars,ih]

theorem eq_append_of_splitLastChars {cs front back : List Char}
    (split : splitLastChars c cs = some (front,back)) : cs = front ++ c :: back ∧ c ∉ back := by
  by_cases member : c ∈ cs
  · obtain ⟨last,rest,reversed,free⟩ := List.eq_append_cons_of_mem (List.mem_reverse.mpr member)
    have whole : cs = rest.reverse ++ c :: last.reverse := by
      rw [← List.reverse_reverse cs, reversed]
      simp
    have free' : c ∉ last.reverse := by simpa using free
    rw [whole, splitLastChars_append free'] at split
    cases split
    exact ⟨whole,free'⟩
  · rw [splitLastChars_of_not_mem member] at split
    cases split

theorem splitLast?_eq_some_iff {s front back : String} :
    splitLast? c s = some (front,back) ↔
      s.toList = front.toList ++ c :: back.toList ∧ c ∉ back.toList := by
  simp only [splitLast?,Option.map_eq_some_iff,Prod.mk.injEq,Prod.exists]
  constructor
  · rintro ⟨front,back,split,rfl,rfl⟩
    simpa using eq_append_of_splitLastChars split
  · rintro ⟨text,free⟩
    exact ⟨front.toList,back.toList,text ▸ splitLastChars_append free _,by simp,by simp⟩

theorem eq_append_of_endsWith {s ending : String} (ends : endsWith s ending = true) :
    ∃ front, s = front ++ ending := by
  obtain ⟨front,text⟩ := List.isSuffixOf_iff_suffix.mp ends
  refine ⟨String.ofList front,?_⟩
  rw [← String.toList_inj, String.toList_append, ← text]
  simp

theorem endsWith_append (front ending : String) : endsWith (front ++ ending) ending = true := by
  rw [endsWith, List.isSuffixOf_iff_suffix, String.toList_append]
  exact List.suffix_append ..

theorem forall_not_of_mem_splitOnP {p : Char → Bool} {cs piece : List Char} (member : piece ∈ cs.splitOnP p) :
    ∀ c ∈ piece, p c = false := by
  induction cs generalizing piece with
  | nil => simp_all
  | cons c rest ih =>
    obtain ⟨first,others,split⟩ := List.exists_cons_of_ne_nil (List.splitOnP_ne_nil p rest)
    rw [List.splitOnP_cons_eq_if_modifyHead] at member
    split at member
    · rcases List.mem_cons.mp member with rfl | later
      · simp
      · exact ih later
    · rename_i other
      rw [split] at ih member
      rcases List.mem_cons.mp member with rfl | later
      · exact List.forall_mem_cons.mpr ⟨by simpa using other,ih (List.mem_cons_self ..)⟩
      · exact ih (List.mem_cons_of_mem _ later)

/-- A segment in front of another one reaches to a separator, from the start of the text or from a separator
before it. -/
theorem bounded_of_mem_splitOn {name cs : List Char} (member : name ∈ (cs.splitOn c).dropLast) :
    name ++ [c] <+: cs ∨ c :: (name ++ [c]) <:+: cs := by
  have text : [c].intercalate (cs.splitOn c) = cs := List.intercalate_splitOn c
  rw [← text]
  clear text
  generalize cs.splitOn c = segments at member ⊢
  induction segments with
  | nil => cases member
  | cons first rest ih =>
    cases rest with
    | nil => cases member
    | cons second others =>
      rw [List.intercalate_cons_cons]
      generalize [c].intercalate (second :: others) = text at ih
      have behind : c :: text <:+ first ++ [c] ++ text := ⟨first,by simp⟩
      rcases List.mem_cons.mp member with rfl | later
      · exact .inl (List.prefix_append ..)
      · right
        rcases ih later with starts | inside
        · exact (List.cons_prefix_cons.mpr ⟨rfl,starts⟩).isInfix.trans behind.isInfix
        · exact inside.trans ((List.suffix_cons c text).trans behind).isInfix

theorem mem_splitOn_of_bounded {name cs : List Char} (free : c ∉ name)
    (bounded : name ++ [c] <+: cs ∨ c :: (name ++ [c]) <:+: cs) : name ∈ (cs.splitOn c).dropLast := by
  have first (rest : List Char) : name ∈ ((name ++ [c] ++ rest).splitOn c).dropLast := by
    have text : name ++ [c] ++ rest = name ++ c :: rest := by simp
    rw [text, List.splitOn_append_cons_self_of_not_mem free,
      List.dropLast_cons_of_ne_nil (List.splitOn_ne_nil c rest)]
    exact List.mem_cons_self ..
  rcases bounded with ⟨rest,rfl⟩ | ⟨front,rest,rfl⟩
  · exact first rest
  · have text : front ++ c :: (name ++ [c]) ++ rest = front ++ c :: (name ++ [c] ++ rest) := by simp
    rw [text, List.splitOn_append_cons_self, List.dropLast_append_of_ne_nil (List.splitOn_ne_nil _ _)]
    exact List.mem_append_right _ (first rest)

/-- The last segment is the whole text, or stands behind a separator. -/
theorem last_of_splitOn {front : List (List Char)} {last cs : List Char} (split : cs.splitOn c = front ++ [last]) :
    cs = last ∨ c :: last <:+ cs := by
  have text : [c].intercalate (cs.splitOn c) = cs := List.intercalate_splitOn c
  rw [← text, split]
  clear text split
  induction front with
  | nil => exact .inl List.intercalate_singleton
  | cons first rest ih =>
    right
    rw [List.cons_append, List.intercalate_cons_of_ne_nil (by simp)]
    generalize [c].intercalate (rest ++ [last]) = text at ih
    have behind : c :: text <:+ first ++ [c] ++ text := ⟨first,by simp⟩
    rcases ih with rfl | ends
    · exact behind
    · exact ends.trans ((List.suffix_cons c text).trans behind)

theorem removeBlanks_append (s s' : String) :
    removeBlanks (s ++ s') = removeBlanks s ++ removeBlanks s' := by
  simp [removeBlanks]

theorem removeBlanks_of_blank {s : String} (blank : isBlankText s = true) : removeBlanks s = "" := by
  have none : s.toList.filter (fun c => !isBlank c) = [] := by
    simpa [isBlankText] using blank
  rw [removeBlanks, none]

end Coupling.Text
