import Coupling.Classification
import Coupling.Proofs.Text
import Mathlib.Data.List.Chain

/-! Snippets as normal forms of texts. The layout of a text leaves no trace in its snippet, and a snippet has
itself as its snippet, wherever a long text was cut. -/
namespace Coupling

namespace Text

/-! ## Words -/

def pieces (s : String) : List String :=
  ((s.toList.splitOnP isBlank).filter (· ≠ [])).map String.ofList

/-- The text with a single space in place of all blanks between two pieces. -/
def flattened (s : String) : String := " ".intercalate (pieces s)

/-- Runs of blanks leave empty pieces behind, and these are no words. -/
theorem wordsOf_eq (cs : List Char) : wordsOf cs = (cs.splitOnP isBlank).filter (· ≠ []) := by
  fun_induction wordsOf cs with
  | case1 => rfl
  | case2 c cs blank ih => simp [List.splitOnP_cons_eq_if_modifyHead,blank,ih]
  | case3 c solid => simp [List.splitOnP_cons_eq_if_modifyHead,solid]
  | case4 c solid d rest blank ih =>
    simp only [List.splitOnP_cons_eq_if_modifyHead,blank] at ih
    simp [List.splitOnP_cons_eq_if_modifyHead,solid,blank,ih]
  | case5 c solid d rest solid' none ih =>
    obtain ⟨piece,pieces,split⟩ := List.exists_cons_of_ne_nil (List.splitOnP_ne_nil isBlank rest)
    simp [List.splitOnP_cons_eq_if_modifyHead,solid',split,none] at ih
  | case6 c solid d rest solid' word words found ih =>
    obtain ⟨piece,pieces,split⟩ := List.exists_cons_of_ne_nil (List.splitOnP_ne_nil isBlank rest)
    rw [found, List.splitOnP_cons_eq_if_modifyHead, if_neg solid', split] at ih
    obtain ⟨rfl,rfl⟩ : word = d :: piece ∧ words = pieces.filter (· ≠ []) := by simpa using ih
    rw [found, List.splitOnP_cons_eq_if_modifyHead, if_neg solid, List.splitOnP_cons_eq_if_modifyHead,
      if_neg solid', split]
    simp

theorem flattened_eq (s : String) : flattened s = " ".intercalate (words s) := by
  rw [flattened, pieces, words, wordsOf_eq]

theorem toList_flattened (s : String) : (flattened s).toList = [' '].intercalate (wordsOf s.toList) := by
  rw [flattened_eq, String.toList_intercalate, words, List.map_map]
  simp

/-- Words are not empty and have no blank in them. -/
theorem solid_of_mem_wordsOf {cs word : List Char} (member : word ∈ wordsOf cs) :
    word ≠ [] ∧ ∀ c ∈ word, isBlank c = false := by
  rw [wordsOf_eq, List.mem_filter] at member
  exact ⟨by simpa using member.2,forall_not_of_mem_splitOnP member.1⟩

/-- Where every blank is a space, the pieces are those between spaces. -/
theorem splitOnP_eq_splitOn {cs : List Char} (spaces : ∀ c ∈ cs, isBlank c = true → c = ' ') :
    cs.splitOnP isBlank = cs.splitOn ' ' := by
  rw [List.splitOn_eq_splitOnP]
  induction cs with
  | nil => rfl
  | cons c rest ih =>
    obtain ⟨first,later⟩ := List.forall_mem_cons.mp spaces
    have same : isBlank c = (c == ' ') := by
      rw [Bool.eq_iff_iff, beq_iff_eq]
      exact ⟨first,by rintro rfl; rfl⟩
    rw [List.splitOnP_cons_eq_if_modifyHead, List.splitOnP_cons_eq_if_modifyHead, ih later, same]

/-! ## Single spaces -/

/-- No blank at either end, none but spaces, and never two of them together. -/
structure SingleSpaced (cs : List Char) : Prop where
  start : ∀ c ∈ cs.head?, isBlank c = false
  finish : ∀ c ∈ cs.getLast?, isBlank c = false
  spaces : ∀ c ∈ cs, isBlank c = true → c = ' '
  single : cs.IsChain fun c d => ¬(isBlank c = true ∧ isBlank d = true)

namespace SingleSpaced

theorem of_solid {cs : List Char} (solid : ∀ c ∈ cs, isBlank c = false) : SingleSpaced cs where
  start c first := solid c (List.mem_of_head? first)
  finish c last := solid c (List.mem_of_getLast? last)
  spaces c member blank := by simp [solid c member] at blank
  single := by
    refine List.Pairwise.isChain (List.pairwise_of_forall_mem_list ?_)
    intro c member d _ blanks
    simp [solid c member] at blanks

/-- Two texts with a space between them. -/
theorem append {front back : List Char} (left : SingleSpaced front) (right : SingleSpaced back)
    (written : front ≠ []) (more : back ≠ []) : SingleSpaced (front ++ ' ' :: back) := by
  obtain ⟨x,xs,rfl⟩ := List.exists_cons_of_ne_nil written
  have last : (x :: xs ++ ' ' :: back).getLast? = back.getLast? := by
    rw [List.getLast?_append, List.getLast?_cons, List.getLast?_eq_some_getLast more]
    rfl
  constructor
  case start => exact left.start
  case finish =>
    rw [last]
    exact right.finish
  case spaces =>
    intro c member blank
    simp only [List.mem_append,List.mem_cons] at member
    rcases member with inside | rfl | inside
    · exact left.spaces c (List.mem_cons.mpr inside) blank
    · rfl
    · exact right.spaces c inside blank
  case single =>
    refine List.isChain_append.mpr ⟨left.single,?_,?_⟩
    · refine List.isChain_cons.mpr ⟨?_,right.single⟩
      intro d first blanks
      simp [right.start d first] at blanks
    · intro c last d _ blanks
      simp [left.finish c last] at blanks

theorem intercalate {words : List (List Char)}
    (solid : ∀ word ∈ words, word ≠ [] ∧ ∀ c ∈ word, isBlank c = false) :
    SingleSpaced ([' '].intercalate words) := by
  induction words with
  | nil => exact of_solid (by simp)
  | cons word rest ih =>
    obtain ⟨⟨written,blankless⟩,later⟩ := List.forall_mem_cons.mp solid
    cases rest with
    | nil => simpa using of_solid blankless
    | cons second others =>
      obtain ⟨x,xs,rfl⟩ := List.exists_cons_of_ne_nil (later second (List.mem_cons_self ..)).1
      have joined := append (of_solid blankless) (ih later) written (by simp [List.intercalate_cons_cons_left])
      simpa [List.intercalate_cons_cons] using joined

/-- A text cut anywhere behind its first character, with a mark behind it. -/
theorem cut {cs mark : List Char} (spaced : SingleSpaced cs) (n : Nat)
    (solid : ∀ c ∈ mark, isBlank c = false) (marked : mark ≠ []) :
    SingleSpaced (cs.take (n + 1) ++ mark) := by
  have last : (cs.take (n + 1) ++ mark).getLast? = mark.getLast? := by
    rw [List.getLast?_append, List.getLast?_eq_some_getLast marked]
    rfl
  constructor
  case start =>
    cases cs with
    | nil => simpa using (of_solid solid).start
    | cons x xs => exact spaced.start
  case finish =>
    rw [last]
    exact (of_solid solid).finish
  case spaces =>
    intro c member blank
    rcases List.mem_append.mp member with kept | inside
    · exact spaced.spaces c (List.mem_of_mem_take kept) blank
    · exact (of_solid solid).spaces c inside blank
  case single =>
    refine List.isChain_append.mpr ⟨spaced.single.take _,(of_solid solid).single,?_⟩
    intro c _ d first blanks
    simp [solid d (List.mem_of_head? first)] at blanks

/-- Between single spaces nothing is empty. -/
theorem nil_not_mem_splitOn {cs : List Char} (spaced : SingleSpaced cs) (written : cs ≠ []) :
    [] ∉ cs.splitOn ' ' := by
  intro member
  have split := List.dropLast_concat_getLast (List.splitOn_ne_nil ' ' cs)
  rw [← split, List.mem_append, List.mem_singleton] at member
  rcases member with inside | last
  · rcases bounded_of_mem_splitOn inside with starts | doubled
    · obtain ⟨rest,rfl⟩ := starts
      exact absurd (spaced.start ' ' rfl) (by decide)
    · have double := spaced.single.infix doubled
      simp [isBlank] at double
  · rcases last_of_splitOn split.symm with whole | ends
    · exact written (whole.trans last.symm)
    · obtain ⟨front,text⟩ := ends
      rw [← last] at text
      exact absurd (spaced.finish ' ' (by simp [← text])) (by decide)

/-- Single spaces are what joins the words of a text, so a text that has no others is rebuilt from its
words. -/
theorem intercalate_wordsOf {cs : List Char} (spaced : SingleSpaced cs) :
    [' '].intercalate (wordsOf cs) = cs := by
  by_cases written : cs = []
  · subst written
    rfl
  · have whole : (cs.splitOn ' ').filter (· ≠ []) = cs.splitOn ' ' := by
      refine List.filter_eq_self.mpr ?_
      intro piece member
      have filled : piece ≠ [] := fun empty => nil_not_mem_splitOn spaced written (empty ▸ member)
      simpa using filled
    rw [wordsOf_eq, splitOnP_eq_splitOn spaced.spaces, whole, List.intercalate_splitOn]

end SingleSpaced

end Text

/-! ## Snippets -/

theorem snippetOf_eq (s : String) : snippetOf s =
    if (Text.flattened s).length ≤ 80 then Text.flattened s
    else String.ofList ((Text.flattened s).toList.take 77) ++ "..." := by
  rw [Text.flattened_eq]
  rfl

theorem flattened_singleSpaced (s : String) : Text.SingleSpaced (Text.flattened s).toList := by
  rw [Text.toList_flattened]
  exact .intercalate fun word member => Text.solid_of_mem_wordsOf member

theorem snippetOf_singleSpaced (s : String) : Text.SingleSpaced (snippetOf s).toList := by
  have spaced := flattened_singleSpaced s
  rw [snippetOf_eq]
  split
  · exact spaced
  · have mark : "...".toList = List.replicate 3 '.' := rfl
    rw [String.toList_append, String.toList_ofList, mark]
    refine spaced.cut 76 ?_ (by simp)
    intro c member
    rw [List.eq_of_mem_replicate member]
    rfl

theorem length_snippetOf_le (s : String) : (snippetOf s).length ≤ 80 := by
  rw [snippetOf_eq]
  split
  · assumption
  · have mark : "...".length = 3 := rfl
    rw [String.length_append, String.length_ofList, List.length_take]
    omega

/-- What is short enough and single-spaced already stays as it is. -/
theorem snippetOf_of_singleSpaced {s : String} (spaced : Text.SingleSpaced s.toList) (short : s.length ≤ 80) :
    snippetOf s = s := by
  have flat : Text.flattened s = s := by
    rw [← String.toList_inj, Text.toList_flattened]
    exact spaced.intercalate_wordsOf
  rw [snippetOf_eq, flat, if_pos short]

/-- The snippet of a text is made of its words alone, with single spaces between them, is cut to the same
length wherever that falls, and is its own snippet. -/
theorem snippet_normal_form (s : String) :
    (snippetOf s).length ≤ 80 ∧ Text.SingleSpaced (snippetOf s).toList ∧
    (∀ s', Text.pieces s' = Text.pieces s → snippetOf s' = snippetOf s) ∧
    ((Text.flattened s).length ≤ 80 → snippetOf s = Text.flattened s) ∧
    (80 < (Text.flattened s).length →
      snippetOf s = String.ofList ((Text.flattened s).toList.take 77) ++ "...") ∧
    snippetOf (snippetOf s) = snippetOf s := by
  refine ⟨length_snippetOf_le s,snippetOf_singleSpaced s,?_,?_,?_,?_⟩
  · intro s' same
    rw [snippetOf_eq, snippetOf_eq, Text.flattened, Text.flattened, same]
  · intro short
    rw [snippetOf_eq, if_pos short]
  · intro long
    rw [snippetOf_eq, if_neg (Nat.not_le.mpr long)]
  · exact snippetOf_of_singleSpaced (snippetOf_singleSpaced s) (length_snippetOf_le s)

def longWord : List Char := List.replicate 76 'é'

/-- Two more words behind the long one, so that the cut falls right behind a space. -/
def laidOut (blanks : List Char) : String := String.ofList (longWord ++ (blanks ++ "cut here".toList))

theorem pieces_laidOut {blank : Char} {blanks : List Char} (first : Text.isBlank blank = true)
    (others : Text.pieces (String.ofList (blanks ++ "cut here".toList)) = ["cut","here"]) :
    Text.pieces (laidOut (blank :: blanks)) = [String.ofList longWord,"cut","here"] := by
  have solid : ∀ c ∈ longWord, Text.isBlank c = false := by
    intro c member
    rw [List.eq_of_mem_replicate member]
    rfl
  rw [Text.pieces, String.toList_ofList] at others
  rw [Text.pieces, laidOut, String.toList_ofList, List.cons_append,
    List.splitOnP_append_cons_of_forall_mem solid blank first, List.filter_cons_of_pos rfl,
    List.map_cons, others]

theorem snippet_normal_form_laidOut :
    Text.pieces (laidOut ['\u3000','\n',' ']) = Text.pieces (laidOut [' ']) ∧
    80 < (Text.flattened (laidOut [' '])).length ∧
    snippetOf (laidOut ['\u3000','\n',' ']) = String.ofList longWord ++ " ..." ∧
    snippetOf (String.ofList longWord ++ " ...") = String.ofList longWord ++ " ..." := by
  have narrow : Text.pieces (laidOut [' ']) = _ := pieces_laidOut (by rfl) (by rfl)
  have wide : Text.pieces (laidOut ['\u3000','\n',' ']) = _ := pieces_laidOut (by rfl) (by rfl)
  have flat : Text.flattened (laidOut [' ']) = String.ofList longWord ++ " cut here" := by
    rw [Text.flattened, narrow, String.intercalate_cons_cons, String.append_assoc]
    rfl
  have long : 80 < (Text.flattened (laidOut [' '])).length := by
    rw [flat, String.length_append, String.length_ofList, longWord, List.length_replicate]
    decide
  obtain ⟨-,-,words,-,cut,fixed⟩ := snippet_normal_form (laidOut [' '])
  have snippet : snippetOf (laidOut [' ']) = String.ofList longWord ++ " ..." := by
    have kept : (longWord ++ " cut here".toList).take 77 = longWord ++ [' '] := by
      rw [longWord, List.take_append, List.take_of_length_le (by simp), List.length_replicate]
      rfl
    rw [cut long, flat, String.toList_append, String.toList_ofList, kept, String.ofList_append,
      String.append_assoc]
    rfl
  rw [snippet] at fixed words
  have same := wide.trans narrow.symm
  exact ⟨same,long,words _ same,fixed⟩

end Coupling
