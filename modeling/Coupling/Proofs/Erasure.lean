import Coupling.Proofs.Classification
import Coupling.Proofs.Spelling

/-! Written types with arguments behind any of their segments. Erasing cuts such a type at its first bracket,
so a member of a type with arguments is lost: it is resolved as that type. -/
namespace Coupling

/-! ## Brackets -/

namespace Text

/-- Whether all brackets of a text are closed, and `depth` further ones. -/
def closes : Nat → List Char → Bool
  | depth, [] => depth == 0
  | depth, c :: cs =>
    if c = '<' then closes (depth + 1) cs
    else if c = '>' then depth != 0 && closes (depth - 1) cs
    else closes depth cs

/-- What stands outside all brackets, of which `depth` are open in front. -/
def outside : Nat → List Char → List Char
  | _, [] => []
  | depth, c :: cs =>
    if c = '<' then outside (depth + 1) cs
    else if c = '>' then outside (depth - 1) cs
    else if depth = 0 then c :: outside 0 cs
    else outside depth cs

def withoutBrackets (s : String) : String := String.ofList (outside 0 s.toList)

theorem outside_free {cs : List Char} (noOpening : '<' ∉ cs) (noClosing : '>' ∉ cs) (rest : List Char) :
    outside 0 (cs ++ rest) = cs ++ outside 0 rest := by
  induction cs with
  | nil => rfl
  | cons c cs ih =>
    simp only [List.mem_cons,not_or] at noOpening noClosing
    simp [outside,Ne.symm noOpening.1,Ne.symm noClosing.1,ih noOpening.2 noClosing.2]

/-- Nothing of a text that closes its brackets stands outside, if one more is open around it. -/
theorem outside_closes {cs : List Char} {depth : Nat} (closed : closes depth cs = true) (around : Nat)
    (rest : List Char) : outside (depth + around + 1) (cs ++ rest) = outside (around + 1) rest := by
  induction cs generalizing depth with
  | nil =>
    obtain rfl : depth = 0 := by simpa [closes] using closed
    simp
  | cons c cs ih =>
    rw [List.cons_append, outside]
    rw [closes] at closed
    split
    · rename_i opening
      rw [if_pos opening] at closed
      have inner := ih closed
      rwa [Nat.add_right_comm depth 1] at inner
    · rename_i noOpening
      rw [if_neg noOpening] at closed
      split
      · rename_i closing
        rw [if_pos closing, Bool.and_eq_true, bne_iff_ne] at closed
        obtain ⟨before,rfl⟩ := Nat.exists_eq_succ_of_ne_zero closed.1
        have inner := ih closed.2
        rw [← inner]
        congr 1
        omega
      · rename_i noClosing
        rw [if_neg noClosing] at closed
        rw [if_neg (by omega), ih closed]

theorem outside_brackets {inner : List Char} (closed : closes 0 inner = true) (rest : List Char) :
    outside 0 ('<' :: (inner ++ '>' :: rest)) = outside 0 rest := by
  have within := outside_closes closed 0 ('>' :: rest)
  rw [Nat.add_zero] at within
  rw [outside, if_pos rfl, within, outside, if_neg (by decide), if_pos rfl]

end Text

/-! ## Segments -/

/-- A segment of a written type: an identifier, and what stands between the brackets behind it, if there are
any. -/
structure Segment where
  name : String
  arguments : Option String
  identifier : isIdentifier name = true
  closed : ∀ inner ∈ arguments, Text.closes 0 inner.toList = true

namespace Segment

def argumentsText (s : Segment) : String := (s.arguments.map fun inner => "<" ++ inner ++ ">").getD ""

def text (s : Segment) : String := s.name ++ s.argumentsText

theorem argumentsText_of_none {s : Segment} (none : s.arguments = none) : s.argumentsText = "" := by
  simp [argumentsText,none]

/-- All that stands outside the brackets of a segment is its name. -/
theorem outside_text (s : Segment) (rest : List Char) :
    Text.outside 0 (s.text.toList ++ rest) = s.name.toList ++ Text.outside 0 rest := by
  have noOpening : '<' ∉ s.name.toList := not_mem_of_isIdentifier s.identifier (by decide) (by decide)
  have noClosing : '>' ∉ s.name.toList := not_mem_of_isIdentifier s.identifier (by decide) (by decide)
  rw [text, String.toList_append, List.append_assoc, Text.outside_free noOpening noClosing]
  cases found : s.arguments with
  | none => simp [argumentsText_of_none found]
  | some inner =>
    have brackets : s.argumentsText.toList ++ rest = '<' :: (inner.toList ++ '>' :: rest) := by
      simp [argumentsText,found]
    rw [brackets, Text.outside_brackets (s.closed inner found)]

/-! ## Types -/

def written (segments : List Segment) : String := ".".intercalate (segments.map text)

def plain (segments : List Segment) : String := ".".intercalate (segments.map name)

/-- The segments up to the first one with arguments. -/
def cut : List Segment → List Segment
  | [] => []
  | s :: rest => if s.arguments.isSome then [s] else s :: cut rest

theorem dotted_append (f : Segment → String) {front back : List Segment} (some : front ≠ []) (more : back ≠ []) :
    ".".intercalate ((front ++ back).map f) =
      ".".intercalate (front.map f) ++ "." ++ ".".intercalate (back.map f) := by
  rw [List.map_append, String.intercalate_append_of_ne_nil (by simpa using some) (by simpa using more)]

theorem written_append {front back : List Segment} (some : front ≠ []) (more : back ≠ []) :
    written (front ++ back) = written front ++ "." ++ written back :=
  dotted_append text some more

theorem plain_append {front back : List Segment} (some : front ≠ []) (more : back ≠ []) :
    plain (front ++ back) = plain front ++ "." ++ plain back :=
  dotted_append name some more

theorem written_cons {rest : List Segment} (more : rest ≠ []) (s : Segment) :
    written (s :: rest) = s.text ++ "." ++ written rest :=
  written_append (List.cons_ne_nil s []) more

theorem plain_cons {rest : List Segment} (more : rest ≠ []) (s : Segment) :
    plain (s :: rest) = s.name ++ "." ++ plain rest :=
  plain_append (List.cons_ne_nil s []) more

theorem not_mem_plain {c : Char} (noPoint : c ≠ '.') (noStart : Text.isIdentifierStart c = false)
    (noPart : Text.isIdentifierPart c = false) (segments : List Segment) : c ∉ (plain segments).toList := by
  refine not_mem_dotted ?_ noPoint noStart noPart
  intro name listed
  obtain ⟨s,-,rfl⟩ := List.mem_map.mp listed
  exact s.identifier

theorem withoutBrackets_written (segments : List Segment) :
    Text.withoutBrackets (written segments) = plain segments := by
  rw [Text.withoutBrackets, ← String.toList_inj, String.toList_ofList]
  induction segments with
  | nil => rfl
  | cons s rest ih =>
    by_cases last : rest = []
    · have alone := outside_text s []
      subst last
      simpa [written,plain,Text.outside] using alone
    · have point : Text.outside 0 ('.' :: (written rest).toList) = '.' :: Text.outside 0 (written rest).toList := by
        simp [Text.outside]
      have text : (written (s :: rest)).toList = s.text.toList ++ '.' :: (written rest).toList := by
        simp [written_cons last]
      rw [text, outside_text, point, ih, plain_cons last]
      simp

theorem cut_ne_nil {segments : List Segment} (some : segments ≠ []) : cut segments ≠ [] := by
  obtain ⟨s,rest,rfl⟩ := List.exists_cons_of_ne_nil some
  rw [cut]
  split <;> simp

theorem exists_members (segments : List Segment) : ∃ members, segments = cut segments ++ members := by
  induction segments with
  | nil => exact ⟨[],rfl⟩
  | cons s rest ih =>
    rw [cut]
    split
    · exact ⟨rest,rfl⟩
    · obtain ⟨members,split⟩ := ih
      exact ⟨members,by rw [List.cons_append, ← split]⟩

theorem cut_eq_self_iff {segments : List Segment} :
    cut segments = segments ↔ ∀ s ∈ segments.dropLast, s.arguments = none := by
  induction segments with
  | nil => simp [cut]
  | cons s rest ih =>
    by_cases last : rest = []
    · subst last
      simp [cut]
    · rw [List.dropLast_cons_of_ne_nil last, List.forall_mem_cons, ← ih, cut]
      cases s.arguments with
      | none => simp
      | some inner => simp [Ne.symm last]

/-- What is cut off makes a text shorter. -/
theorem plain_cut_eq_iff {segments : List Segment} :
    plain (cut segments) = plain segments ↔ ∀ s ∈ segments.dropLast, s.arguments = none := by
  rw [← cut_eq_self_iff]
  refine ⟨?_,fun same => by rw [same]⟩
  intro same
  obtain ⟨members,split⟩ := exists_members segments
  by_cases none : members = []
  · rw [none, List.append_nil] at split
    exact split.symm
  · have some : cut segments ≠ [] := by
      apply cut_ne_nil
      intro empty
      rw [empty] at split
      exact none (List.append_eq_nil_iff.mp split.symm).2
    have longer : plain segments = plain (cut segments) ++ "." ++ plain members := by
      rw [← plain_append some none, ← split]
    have length := congrArg String.length (same.trans longer)
    simp only [String.length_append] at length
    have point : ".".length = 1 := rfl
    omega

/-- A written type goes on with an opening bracket behind the names up to the first arguments. -/
theorem written_eq_plain_cut (segments : List Segment) : ∃ behind,
    written segments = plain (cut segments) ++ behind ∧ (behind = "" ∨ ∃ inner, behind = "<" ++ inner) := by
  induction segments with
  | nil => exact ⟨"",rfl,.inl rfl⟩
  | cons s rest ih =>
    cases found : s.arguments with
    | some inner =>
      have text : s.text = s.name ++ ("<" ++ (inner ++ ">")) := by
        simp [Segment.text,argumentsText,found,String.append_assoc]
      have name : plain (cut (s :: rest)) = s.name := by simp [cut,found,plain]
      by_cases last : rest = []
      · refine ⟨_,?_,.inr ⟨inner ++ ">",rfl⟩⟩
        rw [name, last, ← text]
        simp [written]
      · refine ⟨_,?_,.inr ⟨inner ++ ">" ++ "." ++ written rest,rfl⟩⟩
        rw [name, written_cons last, text]
        simp only [String.append_assoc]
    | none =>
      have text : s.text = s.name := by simp [Segment.text,argumentsText_of_none found]
      by_cases last : rest = []
      · refine ⟨"",?_,.inl rfl⟩
        subst last
        simp [written,plain,cut,found,text]
      · obtain ⟨behind,split,opens⟩ := ih
        refine ⟨behind,?_,opens⟩
        have names : plain (cut (s :: rest)) = s.name ++ "." ++ plain (cut rest) := by
          rw [cut, if_neg (by simp [found]), plain_cons (cut_ne_nil last)]
        rw [written_cons last, split, names, text]
        simp only [String.append_assoc]

/-! ## References -/

section References

variable (segments : List Segment) (line : Option Nat)

theorem erased_written : TypeRef.erased ⟨written segments,line⟩ = plain (cut segments) := by
  obtain ⟨behind,split,opens⟩ := written_eq_plain_cut segments
  rw [TypeRef.erased, split]
  exact before_opening (not_mem_plain (by decide) (by decide) (by decide) _) opens

theorem erased_plain : TypeRef.erased ⟨plain segments,line⟩ = plain segments :=
  erased_of_not_mem (not_mem_plain (by decide) (by decide) (by decide) segments) line

theorem isArray_plain : TypeRef.isArray ⟨plain segments,line⟩ = false :=
  isArray_of_not_mem (not_mem_plain (by decide) (by decide) (by decide) segments) line

/-- A segment ends in its name or in a closing bracket of its arguments. -/
theorem getLast?_text (s : Segment) : ∃ c, s.text.toList.getLast? = some c ∧ c ≠ ']' := by
  cases found : s.arguments with
  | none =>
    have free : ']' ∉ s.name.toList := not_mem_of_isIdentifier s.identifier (by decide) (by decide)
    have some : s.name.toList ≠ [] := by
      intro none
      have identifier := s.identifier
      simp [isIdentifier,none] at identifier
    refine ⟨s.name.toList.getLast some,?_,?_⟩
    · simp [text,argumentsText_of_none found,List.getLast?_eq_some_getLast some]
    · exact fun same => free (same ▸ List.getLast_mem some)
  | some inner =>
    refine ⟨'>',?_,by decide⟩
    have split : s.text.toList = (s.name.toList ++ '<' :: inner.toList) ++ ['>'] := by
      simp [text,argumentsText,found]
    rw [split, List.getLast?_concat]

theorem isArray_written : TypeRef.isArray ⟨written segments,line⟩ = false := by
  rw [TypeRef.isArray, Bool.eq_false_iff]
  intro array
  have last := getLast?_of_isArrayName array
  rcases List.eq_nil_or_concat segments with rfl | ⟨front,s,rfl⟩
  · cases last
  · obtain ⟨c,ends,other⟩ := getLast?_text s
    rw [List.concat_eq_append] at last
    have text : (written (front ++ [s])).toList.getLast? = some c := by
      by_cases first : front = []
      · subst first
        simpa [written] using ends
      · rw [written_append first (by simp), String.toList_append, List.getLast?_append]
        simp [written,ends]
    rw [text] at last
    exact other (Option.some.inj last)

/-- Nothing behind the first arguments counts. -/
theorem resolver_written (index : SourceIndex) (o : Outline) :
    resolver index o ⟨written segments,line⟩ = resolver index o ⟨plain (cut segments),line⟩ := by
  simp only [resolver,isArray_written,isArray_plain,erased_written,erased_plain]

end References

end Segment

/-- A type is erased to its names up to the first arguments, which are all of its names exactly if only the last
segment has any. It is resolved by these names, and reported so unless they have no meaning: a member of a type
with arguments is taken for that type. -/
theorem erasure_stops_at_arguments (segments : List Segment) (line : Option Nat) :
    Text.withoutBrackets (Segment.written segments) = Segment.plain segments ∧
    TypeRef.erased ⟨Segment.written segments,line⟩ = Segment.plain (Segment.cut segments) ∧
    (TypeRef.erased ⟨Segment.written segments,line⟩ = Segment.plain segments ↔
      ∀ s ∈ segments.dropLast, s.arguments = none) ∧
    ∀ index o, resolver index o ⟨Segment.written segments,line⟩ =
        resolver index o ⟨Segment.plain (Segment.cut segments),line⟩ ∧
      ∀ policy unitName scope m e, m.reference = ⟨Segment.written segments,line⟩ →
        Emits (resolver index o) policy unitName scope m e →
        Segment.plain (Segment.cut segments) ∉ scope ∧
        e.target = (resolver index o ⟨Segment.plain (Segment.cut segments),line⟩).getD
          (Segment.written segments) := by
  have erased := Segment.erased_written segments line
  refine ⟨Segment.withoutBrackets_written segments,erased,?_,?_⟩
  · rw [erased]
    exact Segment.plain_cut_eq_iff
  · intro index o
    have resolved := Segment.resolver_written segments line index o
    refine ⟨resolved,?_⟩
    rintro policy unitName scope m e reference ⟨-,free,-,rfl⟩
    rw [reference, erased] at free
    refine ⟨free,?_⟩
    rw [reference, Resolver.target, resolved]

def parameterisedMember : List Segment :=
  [⟨"Outer",some "Map<K,V>",by decide,by simp [Text.closes]⟩,⟨"Inner",none,by decide,by simp⟩]

def outerOnly : Outline := ⟨some "p",[],[]⟩

/-- The member is lost in front of every later step, though without arguments it is found. -/
theorem member_taken_for_outer :
    Segment.written parameterisedMember = "Outer<Map<K,V>>.Inner" ∧
    Segment.plain parameterisedMember = "Outer.Inner" ∧
    TypeRef.erased ⟨"Outer<Map<K,V>>.Inner",none⟩ = "Outer" ∧
    resolver (.ofPaths [⟨"p/Outer.java"⟩]) outerOnly ⟨"Outer<Map<K,V>>.Inner",none⟩ = some "p.Outer" ∧
    resolver (.ofPaths [⟨"p/Outer.java"⟩]) outerOnly ⟨"Outer.Inner",none⟩ = some "p.Outer.Inner" := by
  decide +kernel

def mapEntry : List Segment :=
  [⟨"Map",none,by decide,by simp⟩,⟨"Entry",some "K,V",by decide,by simp [Text.closes]⟩]

/-- Arguments behind the last segment alone, and a field whose type has them in front. -/
theorem erasure_stops_at_arguments_field :
    TypeRef.erased ⟨Segment.written mapEntry,none⟩ = "Map.Entry" ∧
    Emits (resolver (.ofPaths [⟨"p/Outer.java"⟩]) outerOnly) ⟨[],false⟩ "p.A" ["T"]
      ⟨⟨Segment.written parameterisedMember,none⟩,.field,"Outer<Map<K,V>>.Inner f",none⟩
      ⟨"p.A","p.Outer",.field,"Outer<Map<K,V>>.Inner f",none⟩ ∧
    (resolver (.ofPaths [⟨"p/Outer.java"⟩]) outerOnly
      ⟨Segment.plain (Segment.cut parameterisedMember),none⟩).getD (Segment.written parameterisedMember) =
        "p.Outer" := by
  obtain ⟨-,-,whole,-⟩ := erasure_stops_at_arguments mapEntry none
  obtain ⟨-,-,-,resolved⟩ := erasure_stops_at_arguments parameterisedMember none
  obtain ⟨-,reported⟩ := resolved (.ofPaths [⟨"p/Outer.java"⟩]) outerOnly
  have emits : Emits (resolver (.ofPaths [⟨"p/Outer.java"⟩]) outerOnly) ⟨[],false⟩ "p.A" ["T"]
      ⟨⟨Segment.written parameterisedMember,none⟩,.field,"Outer<Map<K,V>>.Inner f",none⟩
      ⟨"p.A","p.Outer",.field,"Outer<Map<K,V>>.Inner f",none⟩ := by
    unfold Emits
    decide +kernel
  refine ⟨(whole.mpr (by simp [mapEntry])).trans (by decide),emits,?_⟩
  exact (reported _ _ _ _ _ rfl emits).2.symm

end Coupling
