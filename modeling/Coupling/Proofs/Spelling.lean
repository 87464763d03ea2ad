import Coupling.Proofs.Resolution
import Coupling.Proofs.Text
import Coupling.Text.Identifier

/-! Types as they are written: names with points between them, and arguments behind. -/
namespace Coupling

/-! ## Names -/

/-- A name that is neither empty nor reserved, and in which nothing is written that ends a name. -/
structure PlainName (name : String) : Prop where
  nonempty : name ≠ ""
  undotted : '.' ∉ name.toList
  noArguments : '<' ∉ name.toList
  noBrackets : ']' ∉ name.toList
  noVoid : name ≠ "void"
  noPrimitive : isPrimitive name = false

def isIdentifier (name : String) : Bool :=
  match name.toList with
  | c :: cs => Text.isIdentifierStart c && cs.all Text.isIdentifierPart
  | [] => false

/-- An identifier has only the characters of identifiers in it. -/
theorem not_mem_of_isIdentifier {name : String} (identifier : isIdentifier name = true) {c : Char}
    (noStart : Text.isIdentifierStart c = false) (noPart : Text.isIdentifierPart c = false) :
    c ∉ name.toList := by
  intro member
  unfold isIdentifier at identifier
  split at identifier
  · rename_i first rest text
    rw [text] at member
    simp only [Bool.and_eq_true,List.all_eq_true] at identifier
    rcases List.mem_cons.mp member with rfl | later
    · simp [noStart] at identifier
    · simp [identifier.2 c later] at noPart
  · cases identifier

/-- Identifiers are plain, but for the reserved words among them. -/
theorem PlainName.of_isIdentifier {name : String} (identifier : isIdentifier name = true)
    (noVoid : name ≠ "void") (noPrimitive : isPrimitive name = false) : PlainName name := by
  constructor
  case nonempty =>
    rintro rfl
    cases identifier
  case undotted => exact not_mem_of_isIdentifier identifier (by decide) (by decide)
  case noArguments => exact not_mem_of_isIdentifier identifier (by decide) (by decide)
  case noBrackets => exact not_mem_of_isIdentifier identifier (by decide) (by decide)
  case noVoid => exact noVoid
  case noPrimitive => exact noPrimitive

theorem mem_intercalate {c : Char} {names : List String} (member : c ∈ (".".intercalate names).toList) :
    c = '.' ∨ ∃ name ∈ names, c ∈ name.toList := by
  induction names with
  | nil => simp at member
  | cons name rest ih =>
    by_cases last : rest = []
    · subst last
      exact .inr ⟨name,List.mem_cons_self ..,by simpa using member⟩
    · rw [String.intercalate_cons_of_ne_nil last] at member
      simp only [String.toList_append,List.mem_append] at member
      rcases member with (inside | point) | later
      · exact .inr ⟨name,List.mem_cons_self ..,inside⟩
      · exact .inl (by simpa using point)
      · obtain point | ⟨other,member,inside⟩ := ih later
        · exact .inl point
        · exact .inr ⟨other,List.mem_cons_of_mem _ member,inside⟩

/-- Identifiers with points between them have nothing else in them. -/
theorem not_mem_dotted {names : List String} (identifiers : ∀ name ∈ names, isIdentifier name = true) {c : Char}
    (noPoint : c ≠ '.') (noStart : Text.isIdentifierStart c = false) (noPart : Text.isIdentifierPart c = false) :
    c ∉ (".".intercalate names).toList := by
  intro member
  rcases mem_intercalate member with point | ⟨name,listed,inside⟩
  · exact noPoint point
  · exact not_mem_of_isIdentifier (identifiers name listed) noStart noPart inside

/-! ## References -/

/-- What can stand behind a name: type arguments, or nothing. -/
def IsArguments (text : String) : Prop := text = "" ∨ ∃ inner, text = "<" ++ inner ++ ">"

/-- A name ends where its first bracket opens. -/
theorem before_opening {name behind : String} (free : '<' ∉ name.toList)
    (opens : behind = "" ∨ ∃ inner, behind = "<" ++ inner) : Text.before '<' (name ++ behind) = name := by
  have others : ∀ c ∈ name.toList, (c != '<') = true := by
    intro c member
    exact bne_iff_ne.mpr fun same => free (same ▸ member)
  have none : behind.toList.takeWhile (· != '<') = [] := by
    rcases opens with rfl | ⟨inner,rfl⟩
    · rfl
    · simp
  rw [Text.before, String.toList_append, List.takeWhile_append_of_pos others, none]
  simp

/-- Everything in front of the first bracket, if there is one. -/
theorem before_eq_iff {s name : String} :
    Text.before '<' s = name ↔ '<' ∉ name.toList ∧
      ∃ behind, s = name ++ behind ∧ (behind = "" ∨ ∃ inner, behind = "<" ++ inner) := by
  constructor
  · rintro rfl
    by_cases bracket : '<' ∈ s.toList
    · obtain ⟨name,inner,split,free⟩ := List.eq_append_cons_of_mem bracket
      rw [Text.before, split, Text.takeWhile_until free]
      refine ⟨by simpa using free,"<" ++ String.ofList inner,?_,.inr ⟨_,rfl⟩⟩
      rw [← String.toList_inj]
      simp [split]
    · have whole : Text.before '<' s = s := by simpa using before_opening bracket (.inl rfl)
      rw [whole]
      exact ⟨bracket,"",by simp,.inl rfl⟩
  · rintro ⟨free,behind,rfl,opens⟩
    exact before_opening free opens

theorem before_arguments {name arguments : String} (free : '<' ∉ name.toList)
    (behind : IsArguments arguments) : Text.before '<' (name ++ arguments) = name := by
  apply before_opening free
  rcases behind with none | ⟨inner,text⟩
  · exact .inl none
  · exact .inr ⟨inner ++ ">",by rw [text, String.append_assoc]⟩

theorem getLast?_of_isArrayName {name : String} (array : isArrayName name = true) :
    name.toList.getLast? = some ']' := by
  obtain ⟨front,rfl⟩ := Text.eq_append_of_endsWith array
  simp

theorem isArrayName_arguments {name arguments : String} (free : ']' ∉ name.toList)
    (behind : IsArguments arguments) : isArrayName (name ++ arguments) = false := by
  rw [Bool.eq_false_iff]
  intro array
  have last := getLast?_of_isArrayName array
  rcases behind with rfl | ⟨inner,rfl⟩
  · rw [String.append_empty] at last
    exact free (List.mem_of_getLast? last)
  · have text : (name ++ ("<" ++ inner ++ ">")).toList = (name.toList ++ '<' :: inner.toList) ++ ['>'] := by
      simp
    rw [text, List.getLast?_concat] at last
    cases last

theorem erased_of_not_mem {text : String} (free : '<' ∉ text.toList) (line : Option Nat) :
    TypeRef.erased ⟨text,line⟩ = text := by
  have whole := before_opening free (.inl rfl)
  rwa [String.append_empty] at whole

theorem isArray_of_not_mem {text : String} (free : ']' ∉ text.toList) (line : Option Nat) :
    TypeRef.isArray ⟨text,line⟩ = false := by
  rw [TypeRef.isArray, Bool.eq_false_iff]
  intro array
  exact free (List.mem_of_getLast? (getLast?_of_isArrayName array))

/-- Reserved words have no point in them. -/
theorem TypeRef.IsNamed.of_dotted {r : TypeRef} (noArray : r.isArray = false)
    (dotted : '.' ∈ r.erased.toList) : r.IsNamed := by
  refine ⟨noArray,?_,?_,?_⟩
  · intro empty
    simp [empty] at dotted
  · intro void
    simp [void] at dotted
  · rw [isPrimitive, Bool.eq_false_iff]
    intro primitive
    have undotted : ∀ word ∈ primitiveNames, '.' ∉ word.toList := by decide
    exact undotted _ (List.contains_iff_mem.mp primitive) dotted

def spelling (names : List String) (arguments : String) (line : Option Nat) : TypeRef :=
  ⟨".".intercalate names ++ arguments,line⟩

section Spelling

variable {names : List String} {arguments : String} (plain : ∀ name ∈ names, PlainName name)
  (behind : IsArguments arguments) (line : Option Nat)

include plain behind

theorem erased_spelling : (spelling names arguments line).erased = ".".intercalate names := by
  apply before_arguments _ behind
  intro member
  rcases mem_intercalate member with point | ⟨name,inside,there⟩
  · cases point
  · exact (plain name inside).noArguments there

theorem isArray_spelling : (spelling names arguments line).isArray = false := by
  apply isArrayName_arguments _ behind
  intro member
  rcases mem_intercalate member with point | ⟨name,inside,there⟩
  · cases point
  · exact (plain name inside).noBrackets there

/-- A single name is not reserved, and reserved words have no point in them. -/
theorem isNamed_spelling (some : names ≠ []) : (spelling names arguments line).IsNamed := by
  have noArray := isArray_spelling plain behind line
  have erased := erased_spelling plain behind line
  obtain ⟨name,rest,rfl⟩ := List.exists_cons_of_ne_nil some
  by_cases last : rest = []
  · subst last
    rw [String.intercalate_singleton] at erased
    obtain ⟨nonempty,-,-,-,noVoid,noPrimitive⟩ := plain name (List.mem_cons_self ..)
    rw [← erased] at nonempty noVoid noPrimitive
    exact ⟨noArray,nonempty,noVoid,noPrimitive⟩
  · have dotted : '.' ∈ (spelling (name :: rest) arguments line).erased.toList := by
      rw [erased, String.intercalate_cons_of_ne_nil last]
      simp
    exact .of_dotted noArray dotted

end Spelling

end Coupling
