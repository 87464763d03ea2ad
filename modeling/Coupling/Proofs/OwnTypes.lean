import Coupling.Proofs.Classification
import Coupling.Proofs.Declarations
import Coupling.Proofs.Qualification
import Coupling.Proofs.Spelling

/-! The types of a unit, as the unit itself refers to them. A nested type can be written from any of the
types around it on; where no two types share a simple name, all these spellings lead to the one full name of
the type. So the unit is no dependency of its own. -/
namespace Coupling

/-! ## Own types -/

section OwnTypes

variable {o : Outline} (distinct : (o.nestedNames.map NestedName.name).Nodup)
  (plain : ∀ t ∈ o.nestedNames, PlainName t.name)

include distinct plain

omit distinct in
theorem plain_of_mem_chain {t : NestedName} (member : t ∈ o.nestedNames) : ∀ name ∈ t.chain, PlainName name := by
  intro name inside
  obtain ⟨front,back,split⟩ := List.append_of_mem inside
  exact plain ⟨front,name⟩ (mem_nestedNamesOf_of_chain o.declarations member split)

/-- A simple name of the unit prevails over everything else that has it. -/
theorem resolveSimple_own {t : NestedName} (member : t ∈ o.nestedNames) (index : SourceIndex) :
    resolveSimple index o t.name = some (o.qualify (".".intercalate t.chain)) := by
  have declared := Outline.declaredType?_of_distinct distinct (fun u inside => (plain u inside).undotted) member
  have nonempty : ∀ name ∈ t.chain, name ≠ "" := fun name inside =>
    (plain_of_mem_chain plain member name inside).nonempty
  simp [resolveSimple,declared,NestedName.fullName_of_nonempty nonempty,Outline.qualify]

/-- A type is resolved from its first written name on, which is that of a type around it: the names in front
of that come from its full name, those behind are kept. -/
theorem resolveName_own {t : NestedName} (member : t ∈ o.nestedNames) {front spelled : List String}
    (chain : t.chain = front ++ spelled) (some : spelled ≠ []) (index : SourceIndex) :
    resolveName index o (".".intercalate spelled) = .some (
      if 1 < spelled.length ∧ index.knows (".".intercalate spelled) = true then ".".intercalate spelled
      else o.qualify (".".intercalate t.chain)) := by
  obtain ⟨first,rest,rfl⟩ := List.exists_cons_of_ne_nil some
  have outer : ⟨front,first⟩ ∈ o.nestedNames := mem_nestedNamesOf_of_chain o.declarations member chain
  have simple : resolveSimple index o first = .some (o.qualify (".".intercalate (front ++ [first]))) :=
    resolveSimple_own distinct plain outer index
  have undotted : '.' ∉ first.toList := (plain _ outer).undotted
  by_cases last : rest = []
  · subst last
    rw [String.intercalate_singleton, resolveName_of_undotted undotted, simple, chain]
    simp
  · have further : 1 < (first :: rest).length := by
      have := List.length_pos_iff.mpr last
      simp only [List.length_cons]
      omega
    have whole : o.qualify (".".intercalate t.chain) =
        o.qualify (".".intercalate (front ++ [first])) ++ "." ++ ".".intercalate rest := by
      have split : t.chain = (front ++ [first]) ++ rest := by simp [chain]
      rw [split, String.intercalate_append_of_ne_nil (by simp) last]
      exact Text.qualified_append ..
    rw [String.intercalate_cons_of_ne_nil last, resolveName_append undotted, simple]
    simp only [further,true_and,Option.map_some,whole]
    split <;> rfl

/-- The primary type is the unit under its simple name. -/
theorem resolveSimple_primary {primary : String} (first : o.primaryType = some primary) (index : SourceIndex)
    (fallback : String) : resolveSimple index o primary = some (o.unitName fallback) := by
  have own := resolveSimple_own distinct plain (Outline.mem_nestedNames_of_primaryType first) index
  simpa [NestedName.chain,Outline.unitName,first] using own

theorem not_emits_primary {primary : String} (first : o.primaryType = some primary) {index : SourceIndex}
    {policy : Policy} {fallback : String} {m : Mention} (named : m.reference.erased = primary)
    {scope : List String} {e : Edge} :
    ¬Emits (resolver index o) policy (o.unitName fallback) scope m e := by
  cases array : m.reference.isArray with
  | true => exact not_emits_of_isArray array
  | false =>
    rintro ⟨-,-,admitted,-⟩
    obtain ⟨nonempty,undotted,-,-,noVoid,noPrimitive⟩ := plain _ (Outline.mem_nestedNames_of_primaryType first)
    have simple : m.reference.IsSimple primary := ⟨named,undotted,nonempty,noVoid,noPrimitive,array⟩
    have target : Resolver.target (resolver index o) m.reference = o.unitName fallback := by
      rw [Resolver.target, resolver_of_simple simple, resolveSimple_primary distinct plain first]
      rfl
    simp [Policy.admits,target] at admitted

end OwnTypes

/-- Where no two types of a unit share a simple name, a type is resolved to its one full name from whichever
of the types around it the reference starts, unless more than one name is written and these are known
together. A reference to the primary type by its simple name adds nothing to the report of the unit. -/
theorem own_types_resolve (o : Outline) (distinct : (o.nestedNames.map NestedName.name).Nodup)
    (plain : ∀ t ∈ o.nestedNames, PlainName t.name) :
    (∀ t ∈ o.nestedNames, ∀ front spelled, t.chain = front ++ spelled → spelled ≠ [] →
      ∀ arguments, IsArguments arguments → ∀ line index,
        resolver index o (spelling spelled arguments line) = some (
          if 1 < spelled.length ∧ index.knows (".".intercalate spelled) = true
          then ".".intercalate spelled else o.qualify (".".intercalate t.chain))) ∧
    ∀ primary, o.primaryType = some primary → ∀ index policy fallback,
      (∀ (w : Walk) (m : Mention), w.report.name = o.unitName fallback → m.reference.erased = primary →
        w.emit (resolver index o) policy m = w) ∧
      ∀ e ∈ (classify (resolver index o) policy o (o.unitName fallback)).edges,
        ∃ m, o.FreeMention policy.includeImports m ∧ m.reference.erased ≠ primary ∧
          Emits (resolver index o) policy (o.unitName fallback) [] m e := by
  constructor
  · intro t member front spelled chain some arguments behind line index
    have names : ∀ name ∈ spelled, PlainName name := by
      intro name inside
      apply plain_of_mem_chain plain member
      rw [chain]
      exact List.mem_append_right _ inside
    rw [resolver_of_named (isNamed_spelling names behind line some), erased_spelling names behind]
    exact resolveName_own distinct plain member chain some index
  · intro primary first index policy fallback
    constructor
    · intro w m unit named
      apply Walk.emit_eq_self
      rw [unit]
      exact fun e => not_emits_primary distinct plain first named
    · intro e member
      obtain ⟨bound,m,origin,emits⟩ := mem_edges_iff.mp member
      have other : m.reference.erased ≠ primary :=
        fun named => not_emits_primary distinct plain first named emits
      obtain ⟨nonempty,free,admitted,edge⟩ := emits
      refine ⟨m,freeMention_iff.mpr ?_,other,nonempty,List.not_mem_nil,admitted,edge⟩
      exact origin.imp (fun imported => imported.2) fun found => ⟨bound,found,free⟩

def deeplyNested : Outline where
  package := some "a"
  imports := [⟨"b.Inner",false,false,none⟩]
  declarations := [.type ⟨.ordinary,"Main",none,["T"],[],[]⟩
    [.field ⟨"Main<T>",none⟩ [⟨"next",none⟩],
      .type ⟨.ordinary,"Inner",none,[],[],[]⟩ [.type ⟨.ordinary,"Deep",none,[],[],[]⟩ []]]]

theorem own_types_resolve_deeplyNested :
    (deeplyNested.nestedNames.map NestedName.name).Nodup ∧
    (∀ t ∈ deeplyNested.nestedNames, PlainName t.name) ∧
    (∀ index : SourceIndex, index.knows "Inner.Deep" = false →
      resolver index deeplyNested ⟨"Inner.Deep<T>",none⟩ = some "a.Main.Inner.Deep") ∧
    ∀ index policy (w : Walk), w.report.name = "a.Main" →
      w.emit (resolver index deeplyNested) policy ⟨⟨"Main<T>",none⟩,.field,"Main<T> next",none⟩ = w := by
  have distinct : (deeplyNested.nestedNames.map NestedName.name).Nodup := by decide
  have plain : ∀ t ∈ deeplyNested.nestedNames, PlainName t.name := by
    have identifiers : ∀ t ∈ deeplyNested.nestedNames, isIdentifier t.name = true ∧ t.name ≠ "void" ∧
        isPrimitive t.name = false := by decide
    intro t member
    obtain ⟨identifier,noVoid,noPrimitive⟩ := identifiers t member
    exact .of_isIdentifier identifier noVoid noPrimitive
  obtain ⟨resolves,silent⟩ := own_types_resolve deeplyNested distinct plain
  refine ⟨distinct,plain,?_,?_⟩
  · intro index unknown
    have resolved := resolves ⟨["Main","Inner"],"Deep"⟩ (by decide) ["Main"] ["Inner","Deep"] rfl (by simp)
      "<T>" (.inr ⟨"T",rfl⟩) none index
    have text : ".".intercalate ["Inner","Deep"] = "Inner.Deep" := by decide
    rw [text, unknown] at resolved
    exact resolved
  · intro index policy w unit
    exact (silent "Main" rfl index policy "").1 w _ unit (by decide)

end Coupling
