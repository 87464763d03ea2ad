import Coupling.Proofs.Classification
import Coupling.Proofs.Declarations
import Coupling.Proofs.Qualification
import Coupling.Proofs.Spelling

/-! What an import and the references through it name. A reference takes the path of the import as it is.
The path itself is looked up like any dotted name of the unit, so it can be read as that of a member, of
whatever its first segment means there. -/
namespace Coupling

/-- The path of an import: identifiers with points between them, at least two. -/
structure ImportPath where
  outer : String
  middle : List String
  simple : String
  identifiers : ∀ name ∈ outer :: (middle ++ [simple]), isIdentifier name = true

namespace ImportPath

def text (p : ImportPath) : String := ".".intercalate (p.outer :: (p.middle ++ [p.simple]))

def members (p : ImportPath) : String := ".".intercalate (p.middle ++ [p.simple])

variable (p : ImportPath)

theorem text_eq : p.text = p.outer ++ "." ++ p.members := by
  rw [text, String.intercalate_cons_of_ne_nil (by simp)]
  rfl

theorem undotted_outer : '.' ∉ p.outer.toList :=
  not_mem_of_isIdentifier (p.identifiers _ (by simp)) (by decide) (by decide)

theorem erased_text (line : Option Nat) : TypeRef.erased ⟨p.text,line⟩ = p.text :=
  erased_of_not_mem (not_mem_dotted p.identifiers (by decide) (by decide) (by decide)) line

theorem isNamed_text (line : Option Nat) : TypeRef.IsNamed ⟨p.text,line⟩ := by
  have noBrackets : ']' ∉ p.text.toList := not_mem_dotted p.identifiers (by decide) (by decide) (by decide)
  apply TypeRef.IsNamed.of_dotted (isArray_of_not_mem noBrackets line)
  rw [erased_text, text_eq]
  simp

/-- The first segment means something else than a package or a type of its own name, and the whole path is not
known. -/
structure Astray (index : SourceIndex) (o : Outline) (base : String) : Prop where
  unknown : index.knows p.text = false
  other : base ≠ p.outer
  means : ∃ origin, Prevails index o p.outer base origin

theorem resolver_text (index : SourceIndex) (o : Outline) (line : Option Nat) :
    resolver index o ⟨p.text,line⟩ = if index.knows p.text then some p.text
      else (resolveSimple index o p.outer).map (· ++ "." ++ p.members) := by
  rw [resolver_of_named (p.isNamed_text line), erased_text, text_eq, resolveName_append p.undotted_outer]

section Target

variable {p} {index : SourceIndex} {o : Outline} {base : String}

theorem target_of_astray (astray : p.Astray index o base) (line : Option Nat) :
    Resolver.target (resolver index o) ⟨p.text,line⟩ = base ++ "." ++ p.members := by
  have simple := resolveSimple_eq_some_iff.mpr astray.means
  simp [Resolver.target,resolver_text,astray.unknown,simple]

theorem text_ne_of_astray (astray : p.Astray index o base) : base ++ "." ++ p.members ≠ p.text := by
  rw [text_eq]
  intro same
  apply astray.other
  rw [← String.toList_inj] at same ⊢
  simpa using same

theorem target_of_not_astray (straight : ∀ base, ¬p.Astray index o base) (line : Option Nat) :
    Resolver.target (resolver index o) ⟨p.text,line⟩ = p.text := by
  rw [Resolver.target, resolver_text]
  cases known : index.knows p.text with
  | true => simp
  | false =>
    cases simple : resolveSimple index o p.outer with
    | none => simp
    | some base =>
      have same : base = p.outer := by
        apply Classical.byContradiction
        exact fun other => straight base ⟨known,other,resolveSimple_eq_some_iff.mp simple⟩
      simp [same,text_eq]

end Target

end ImportPath

/-! ## References through an import -/

/-- The import is the first one of a type of that simple name, and the unit declares none itself. -/
structure Outline.Introduces (o : Outline) (i : Import) (name : String) : Prop where
  first : First (fun j => j.isSingle = true ∧ Text.lastSegment j.path = name) o.imports i
  undeclared : ∀ type ∈ o.declaredTypes, Text.lastSegment type ≠ name

section Introduced

variable {o : Outline} {i : Import} {name : String} (introduces : o.Introduces i name)

include introduces

theorem resolveSimple_introduced (index : SourceIndex) : resolveSimple index o name = some i.path :=
  resolveSimple_eq_some_iff.mpr ⟨_,prevails_imported introduces.first introduces.undeclared index⟩

theorem target_introduced (identifier : isIdentifier name = true) (noVoid : name ≠ "void")
    (noPrimitive : isPrimitive name = false) (index : SourceIndex) (line : Option Nat) :
    Resolver.target (resolver index o) ⟨name,line⟩ = i.path := by
  obtain ⟨nonempty,undotted,noArguments,noBrackets,-,-⟩ :=
    PlainName.of_isIdentifier identifier noVoid noPrimitive
  have simple : TypeRef.IsSimple ⟨name,line⟩ name := by
    refine ⟨erased_of_not_mem noArguments line,undotted,nonempty,noVoid,noPrimitive,?_⟩
    exact isArray_of_not_mem noBrackets line
  rw [Resolver.target, resolver_of_simple simple, resolveSimple_introduced introduces]
  rfl

/-- Reserved words are left out by every policy, so they need no exception here. -/
theorem target_of_emits (identifier : isIdentifier name = true) {index : SourceIndex} {policy : Policy}
    {unitName : String} {scope : List String} {m : Mention} {e : Edge} (written : m.reference.written = name)
    (emits : Emits (resolver index o) policy unitName scope m e) : e.target = i.path := by
  obtain ⟨-,-,admitted,rfl⟩ := emits
  have noArguments : '<' ∉ name.toList := not_mem_of_isIdentifier identifier (by decide) (by decide)
  have erased : m.reference.erased = name := by
    rw [← erased_of_not_mem noArguments m.reference.line, ← written]
  by_cases reserved : name = "void" ∨ isPrimitive name = true
  · have nameless : ¬m.reference.IsNamed := by
      rintro ⟨-,-,noVoid,noPrimitive⟩
      rw [erased] at noVoid noPrimitive
      simp [noVoid,noPrimitive] at reserved
    rw [Resolver.target, resolver_of_not_named nameless, Option.getD_none, written, Policy.admits] at admitted
    obtain rfl | primitive := reserved
    · simp at admitted
    · simp [primitive] at admitted
  · rw [not_or, Bool.not_eq_true] at reserved
    have target := target_introduced introduces identifier reserved.1 reserved.2 index m.reference.line
    rw [← written] at target
    exact target

end Introduced

/-- An import is free wherever it stands: nothing binds a name before it. -/
theorem import_mem_edges {index : SourceIndex} {o : Outline} {p : ImportPath} {i : Import} {policy : Policy}
    {unitName : String} (path : i.path = p.text) (introduces : o.Introduces i p.simple)
    (included : policy.includeImports = true)
    (admitted : policy.admits (Resolver.target (resolver index o) ⟨i.path,i.line⟩) unitName = true) :
    ⟨unitName,Resolver.target (resolver index o) ⟨i.path,i.line⟩,.importation,
      snippetOf ("import " ++ i.path),i.line⟩ ∈ (classify (resolver index o) policy o unitName).edges := by
  have single : i.isSingle = true := introduces.first.1.1
  rw [Import.isSingle, Bool.and_eq_true, Bool.not_eq_true', Bool.not_eq_true'] at single
  have nonempty : TypeRef.erased ⟨i.path,i.line⟩ ≠ "" := by
    rw [path]
    exact (p.isNamed_text i.line).nonempty
  have mention := mem_importMentions.mpr ⟨i,introduces.first.mem,single.1,single.2,rfl⟩
  exact mem_edges_iff.mpr ⟨[],_,.inl ⟨rfl,included,mention⟩,nonempty,by simp,admitted,rfl⟩

/-- A reference through an import has the path of the import as its target. The import itself has it exactly if
its first segment is not led astray, and else a member of what that segment means in the unit. -/
theorem import_targets (index : SourceIndex) (o : Outline) (p : ImportPath) (i : Import) (path : i.path = p.text)
    (introduces : o.Introduces i p.simple) :
    (∀ line, p.simple ≠ "void" → isPrimitive p.simple = false →
      Resolver.target (resolver index o) ⟨p.simple,line⟩ = i.path) ∧
    (∀ policy unitName scope m e, m.reference.written = p.simple →
      Emits (resolver index o) policy unitName scope m e → e.target = i.path) ∧
    (∀ base, p.Astray index o base →
      Resolver.target (resolver index o) ⟨i.path,i.line⟩ = base ++ "." ++ p.members) ∧
    (Resolver.target (resolver index o) ⟨i.path,i.line⟩ = i.path ↔ ∀ base, ¬p.Astray index o base) ∧
    ∀ policy unitName, policy.includeImports = true →
      policy.admits (Resolver.target (resolver index o) ⟨i.path,i.line⟩) unitName = true →
      ⟨unitName,Resolver.target (resolver index o) ⟨i.path,i.line⟩,.importation,
        snippetOf ("import " ++ i.path),i.line⟩ ∈ (classify (resolver index o) policy o unitName).edges := by
  have identifier : isIdentifier p.simple = true := p.identifiers _ (by simp)
  refine ⟨?_,?_,?_,?_,?_⟩
  · intro line noVoid noPrimitive
    exact target_introduced introduces identifier noVoid noPrimitive index line
  · intro policy unitName scope m e written emits
    exact target_of_emits introduces identifier written emits
  · intro base astray
    rw [path]
    exact ImportPath.target_of_astray astray i.line
  · rw [path]
    constructor
    · intro straight base astray
      rw [ImportPath.target_of_astray astray] at straight
      exact ImportPath.text_ne_of_astray astray straight
    · exact fun straight => ImportPath.target_of_not_astray straight i.line
  · intro policy unitName included admitted
    exact import_mem_edges path introduces included admitted

def shadowedPackage : Outline where
  package := some "a"
  imports := [⟨"app.Tool",false,false,some 1⟩]
  declarations := [.type ⟨.ordinary,"app",some 1,[],[],[]⟩ [.field ⟨"Tool",some 1⟩ [⟨"t",some 1⟩]]]

def appTool : ImportPath := ⟨"app",[],"Tool",by decide⟩

/-- The field and the import through which it is typed have different targets. -/
theorem import_led_astray :
    (shadowedPackage.imports.find? fun i => i.isSingle && Text.lastSegment i.path == "Tool") =
      some ⟨appTool.text,false,false,some 1⟩ ∧
    "Tool" ∉ shadowedPackage.declaredTypes.map Text.lastSegment ∧
    (classify (resolver (.ofPaths []) shadowedPackage) ⟨[],true⟩ shadowedPackage "a.app").edges =
      [⟨"a.app","a.app.Tool",.importation,"import app.Tool",some 1⟩,
        ⟨"a.app","app.Tool",.field,"Tool t",some 1⟩] := by
  decide +kernel

def openPackage : Outline := { shadowedPackage with declarations := [] }

/-- The import is led astray in the one unit and not in the other. -/
theorem import_targets_shadowed :
    shadowedPackage.Introduces ⟨"app.Tool",false,false,some 1⟩ "Tool" ∧
    appTool.Astray (.ofPaths []) shadowedPackage "a.app" ∧
    Resolver.target (resolver (.ofPaths []) shadowedPackage) ⟨"Tool",none⟩ = "app.Tool" ∧
    Resolver.target (resolver (.ofPaths []) shadowedPackage) ⟨"app.Tool",some 1⟩ = "a.app.Tool" ∧
    ⟨"a.app",Resolver.target (resolver (.ofPaths []) shadowedPackage) ⟨"app.Tool",some 1⟩,.importation,
      "import app.Tool",some 1⟩ ∈
        (classify (resolver (.ofPaths []) shadowedPackage) ⟨[],true⟩ shadowedPackage "a.app").edges ∧
    (∀ base, ¬appTool.Astray (.ofPaths []) openPackage base) ∧
    Resolver.target (resolver (.ofPaths []) openPackage) ⟨"app.Tool",some 1⟩ = "app.Tool" := by
  have introduces : shadowedPackage.Introduces ⟨"app.Tool",false,false,some 1⟩ "Tool" :=
    ⟨⟨by decide,[],[],rfl,by simp⟩,by decide⟩
  have introducesOpen : openPackage.Introduces ⟨"app.Tool",false,false,some 1⟩ "Tool" :=
    ⟨⟨by decide,[],[],rfl,by simp⟩,by decide⟩
  have astray : appTool.Astray (.ofPaths []) shadowedPackage "a.app" :=
    ⟨by decide +kernel,by decide,resolveSimple_eq_some_iff.mp (by decide +kernel)⟩
  have straight : ∀ base, ¬appTool.Astray (.ofPaths []) openPackage base := by
    rintro base ⟨-,-,origin,claims,-⟩
    exact resolveSimple_eq_none_iff.mp (by decide +kernel) origin base claims
  obtain ⟨reference,-,led,-,edge⟩ :=
    import_targets (.ofPaths []) shadowedPackage appTool ⟨"app.Tool",false,false,some 1⟩ (by decide) introduces
  obtain ⟨-,-,-,exact_iff,-⟩ :=
    import_targets (.ofPaths []) openPackage appTool ⟨"app.Tool",false,false,some 1⟩ (by decide) introducesOpen
  refine ⟨introduces,astray,reference none (by decide) (by decide),led _ astray,?_,straight,?_⟩
  · exact edge ⟨[],true⟩ "a.app" rfl (by decide +kernel)
  · exact exact_iff.mpr straight

end Coupling
