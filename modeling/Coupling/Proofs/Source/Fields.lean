import Coupling.Proofs.Source.Walk
import Coupling.Proofs.Source.Written
import Mathlib.Data.List.Induction

/-! The fields of a declaration. Its declarators fall into one field for each written type, in the order in
which the types come up, and all fields stand in front of what the initialisers contain. -/
namespace Coupling.Source

/-! ## Each type where it comes first -/

section Distinct

variable {α : Type} [BEq α] [LawfulBEq α]

theorem eraseDups_concat [DecidableEq α] (xs : List α) (x : α) :
    (xs ++ [x]).eraseDups = if x ∈ xs then xs.eraseDups else xs.eraseDups ++ [x] := by
  rw [List.eraseDups_append]
  by_cases known : x ∈ xs <;> simp [List.removeAll,List.eraseDups_cons,known]

theorem eraseDups_ordered (xs : List α) :
    xs.eraseDups.Pairwise fun a b => xs.idxOf a < xs.idxOf b := by
  classical
  induction xs using List.reverseRecOn with
  | nil => exact .nil
  | append_singleton xs x ih =>
    have kept : xs.eraseDups.Pairwise fun a b => (xs ++ [x]).idxOf a < (xs ++ [x]).idxOf b := by
      refine ih.imp_of_mem fun inA inB earlier => ?_
      rw [List.idxOf_append, List.idxOf_append, if_pos (List.mem_eraseDups.mp inA),
        if_pos (List.mem_eraseDups.mp inB)]
      exact earlier
    rw [eraseDups_concat]
    split
    · exact kept
    · rename_i new
      refine List.pairwise_append.mpr ⟨kept,List.pairwise_singleton ..,fun a inA b last => ?_⟩
      have old := List.mem_eraseDups.mp inA
      rw [List.mem_singleton.mp last, List.idxOf_append, List.idxOf_append, if_pos old, if_neg new]
      have bound := List.idxOf_lt_length_of_mem old
      omega

theorem eraseDups_nodup (xs : List α) : xs.eraseDups.Nodup := by
  refine (eraseDups_ordered xs).imp ?_
  rintro a b earlier rfl
  exact Nat.lt_irrefl _ earlier

end Distinct

/-! ## Declarators -/

theorem written_declaredType (base : TypeRef) (d : Tree) :
    (declaredType base d).written =
      base.written ++ ((d.child? .dimensions).map Tree.dimensionsText).getD "" := by
  unfold declaredType
  cases d.child? .dimensions <;> simp

theorem line_declaredType (base : TypeRef) (d : Tree) : (declaredType base d).line = base.line := by
  unfold declaredType
  split <;> rfl

def Tree.declaredVariable (d : Tree) : Variable := ⟨d.nameText,(d.child? .name).map Tree.line⟩

def namedDeclarators (ds : List Tree) : List Tree := ds.filter fun d => (d.child? .name).isSome

theorem fieldsOf_eq_foldl (base : TypeRef) (ds : List Tree) :
    fieldsOf base ds = (namedDeclarators ds).foldl
      (fun fields d => addVariable (declaredType base d) d.declaredVariable fields) [] := by
  rw [fieldsOf, namedDeclarators, List.foldl_filter]
  congr 1
  funext fields d
  cases named : d.child? .name <;> simp [Tree.declaredVariable,Tree.nameText,named]

/-! ## Fields by type -/

def ofType (base : TypeRef) (ds : List Tree) (written : String) : List Tree :=
  ds.filter fun d => (declaredType base d).written = written

/-- A field for each written type, with the variables of all declarators that have it. -/
def fieldsByType (base : TypeRef) (ds : List Tree) : List (TypeRef × List Variable) :=
  (ds.map fun d => (declaredType base d).written).eraseDups.map fun written =>
    (⟨written,base.line⟩,(ofType base ds written).map Tree.declaredVariable)

theorem ofType_concat (base : TypeRef) (ds : List Tree) (d : Tree) (written : String) :
    ofType base (ds ++ [d]) written =
      ofType base ds written ++ if (declaredType base d).written = written then [d] else [] := by
  by_cases own : (declaredType base d).written = written <;> simp [ofType,own]

section AddVariable

variable {type : TypeRef} {keys : List String} (v : Variable) (held : String → List Variable)

/-- A variable joins the field of its type. -/
theorem addVariable_of_mem (distinct : keys.Nodup) (known : type.written ∈ keys) (line : Option Nat) :
    addVariable type v (keys.map fun written => (⟨written,line⟩,held written)) =
      keys.map fun written =>
        (⟨written,line⟩,held written ++ if type.written = written then [v] else []) := by
  induction keys with
  | nil => cases known
  | cons key rest ih =>
    obtain ⟨apart,distinct⟩ := List.nodup_cons.mp distinct
    simp only [List.map_cons,addVariable]
    split
    · rename_i here
      have others : ∀ written ∈ rest, type.written ≠ written := by
        rintro written member rfl
        exact apart (here ▸ member)
      simp only [here,if_true,List.cons.injEq,true_and]
      refine List.map_congr_left fun written member => ?_
      rw [if_neg (others written member), List.append_nil]
    · rename_i elsewhere
      have later := (List.mem_cons.mp known).resolve_left (Ne.symm elsewhere)
      rw [ih distinct later, if_neg (Ne.symm elsewhere), List.append_nil]

/-- A variable of a new type has a field of its own behind the others. -/
theorem addVariable_of_not_mem (new : type.written ∉ keys) (line : Option Nat) :
    addVariable type v (keys.map fun written => (⟨written,line⟩,held written)) =
      (keys.map fun written => (⟨written,line⟩,held written)) ++ [(type,[v])] := by
  induction keys with
  | nil => rfl
  | cons key rest ih =>
    obtain ⟨apart,new⟩ := not_or.mp (List.mem_cons.not.mp new)
    simp only [List.map_cons,List.cons_append,addVariable,Ne.symm apart,if_false,ih new]

end AddVariable

/-- One more declarator: the fields stay sorted by type. -/
theorem addVariable_fieldsByType (base : TypeRef) (ds : List Tree) (d : Tree) :
    addVariable (declaredType base d) d.declaredVariable (fieldsByType base ds) =
      fieldsByType base (ds ++ [d]) := by
  simp only [fieldsByType,List.map_append,List.map_cons,List.map_nil,eraseDups_concat,ofType_concat]
  split
  · rename_i known
    rw [addVariable_of_mem _ _ (eraseDups_nodup _) (List.mem_eraseDups.mpr known)]
    refine List.map_congr_left fun written _ => ?_
    split <;> simp
  · rename_i new
    have unused : ofType base ds (declaredType base d).written = [] := by
      simpa [ofType] using new
    rw [addVariable_of_not_mem _ _ (fun known => new (List.mem_eraseDups.mp known)), List.map_append]
    congr 1
    · refine List.map_congr_left fun written member => ?_
      have other : (declaredType base d).written ≠ written := by
        rintro rfl
        exact new (List.mem_eraseDups.mp member)
      simp [other]
    · simp [unused,← line_declaredType base d]

/-- A list that is searched and updated for each declarator comes to the fields by type. -/
theorem fieldsOf_eq (base : TypeRef) (ds : List Tree) :
    fieldsOf base ds = fieldsByType base (namedDeclarators ds) := by
  rw [fieldsOf_eq_foldl]
  induction namedDeclarators ds using List.reverseRecOn with
  | nil => rfl
  | append_singleton ds d ih =>
    rw [List.foldl_append, ih, ← addVariable_fieldsByType]
    rfl

section FieldsByType

variable {base : TypeRef} {ds : List Tree}

theorem fieldsByType_types : (fieldsByType base ds).map (fun f => f.1.written) =
    (ds.map fun d => (declaredType base d).written).eraseDups := by
  simp [fieldsByType,Function.comp_def]

theorem mem_fieldsByType {f : TypeRef × List Variable} :
    f ∈ fieldsByType base ds ↔ ∃ d ∈ ds, f = (⟨(declaredType base d).written,base.line⟩,
      (ofType base ds (declaredType base d).written).map Tree.declaredVariable) := by
  simp [fieldsByType,eq_comm]

theorem fieldsByType_nodup : ((fieldsByType base ds).map fun f => f.1.written).Nodup := by
  rw [fieldsByType_types]
  exact eraseDups_nodup _

theorem fieldsByType_ordered : (fieldsByType base ds).Pairwise fun f g =>
    ds.findIdx (fun d => (declaredType base d).written = f.1.written) <
      ds.findIdx (fun d => (declaredType base d).written = g.1.written) := by
  have ordered := eraseDups_ordered (ds.map fun d => (declaredType base d).written)
  rw [← fieldsByType_types] at ordered
  refine (List.pairwise_map.mp ordered).imp fun earlier => ?_
  simpa only [List.idxOf,List.findIdx_map,Function.comp_def,beq_eq_decide] using earlier

end FieldsByType

/-! ## Initialisers -/

/-- The constructs in the initialisers of declarators, one declarator after the other. -/
def initialised (limit : Option Nat) : List Tree → Levels → List Construct × Levels
  | [],l => ([],l)
  | d :: ds,l =>
    let first := walk limit (d.child? .value).toList l
    let rest := initialised limit ds first.2
    (first.1 ++ rest.1,rest.2)

theorem walk_values (limit : Option Nat) (ds : List Tree) (l : Levels) :
    walk limit (ds.filterMap (·.child? .value)) l = initialised limit ds l := by
  induction ds generalizing l with
  | nil => exact walk_nil limit l
  | cons d ds ih =>
    have values : (d :: ds).filterMap (·.child? .value) =
        (d.child? .value).toList ++ ds.filterMap (·.child? .value) := by
      cases value : d.child? .value <;> simp [value]
    simp only [values,walk_append,ih,initialised]

/-- The walk makes the fields of a declaration, then what is in its initialisers, and then goes on. -/
theorem walk_fields {t type : Tree} (shape : t.kind.shape = .field) (typed : t.child? .type = some type)
    (limit : Option Nat) (pending : List Tree) (l : Levels) :
    walk limit (t :: pending) l =
      let values := initialised limit t.declarators l
      let rest := walk limit pending values.2
      ((fieldsOf type.typeRef t.declarators).map (fun f => .field f.1 f.2) ++ values.1 ++ rest.1,rest.2) := by
  have entered : t.entered = t.declarators.filterMap (·.child? .value) := by
    simp [Tree.entered,shape,typed]
  have built (inner : List Construct) : t.build inner =
      (fieldsOf type.typeRef t.declarators).map (fun f => .field f.1 f.2) ++ inner := by
    simp only [Tree.build,shape,typed]
  simp only [walk_field limit l shape,entered,walk_values,built]

/-- The fields of a declaration are its named declarators by their written types: no two fields have the same
type, each declarator has its variable in the field of its own type and in no other, and the order within
and among the fields is that of the source. What is in the initialisers comes behind them, one declarator
after the other. -/
theorem declarators_partitioned {t type : Tree}
    (kind : t.kind = .fieldDeclaration ∨ t.kind = .constantDeclaration)
    (typed : t.child? .type = some type) :
    let named := t.declarators.filter fun d => (d.child? .name).isSome
    let written := fun d : Tree => type.written ++
      ((d.child? .dimensions).map fun b => Text.removeBlanks b.text).getD ""
    ∃ fields : List (TypeRef × List Variable),
      (fields.map fun f => f.1.written).Nodup ∧
      (∀ d ∈ named, ∃! f, f ∈ fields ∧ f.1.written = written d) ∧
      (∀ f ∈ fields, f.1.line = some type.line ∧ f.2 ≠ [] ∧
        f.2 = (named.filter fun d => written d = f.1.written).map Tree.declaredVariable) ∧
      (fields.Pairwise fun f g =>
        named.findIdx (fun d => written d = f.1.written) < named.findIdx (fun d => written d = g.1.written)) ∧
      ∀ limit pending l, walk limit (t :: pending) l =
        let values := initialised limit t.declarators l
        let rest := walk limit pending values.2
        (fields.map (fun f => .field f.1 f.2) ++ values.1 ++ rest.1,rest.2) := by
  intro named written
  have own (d : Tree) : written d = (declaredType type.typeRef d).written :=
    (written_declaredType type.typeRef d).symm
  have shape : t.kind.shape = .field := by rcases kind with kind | kind <;> rw [kind] <;> rfl
  have sorted : fieldsOf type.typeRef t.declarators = fieldsByType type.typeRef named := fieldsOf_eq ..
  have made := walk_fields shape typed
  rw [sorted] at made
  simp only [own]
  refine ⟨fieldsByType type.typeRef named,fieldsByType_nodup,fun d member => ?_,fun f field => ?_,
    fieldsByType_ordered,made⟩
  · refine ⟨_,⟨mem_fieldsByType.mpr ⟨d,member,rfl⟩,rfl⟩,?_⟩
    rintro f ⟨field,same⟩
    obtain ⟨d',-,rfl⟩ := mem_fieldsByType.mp field
    rw [← same]
  · obtain ⟨d,member,rfl⟩ := mem_fieldsByType.mp field
    have inside : d ∈ ofType type.typeRef named (declaredType type.typeRef d).written := by
      simp [ofType,member]
    exact ⟨rfl,List.ne_nil_of_mem (List.mem_map_of_mem inside),rfl⟩

def unspaced (role : Role) (kind : Kind) (text : String) : Tree := .leaf role kind "" text 0

def creationOf (type : String) : Tree :=
  .node .value .objectCreation 0 [unspaced .none .token "new",unspaced .type .typeIdentifier type,
    .node .none .argumentList 0 [unspaced .none .token "(",unspaced .none .token ")"]]

def gridDeclarator : Tree :=
  .node .declarator .variableDeclarator 0 [unspaced .name .identifier "grid",
    .node .dimensions .dimensions 0 [unspaced .none .token "[",unspaced .none .token "]",
      .leaf .none .token " " "[" 0,unspaced .none .token "]"],
    unspaced .none .token "=",creationOf "C"]

/-- The fields `B one, grid[] [] = new C(), other = new D();`. -/
def mixedFields : Tree :=
  .node .none .fieldDeclaration 0 [unspaced .type .typeIdentifier "B",
    .node .declarator .variableDeclarator 0 [unspaced .name .identifier "one"],unspaced .none .token ",",
    gridDeclarator,unspaced .none .token ",",
    .node .declarator .variableDeclarator 0 [unspaced .name .identifier "other",unspaced .none .token "=",
      creationOf "D"],
    unspaced .none .token ";"]

theorem declarators_partitioned_mixed :
    mixedFields.kind = .fieldDeclaration ∧
    mixedFields.child? .type = some (unspaced .type .typeIdentifier "B") ∧
    ∃ fields : List (TypeRef × List Variable),
      (fields.map fun f => f.1.written).Nodup ∧
      (∃! f, f ∈ fields ∧ f.1.written = "B[][]") ∧
      (∀ f ∈ fields, f.1.written = "B" → f.2 = [⟨"one",some 1⟩,⟨"other",some 1⟩]) ∧
      (constructsOf [mixedFields]).take fields.length = fields.map fun f => .field f.1 f.2 := by
  have base : (unspaced .type .typeIdentifier "B").written = "B" := (Tree.written_eq _).trans rfl
  obtain ⟨fields,distinct,one,held,-,made⟩ :=
    @declarators_partitioned mixedFields (unspaced .type .typeIdentifier "B") (.inl rfl) rfl
  refine ⟨rfl,rfl,fields,distinct,?_,fun f field type => ?_,?_⟩
  · have own := one gridDeclarator (.tail _ (.head _))
    rw [base] at own
    exact own
  · obtain ⟨-,-,inOrder⟩ := held f field
    rw [inOrder, type, base]
    decide
  · rw [constructsOf, made]
    simp

end Coupling.Source
