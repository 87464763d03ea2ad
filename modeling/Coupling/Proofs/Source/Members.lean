import Coupling.Proofs.Source.Brackets
import Coupling.Proofs.Source.Fields
import Coupling.Proofs.Source.Nesting

/-! Members of array type. A variable, a component, a parameter or a result is an array if brackets stand on
its type or behind its name or parameters. It is no dependency as long as the brackets reach the end of the
written type; the two ways in which they do not are named here. -/
namespace Coupling.Source

/-! ## Members -/

/-- A variable of a field, a component of a record, a parameter or a result, as a source declares it. -/
structure Member where
  type : Tree
  /-- The brackets behind the name, or behind the parameters if it is a result. -/
  brackets : Option Tree
  mention : Mention

namespace Member

/-- Brackets stand on the type or behind it. The dots of variable arity are none. -/
def IsArray (m : Member) : Prop := m.type.kind = .arrayType ∨ m.brackets.isSome = true

/-- The brackets do not reach the end of the written type: those behind the parameters of a method are not
read, and behind a name a comment can hide the last opening bracket. -/
def IsOverlooked (m : Member) : Prop :=
  if m.mention.kind = .methodReturn then m.type.kind ≠ .arrayType
  else ∃ d, m.brackets = some d ∧ d.HidesBracket

end Member

inductive Tree.Typed (p : Tree) : Tree → Option Tree → Prop
  | plain {type} (kind : p.kind = .formalParameter) (typed : p.child? .type = some type) :
      Typed p type (p.child? .dimensions)
  | variadic {type} (kind : p.kind = .spreadParameter)
      (typed : p.namedChildren.find?
        (fun c => c.kind != .modifiers && !c.isAnnotationUse && !c.isComment) = some type) :
      Typed p type none

/-- The members that a node declares. -/
inductive Tree.Declares (t : Tree) : Member → Prop
  | declarator {type d name reference} (shape : t.kind.shape = .field) (typed : t.child? .type = some type)
      (member : d ∈ t.declarators) (named : d.child? .name = some name)
      (refers : reference = declaredType type.typeRef d) :
      Declares t ⟨type,d.child? .dimensions,
        ⟨reference,.field,reference.written ++ " " ++ name.text,some name.line⟩⟩
  | component {ps p q type brackets} (shape : t.kind.shape = .type .record)
      (parameters : t.child? .parameters = some ps) (member : p ∈ ps.namedChildren)
      (typed : p.Typed type brackets) (described : p.parameter? = some q) :
      Declares t ⟨type,brackets,⟨q.type,.field,q.type.written ++ " " ++ q.name,q.line⟩⟩
  | parameter {ps p q type brackets hasReturnType} (shape : t.kind.shape = .method hasReturnType)
      (parameters : t.child? .parameters = some ps) (member : p ∈ ps.namedChildren)
      (typed : p.Typed type brackets) (described : p.parameter? = some q) :
      Declares t ⟨type,brackets,⟨q.type,.methodParameter,q.text,q.line⟩⟩
  | result {type} (shape : t.kind.shape = .method true) (typed : t.child? .type = some type) :
      Declares t ⟨type,t.child? .dimensions,
        ⟨type.typeRef,.methodReturn,type.written ++ " " ++ t.nameText ++ "()",some type.line⟩⟩

/-! ## The written type of a member -/

theorem Tree.contains_child? {t c : Tree} {r : Role} (found : t.child? r = some c) : t.Contains c :=
  .inside (List.mem_of_find?_eq_some found) (.here c)

theorem Tree.contains_of_namedChildren {t u : Tree} (member : u ∈ t.namedChildren) : t.Contains u :=
  .inside (List.mem_filter.mp member).1 (.here u)

theorem parameter_written {p type : Tree} {brackets : Option Tree} {q : Parameter}
    (typed : p.Typed type brackets) (described : p.parameter? = some q) :
    q.type.written = type.written ++ (brackets.map Tree.dimensionsText).getD "" := by
  cases typed with
  | plain kind typed =>
    simp only [Tree.parameter?,kind,typed,Option.map_some,Option.some.injEq] at described
    rw [← described]
    exact written_declaredType ..
  | variadic kind typed =>
    simp only [Tree.parameter?,kind,typed,Option.map_some,Option.some.injEq] at described
    rw [← described]
    simp [Tree.typeRef]

/-- Where the written type of a member comes from: its type, and the brackets behind the name unless it is a
result. -/
structure Tree.Spells (t : Tree) (m : Member) : Prop where
  type : t.Contains m.type
  brackets : ∀ d, m.brackets = some d → ∃ u, t.Contains u ∧ u.child? .dimensions = some d
  written : m.mention.reference.written = m.type.written ++
    if m.mention.kind = .methodReturn then "" else (m.brackets.map Tree.dimensionsText).getD ""

theorem Tree.Typed.contains {t ps p type : Tree} {brackets : Option Tree} (typed : p.Typed type brackets)
    (parameters : t.child? .parameters = some ps) (member : p ∈ ps.namedChildren) :
    t.Contains type ∧ ∀ d, brackets = some d → ∃ u, t.Contains u ∧ u.child? .dimensions = some d := by
  have inside := (contains_child? parameters).trans (contains_of_namedChildren member)
  cases typed with
  | plain kind typed => exact ⟨inside.trans (contains_child? typed),fun d found => ⟨p,inside,found⟩⟩
  | variadic kind typed =>
    have listed := List.mem_of_find?_eq_some typed
    exact ⟨inside.trans (contains_of_namedChildren listed),by simp⟩

theorem Tree.Declares.spells {t : Tree} {m : Member} (declares : t.Declares m) : t.Spells m := by
  cases declares with
  | declarator shape typed member named refers =>
    subst refers
    have inside := Contains.inside (List.mem_filter.mp member).1 (.here _)
    exact ⟨contains_child? typed,fun d found => ⟨_,inside,found⟩,written_declaredType ..⟩
  | component shape parameters member typed described =>
    obtain ⟨inside,behind⟩ := typed.contains parameters member
    exact ⟨inside,behind,parameter_written typed described⟩
  | parameter shape parameters member typed described =>
    obtain ⟨inside,behind⟩ := typed.contains parameters member
    exact ⟨inside,behind,parameter_written typed described⟩
  | result shape typed =>
    exact ⟨contains_child? typed,fun d found => ⟨t,.here t,found⟩,(String.append_empty).symm⟩

/-- The written type of an array has brackets at its end, unless they are overlooked. -/
theorem isArray_of_declares {root t : Tree} {m : Member} (regular : root.Regular) (contains : root.Contains t)
    (declares : t.Declares m) (array : m.IsArray) (seen : ¬m.IsOverlooked) :
    m.mention.reference.isArray = true := by
  have spells := declares.spells
  have onType (arrayType : m.type.kind = .arrayType) : isArrayName m.type.written = true :=
    regular.isArrayName_written (contains.trans spells.type) arrayType
  rw [TypeRef.isArray, spells.written]
  unfold Member.IsOverlooked at seen
  split
  · rename_i result
    rw [if_pos result, Decidable.not_not] at seen
    simpa using onType seen
  · rename_i other
    rw [if_neg other] at seen
    cases behind : m.brackets with
    | none =>
      have arrayType : m.type.kind = .arrayType := by simpa [Member.IsArray,behind] using array
      simpa using onType arrayType
    | some d =>
      obtain ⟨u,inside,role⟩ := spells.brackets d behind
      have within := contains.trans inside
      have child := List.mem_of_find?_eq_some role
      have kind := (regular.within u within).roles d child (by simpa using List.find?_some role)
      have shown : ¬d.HidesBracket := fun hidden => seen ⟨d,behind,hidden⟩
      exact regular.isArrayName_append_dimensionsText (within.child child) kind shown _

/-! ## Where mentions come from -/

def memberKinds : List DependencyKind := [.field,.methodParameter,.methodReturn]

/-- A variable in one of the fields of a declaration is that of a declarator with the type of the field. -/
def Owed (base : TypeRef) (ds : List Tree) (type : TypeRef) (v : Variable) : Prop :=
  ∃ d ∈ ds, ∃ name, d.child? .name = some name ∧ type = declaredType base d ∧ v = ⟨name.text,some name.line⟩

theorem owed_of_fieldsOf {base : TypeRef} {ds : List Tree} {f : TypeRef × List Variable} {v : Variable}
    (field : f ∈ fieldsOf base ds) (member : v ∈ f.2) : Owed base ds f.1 v := by
  rw [fieldsOf_eq] at field
  obtain ⟨first,-,rfl⟩ := mem_fieldsByType.mp field
  obtain ⟨d,inside,rfl⟩ := List.mem_map.mp member
  obtain ⟨listed,same⟩ := List.mem_filter.mp inside
  obtain ⟨listed,named⟩ := List.mem_filter.mp listed
  obtain ⟨name,named⟩ := Option.isSome_iff_exists.mp named
  refine ⟨d,listed,name,named,?_,by simp [Tree.declaredVariable,Tree.nameText,named]⟩
  rw [← of_decide_eq_true same, ← line_declaredType base d]

theorem typed_of_parameter? {p : Tree} {q : Parameter} (described : p.parameter? = some q) :
    ∃ type brackets, p.Typed type brackets := by
  unfold Tree.parameter? at described
  split at described
  · rename_i kind
    obtain ⟨type,typed,-⟩ := Option.map_eq_some_iff.mp described
    exact ⟨type,_,.plain kind typed⟩
  · rename_i kind
    obtain ⟨type,typed,-⟩ := Option.map_eq_some_iff.mp described
    exact ⟨type,_,.variadic kind typed⟩
  · cases described

theorem exists_parameter {t : Tree} {q : Parameter} (member : q ∈ t.parameterList) :
    ∃ ps p type brackets, t.child? .parameters = some ps ∧ p ∈ ps.namedChildren ∧
      p.Typed type brackets ∧ p.parameter? = some q := by
  unfold Tree.parameterList at member
  split at member
  · rename_i ps parameters
    obtain ⟨p,inside,described⟩ := List.mem_filterMap.mp member
    obtain ⟨type,brackets,typed⟩ := typed_of_parameter? described
    exact ⟨ps,p,type,brackets,parameters,inside,typed,described⟩
  · cases member

section Origin

variable {t : Tree} {inner around : List Construct} {c : Construct} {own : List String} {m : Mention}

def Tree.Mentions (t : Tree) (m : Mention) : Prop := ∃ member, t.Declares member ∧ member.mention = m

theorem mentions_of_components {kind : TypeKind} (shape : t.kind.shape = .type kind)
    (stands : Stands (t.components kind) around c) (mentions : c.Mentions own m) : t.Mentions m := by
  unfold Tree.components at stands
  split at stands
  · rename_i record
    subst record
    cases stands with
    | here member =>
      obtain ⟨q,listed,rfl⟩ := List.mem_map.mp member
      obtain ⟨ps,p,type,brackets,parameters,inside,typed,described⟩ := exists_parameter listed
      cases mentions with
      | field among =>
        cases List.mem_singleton.mp among
        exact ⟨_,.component shape parameters inside typed described,rfl⟩
    | inside member below =>
      obtain ⟨q,-,rfl⟩ := List.mem_map.mp member
      exact absurd below not_stands_nil
  · exact absurd stands not_stands_nil

theorem mentions_of_fields {type : Tree} (shape : t.kind.shape = .field) (typed : t.child? .type = some type)
    (stands : Stands ((fieldsOf type.typeRef t.declarators).map fun f => .field f.1 f.2) around c)
    (mentions : c.Mentions own m) : t.Mentions m := by
  cases stands with
  | here member =>
    obtain ⟨f,field,rfl⟩ := List.mem_map.mp member
    cases mentions with
    | field among =>
      obtain ⟨d,listed,name,named,refers,rfl⟩ := owed_of_fieldsOf field among
      exact ⟨_,.declarator shape typed listed named refers,rfl⟩
  | inside member below =>
    obtain ⟨f,-,rfl⟩ := List.mem_map.mp member
    exact absurd below not_stands_nil

theorem mentions_of_method {hasReturnType : Bool} (shape : t.kind.shape = .method hasReturnType)
    (mentions : Construct.Mentions (.method (t.methodHead hasReturnType) inner) own m) : t.Mentions m := by
  cases mentions with
  | methodReturn returns =>
    simp only [Tree.methodHead] at returns
    split at returns
    · rename_i result
      subst result
      obtain ⟨type,typed,rfl⟩ := Option.map_eq_some_iff.mp returns
      exact ⟨_,.result shape typed,rfl⟩
    · cases returns
  | methodParameter listed =>
    obtain ⟨ps,p,type,brackets,parameters,inside,typed,described⟩ := exists_parameter listed
    exact ⟨_,.parameter shape parameters inside typed described,rfl⟩

/-- A mention of a member in what a node makes is that of a member of the node, or stands inside it. -/
theorem mentions_of_build (stands : Stands (t.build inner) around c) (mentions : c.Mentions own m)
    (kind : m.kind ∈ memberKinds) : t.Mentions m ∨ ∃ around, Stands inner around c := by
  unfold Tree.build at stands
  split at stands
  · rename_i shape
    split at stands
    · rcases stands_singleton_iff.mp stands with ⟨-,rfl⟩ | ⟨rest,-,below⟩
      · cases mentions <;> simp [memberKinds] at kind
      · rcases stands_append_iff.mp below with component | inside
        · exact .inl (mentions_of_components shape component mentions)
        · exact .inr ⟨rest,inside⟩
    · exact absurd stands not_stands_nil
  · rename_i shape
    split at stands
    · rename_i typed
      rcases stands_append_iff.mp stands with field | inside
      · exact .inl (mentions_of_fields shape typed field mentions)
      · exact .inr ⟨around,inside⟩
    · exact absurd stands not_stands_nil
  · rename_i shape
    rcases stands_singleton_iff.mp stands with ⟨-,rfl⟩ | ⟨rest,-,inside⟩
    · exact .inl (mentions_of_method shape mentions)
    · exact .inr ⟨rest,inside⟩
  · split at stands
    · rcases stands_singleton_iff.mp stands with ⟨-,rfl⟩ | ⟨rest,-,inside⟩
      · cases mentions
        simp [memberKinds] at kind
      · exact .inr ⟨rest,inside⟩
    · rcases stands_singleton_iff.mp stands with ⟨-,rfl⟩ | ⟨rest,-,inside⟩
      · exact absurd mentions not_mentions_block
      · exact .inr ⟨rest,inside⟩
  · split at stands
    · exact absurd stands not_stands_nil
    · rcases stands_singleton_iff.mp stands with ⟨-,rfl⟩ | ⟨rest,-,inside⟩
      · exact absurd mentions not_mentions_block
      · exact .inr ⟨rest,inside⟩
  · exact .inr ⟨around,stands⟩

theorem Tree.contains_of_bodyParts {u : Tree} (member : u ∈ t.bodyParts) : t.Contains u := by
  unfold bodyParts at member
  cases found : t.child? .body with
  | none => simp [found] at member
  | some body =>
    rw [found] at member
    exact (contains_child? found).trans (contains_of_namedChildren member)

/-- The walk stays inside a node. -/
theorem Tree.contains_of_entered {u : Tree} (entered : u ∈ t.entered) : t.Contains u := by
  unfold Tree.entered at entered
  split at entered
  · split at entered
    · exact contains_of_bodyParts entered
    · cases entered
  · split at entered
    · obtain ⟨d,listed,value⟩ := List.mem_filterMap.mp entered
      exact .inside (List.mem_filter.mp listed).1 (contains_child? value)
    · cases entered
  · exact contains_of_bodyParts entered
  · exact .inside (List.eraseP_sublist.mem (List.mem_filter.mp entered).1) (.here u)
  · exact contains_of_namedChildren entered
  · exact contains_of_namedChildren entered

/-- The mentions of members in an outline come from members in the tree. -/
theorem exists_member {ts : List Tree} (stands : Stands (constructsOf ts) around c)
    (mentions : c.Mentions own m) (kind : m.kind ∈ memberKinds) :
    ∃ u ∈ ts, ∃ t, u.Contains t ∧ t.Mentions m := by
  induction ts using walk_induction generalizing around with
  | nil => exact absurd (constructsOf_nil ▸ stands) not_stands_nil
  | cons t ts inside behind =>
    rw [constructsOf_cons] at stands
    rcases stands_append_iff.mp stands with first | later
    · rcases mentions_of_build first mentions kind with own | ⟨rest,inner⟩
      · exact ⟨t,List.mem_cons_self ..,t,.here t,own⟩
      · obtain ⟨u,entered,t',contains,mentioned⟩ := inside inner
        exact ⟨t,List.mem_cons_self ..,t',(Tree.contains_of_entered entered).trans contains,mentioned⟩
    · obtain ⟨u,member,found⟩ := behind later
      exact ⟨u,List.mem_cons_of_mem _ member,found⟩

end Origin

/-- An edge of a kind that members carry is owed to a mention in the declarations. -/
theorem exists_mention_of_edge {resolve : Resolver} {policy : Policy} {o : Outline} {unitName : String} {e : Edge}
    (member : e ∈ (classify resolve policy o unitName).edges) (kind : e.kind ∈ memberKinds) :
    ∃ scope m, Found o.declarations scope m ∧ Emits resolve policy unitName scope m e := by
  obtain ⟨bound,m,⟨-,-,imported⟩ | found,emits⟩ := mem_edges_iff.mp member
  · obtain ⟨i,-,-,-,rfl⟩ := mem_importMentions.mp imported
    obtain ⟨-,-,-,rfl⟩ := emits
    simp [memberKinds] at kind
  · exact ⟨bound,m,found,emits⟩

/-- In every regular and complete tree, as all parsed ones are, a member with brackets on its type or behind it
is no dependency, whatever the index and the policy, unless the brackets are overlooked; and every dependency of
a kind that members carry is owed to another member. -/
theorem array_members_silent (root : Tree) (o : Outline) (outlined : root.outline? = .ok o) :
    (∀ source, parseTree source = .ok root → root.Regular ∧ root.Complete) ∧
    (root.Regular → root.Complete →
      (∀ t m, root.Contains t → t.Declares m → m.IsArray → ¬m.IsOverlooked →
        ∀ index policy unitName scope e, ¬Emits (resolver index o) policy unitName scope m.mention e) ∧
      ∀ index policy unitName, ∀ e ∈ (classify (resolver index o) policy o unitName).edges,
        e.kind ∈ memberKinds → ∃ t m, root.Contains t ∧ t.Declares m ∧ (m.IsArray → m.IsOverlooked) ∧
          ∃ scope, Emits (resolver index o) policy unitName scope m.mention e) := by
  refine ⟨fun source parsed => ⟨parseTree_regular parsed,parseTree_complete parsed⟩,?_⟩
  intro regular complete
  have silent : ∀ t m, root.Contains t → t.Declares m → m.IsArray → ¬m.IsOverlooked →
      ∀ index policy unitName scope e, ¬Emits (resolver index o) policy unitName scope m.mention e := by
    intro t m contains declares array seen index policy unitName scope e
    exact not_emits_of_isArray (isArray_of_declares regular contains declares array seen)
  refine ⟨silent,?_⟩
  intro index policy unitName e member kind
  obtain ⟨scope,mention,⟨around,c,own,stands,mentions,-⟩,emits⟩ := exists_mention_of_edge member kind
  have made := outline?_eq_ok complete (not_exceeds_of_outline? complete outlined)
  cases made.symm.trans outlined
  simp only [Tree.outlineWithin,walk_none] at stands
  obtain ⟨u,top,t,contains,m,declares,rfl⟩ := exists_member stands mentions (emits.kind ▸ kind)
  have within : root.Contains t := .inside (List.mem_filter.mp top).1 contains
  refine ⟨t,m,within,declares,fun array => ?_,scope,emits⟩
  exact Classical.byContradiction fun seen => silent t m within declares array seen _ _ _ _ _ emits

def arraySource : String := "class A \x7b B[/**/] f, g [ ]; \x7d"

/-- Whether the first type has a field of array type, and one of its variables has brackets behind its name
with no comment in front of the last one. -/
def hasArrayField (root : Tree) : Bool :=
  (root.children.head?.bind (·.child? .body)).any fun body =>
    body.children.any fun t => t.kind == .fieldDeclaration &&
      (t.child? .type).any (·.kind == .arrayType) &&
      t.declarators.any fun d => (d.child? .name).isSome && (d.child? .dimensions).any fun b =>
        !b.children.dropLast.getLast?.any Tree.isComment

theorem array_members_silent_field :
    ∃ root o, parseTree arraySource = .ok root ∧ root.outline? = .ok o ∧
      ∃ t m, root.Contains t ∧ t.Declares m ∧ m.type.kind = .arrayType ∧ m.brackets.isSome = true ∧
        ∀ index policy unitName scope e, ¬Emits (resolver index o) policy unitName scope m.mention e := by
  have read : ((parseTree arraySource).toOption.any fun root =>
      root.outline?.toOption.isSome && hasArrayField root) = true := by decide +kernel
  cases parsed : parseTree arraySource with
  | error e => simp [parsed,Except.toOption] at read
  | ok root =>
    cases outlined : root.outline? with
    | error e => simp [parsed,outlined,Except.toOption] at read
    | ok o =>
      have field : hasArrayField root = true := by simpa [parsed,outlined,Except.toOption] using read
      simp only [hasArrayField,Option.any_eq_true,Option.bind_eq_some_iff,List.any_eq_true,Bool.and_eq_true,
        beq_iff_eq,Option.isSome_iff_exists] at field
      obtain ⟨body,⟨top,first,inTop⟩,t,inBody,⟨kind,type,typed,arrayType⟩,d,listed,⟨name,named⟩,b,behind,plain⟩ :=
        field
      have contains : root.Contains t :=
        .inside (List.mem_of_head? first) ((Tree.contains_child? inTop).trans (.inside inBody (.here t)))
      have declares : t.Declares _ := .declarator (by rw [kind]; rfl) typed listed named rfl
      refine ⟨root,o,rfl,outlined,t,_,contains,declares,arrayType,by simp [behind],?_⟩
      obtain ⟨parses,silent⟩ := array_members_silent root o outlined
      obtain ⟨regular,complete⟩ := parses _ parsed
      refine (silent regular complete).1 t _ contains declares (.inl arrayType) ?_
      rintro ⟨b',behind',c,last,comment,-⟩
      cases behind.symm.trans behind'
      simp [last,comment] at plain

def edgesOf (source unitName : String) : Option (List Edge) :=
  (parse source).toOption.map fun o => (classify (resolver .empty o) ⟨[],false⟩ o unitName).edges

/-- Brackets behind the parameters of a method, and brackets behind a name with a comment between them, leave
an array among the dependencies. -/
theorem brackets_overlooked :
    edgesOf "class A \x7b B m()[] \x7b return null; \x7d \x7d" "A" =
      some [⟨"A","B",.methodReturn,"B m()",some 1⟩] ∧
    edgesOf "class A \x7b B f[/**/]; \x7d" "A" = some [⟨"A","B[/**/]",.field,"B[/**/] f",some 1⟩] := by
  decide +kernel

end Coupling.Source
