import Coupling.Classification
import Coupling.Proofs.Report

/-! The walk over an outline against the table of places that carry a dependency. Where a construct
stands is said through the constructs around it alone, so nothing here depends on the order in which the
walk comes by, or on what it has met before. -/
namespace Coupling

/-! ## Places -/

namespace Construct

def children : Construct → List Construct
  | .type _ members => members
  | .field _ _ => []
  | .method _ body => body
  | .creation _ _ children => children
  | .block children => children

def typeParameters : Construct → List String
  | .type head _ => head.typeParameters
  | .field _ _ => []
  | .method head _ => head.typeParameters
  | .creation _ _ _ => []
  | .block _ => []

/-- The mentions of a construct itself, each with the names that the construct binds for it: a type
binds none for its supertypes, a method binds its own parameters for all of its head. -/
inductive Mentions : Construct → List String → Mention → Prop
  | extension {head members r} (member : r ∈ head.supertypes) :
      Mentions (.type head members) [] ⟨r,.extension,"extends " ++ r.written,r.line⟩
  | implementation {head members r} (member : r ∈ head.interfaces) :
      Mentions (.type head members) [] ⟨r,.implementation,"implements " ++ r.written,r.line⟩
  | field {type declarators v} (member : v ∈ declarators) :
      Mentions (.field type declarators) [] ⟨type,.field,type.written ++ " " ++ v.name,v.line⟩
  | methodReturn {head body r} (returns : head.returnType = some r) :
      Mentions (.method head body) head.typeParameters
        ⟨r,.methodReturn,r.written ++ " " ++ head.name ++ "()",r.line⟩
  | methodParameter {head body p} (member : p ∈ head.parameters) :
      Mentions (.method head body) head.typeParameters
        ⟨p.type,.methodParameter,p.text,p.line⟩
  | instantiation {type line children} :
      Mentions (.creation type line children) []
        ⟨type,.instantiation,"new " ++ type.written ++ "()",line⟩

end Construct

/-- A construct stands somewhere below `siblings`, inside the constructs `around`, outermost first. -/
inductive Stands : List Construct → List Construct → Construct → Prop
  | here {siblings c} (member : c ∈ siblings) : Stands siblings [] c
  | inside {siblings parent around c} (member : parent ∈ siblings)
      (below : Stands parent.children around c) : Stands siblings (parent :: around) c

/-- A mention of a unit that names no type parameter of a declaration around it. -/
inductive Outline.FreeMention (o : Outline) (includeImports : Bool) : Mention → Prop
  | importation {i} (included : includeImports = true) (member : i ∈ o.imports)
      (type : i.isStatic = false) (single : i.onDemand = false) :
      FreeMention o includeImports
        ⟨⟨i.path,i.line⟩,.importation,"import " ++ i.path,i.line⟩
  | declaration {around c own m} (stands : Stands o.declarations around c)
      (mentions : c.Mentions own m) (unbound : m.reference.erased ∉ own)
      (free : ∀ outer ∈ around, m.reference.erased ∉ outer.typeParameters) :
      FreeMention o includeImports m

def Found (siblings : List Construct) (bound : List String) (m : Mention) : Prop :=
  ∃ around c own, Stands siblings around c ∧ c.Mentions own m ∧
    bound = around.flatMap Construct.typeParameters ++ own

theorem found_nil {bound : List String} {m : Mention} : ¬Found [] bound m := by
  rintro ⟨around,c,own,stands,-,-⟩
  cases stands with
  | here member => cases member
  | inside member => cases member

theorem found_cons {c : Construct} {cs : List Construct} {bound : List String} {m : Mention} :
    Found (c :: cs) bound m ↔ Found [c] bound m ∨ Found cs bound m := by
  constructor
  · rintro ⟨around,inner,own,stands,mentions,rfl⟩
    cases stands with
    | here member =>
      rcases List.mem_cons.mp member with rfl | later
      · exact .inl ⟨[],_,own,.here (List.mem_singleton_self _),mentions,rfl⟩
      · exact .inr ⟨[],_,own,.here later,mentions,rfl⟩
    | inside member below =>
      rcases List.mem_cons.mp member with rfl | later
      · exact .inl ⟨_,_,own,.inside (List.mem_singleton_self _) below,mentions,rfl⟩
      · exact .inr ⟨_,_,own,.inside later below,mentions,rfl⟩
  · have widen (siblings : List Construct) (part : ∀ x ∈ siblings, x ∈ c :: cs)
        (found : Found siblings bound m) : Found (c :: cs) bound m := by
      obtain ⟨around,inner,own,stands,mentions,rfl⟩ := found
      cases stands with
      | here member => exact ⟨[],_,own,.here (part _ member),mentions,rfl⟩
      | inside member below => exact ⟨_,_,own,.inside (part _ member) below,mentions,rfl⟩
    rintro (first | later)
    · exact widen [c] (by simp) first
    · exact widen cs (fun _ member => List.mem_cons_of_mem _ member) later

/-- A mention in a construct is one of its own, or one in what it encloses. -/
theorem found_singleton {c : Construct} {bound : List String} {m : Mention} :
    Found [c] bound m ↔ c.Mentions bound m ∨
      ∃ inner, Found c.children inner m ∧ bound = c.typeParameters ++ inner := by
  constructor
  · rintro ⟨around,inner,own,stands,mentions,rfl⟩
    cases stands with
    | here member =>
      cases List.mem_singleton.mp member
      exact .inl mentions
    | inside member below =>
      cases List.mem_singleton.mp member
      exact .inr ⟨_,⟨_,_,own,below,mentions,rfl⟩,by simp⟩
  · rintro (mentions | ⟨inner,⟨around,c',own,below,mentions,rfl⟩,rfl⟩)
    · exact ⟨[],c,bound,.here (List.mem_singleton_self c),mentions,rfl⟩
    · exact ⟨c :: around,c',own,.inside (List.mem_singleton_self c) below,mentions,by simp⟩

theorem Found.kind_ne {siblings : List Construct} {bound : List String} {m : Mention}
    (found : Found siblings bound m) : m.kind ≠ .importation := by
  obtain ⟨around,c,own,-,mentions,-⟩ := found
  cases mentions <;> simp

/-! ## What a walk adds -/

section Walk

variable (resolve : Resolver) (policy : Policy)

/-- The edge `e` is what a mention stands for, in a unit and under the names in scope. -/
def Emits (unitName : String) (scope : List String) (m : Mention) (e : Edge) : Prop :=
  m.reference.erased ≠ "" ∧ m.reference.erased ∉ scope ∧
    policy.admits (resolve.target m.reference) unitName = true ∧
    e = ⟨unitName,resolve.target m.reference,m.kind,snippetOf m.text,m.line⟩

/-- A part of the walk that leads from `w` to `w'` meets exactly the mentions `found`, each under the
scope at its start and further bound names. The scope is back where it was at the end. -/
structure Walked (w : Walk) (found : List String → Mention → Prop) (w' : Walk) : Prop where
  scope : w'.scope = w.scope
  name : w'.report.name = w.report.name
  strict : Sorted.Strict w.report.edges → Sorted.Strict w'.report.edges
  edges : ∀ e, e ∈ w'.report.edges ↔ e ∈ w.report.edges ∨
    ∃ bound m, found bound m ∧ Emits resolve policy w.report.name (w.scope ++ bound) m e

variable {resolve policy}

theorem Walked.refl (w : Walk) : Walked resolve policy w (fun _ _ => False) w :=
  ⟨rfl,rfl,id,by simp⟩

theorem Walked.congr {w w' : Walk} {found found' : List String → Mention → Prop}
    (walked : Walked resolve policy w found w') (same : ∀ bound m, found bound m ↔ found' bound m) :
    Walked resolve policy w found' w' := by
  have equal : found = found' := by
    funext bound m
    exact propext (same bound m)
  exact equal ▸ walked

theorem Walked.trans {w w' w'' : Walk} {first second : List String → Mention → Prop}
    (earlier : Walked resolve policy w first w') (later : Walked resolve policy w' second w'') :
    Walked resolve policy w (fun bound m => first bound m ∨ second bound m) w'' where
  scope := later.scope.trans earlier.scope
  name := later.name.trans earlier.name
  strict := later.strict ∘ earlier.strict
  edges e := by
    rw [later.edges, earlier.edges, earlier.scope, earlier.name, or_assoc]
    simp only [or_and_right,exists_or]

/-- Names that are bound on the way in are bound for all that is met inside, and cut off on the way
out. -/
theorem Walked.nest {w w' : Walk} {found : List String → Mention → Prop} (names : List String)
    (walked : Walked resolve policy (w.enter names) found w') :
    Walked resolve policy w (fun bound m => ∃ inner, found inner m ∧ bound = names ++ inner)
      (w'.leave w.scope.length) where
  scope := by simp [Walk.leave,walked.scope,Walk.enter]
  name := walked.name
  strict := walked.strict
  edges e := by
    have inside := walked.edges e
    simp only [Walk.enter] at inside
    simp only [Walk.leave,inside]
    refine or_congr_right ⟨?_,?_⟩
    · rintro ⟨inner,m,met,emits⟩
      exact ⟨names ++ inner,m,⟨inner,met,rfl⟩,by simpa using emits⟩
    · rintro ⟨_,m,⟨inner,met,rfl⟩,emits⟩
      exact ⟨inner,m,met,by simpa using emits⟩

theorem Emits.owned {r : UnitReport} {scope : List String} {m : Mention} {e : Edge}
    (emits : Emits resolve policy r.name scope m e) : r.owns e = true := by
  obtain ⟨-,-,admitted,rfl⟩ := emits
  simp only [Policy.admits,Bool.and_eq_true,bne_iff_ne] at admitted
  simpa [UnitReport.owns] using admitted.2

theorem Emits.kind {unitName : String} {scope : List String} {m : Mention} {e : Edge}
    (emits : Emits resolve policy unitName scope m e) : e.kind = m.kind := by
  obtain ⟨-,-,-,rfl⟩ := emits
  rfl

theorem Walk.emit_eq_add {w : Walk} {m : Mention} {e : Edge}
    (emits : Emits resolve policy w.report.name w.scope m e) :
    w.emit resolve policy m = { w with report := (w.report.add e).1 } := by
  obtain ⟨named,free,admitted,rfl⟩ := emits
  unfold emit
  rw [if_neg (by simp [named,free])]
  simp only [admitted,if_true]

theorem Walk.emit_eq_self {w : Walk} {m : Mention}
    (silent : ∀ e, ¬Emits resolve policy w.report.name w.scope m e) : w.emit resolve policy m = w := by
  unfold emit
  split
  · rfl
  · rename_i kept
    obtain ⟨named,free⟩ : m.reference.erased ≠ "" ∧ m.reference.erased ∉ w.scope := by
      simpa using kept
    by_cases admitted : policy.admits (resolve.target m.reference) w.report.name = true
    · exact absurd ⟨named,free,admitted,rfl⟩ (silent _)
    · simp [admitted]

theorem Walk.emit_walked (w : Walk) (m : Mention) :
    Walked resolve policy w (fun bound m' => bound = [] ∧ m' = m) (w.emit resolve policy m) := by
  by_cases silent : ∀ e, ¬Emits resolve policy w.report.name w.scope m e
  · rw [emit_eq_self silent]
    refine ⟨rfl,rfl,id,fun e => ⟨.inl,?_⟩⟩
    rintro (old | ⟨_,_,⟨rfl,rfl⟩,emits⟩)
    · exact old
    · exact absurd (by simpa using emits) (silent e)
  · obtain ⟨e,emits⟩ := Classical.not_forall_not.mp silent
    rw [emit_eq_add emits]
    refine ⟨rfl,UnitReport.add_name _ _,fun strict => UnitReport.add_strict strict _,fun x => ?_⟩
    simp only [UnitReport.mem_add_edges _ _ _ emits.owned]
    constructor
    · rintro (rfl | old)
      · exact .inr ⟨[],m,⟨rfl,rfl⟩,by simpa using emits⟩
      · exact .inl old
    · rintro (old | ⟨_,_,⟨rfl,rfl⟩,-,-,-,rfl⟩)
      · exact .inr old
      · exact .inl emits.2.2.2.symm

theorem Walk.emitAll_walked (w : Walk) (ms : List Mention) :
    Walked resolve policy w (fun bound m => bound = [] ∧ m ∈ ms) (w.emitAll resolve policy ms) := by
  induction ms generalizing w with
  | nil => exact (Walked.refl w).congr (by simp)
  | cons m rest ih =>
    refine ((w.emit_walked m).trans (ih (w.emit resolve policy m))).congr ?_
    intro bound m'
    simp only [List.mem_cons,and_or_left]

/-! ## The table of a construct, in the lists that the walk goes through -/

theorem mentions_type_iff {head : TypeHead} {members : List Construct} {bound : List String}
    {m : Mention} :
    Construct.Mentions (.type head members) bound m ↔ bound = [] ∧ m ∈ head.mentions := by
  simp only [TypeHead.mentions,List.mem_append,List.mem_map]
  constructor
  · intro mentions
    cases mentions with
    | extension member => exact ⟨rfl,.inl ⟨_,member,rfl⟩⟩
    | implementation member => exact ⟨rfl,.inr ⟨_,member,rfl⟩⟩
  · rintro ⟨rfl,⟨r,member,rfl⟩ | ⟨r,member,rfl⟩⟩
    · exact .extension member
    · exact .implementation member

theorem mentions_field_iff {type : TypeRef} {vs : List Variable} {bound : List String}
    {m : Mention} :
    Construct.Mentions (.field type vs) bound m ↔ bound = [] ∧ m ∈ fieldMentions type vs := by
  simp only [fieldMentions,List.mem_map]
  constructor
  · intro mentions
    cases mentions with
    | field member => exact ⟨rfl,_,member,rfl⟩
  · rintro ⟨rfl,v,member,rfl⟩
    exact .field member

theorem mentions_method_iff {head : MethodHead} {body : List Construct} {bound : List String}
    {m : Mention} :
    Construct.Mentions (.method head body) bound m ↔
      bound = head.typeParameters ∧ m ∈ head.mentions := by
  simp only [MethodHead.mentions,List.mem_append,List.mem_map,Option.mem_toList]
  constructor
  · intro mentions
    cases mentions with
    | methodReturn returns => exact ⟨rfl,.inl ⟨_,returns,rfl⟩⟩
    | methodParameter member => exact ⟨rfl,.inr ⟨_,member,rfl⟩⟩
  · rintro ⟨rfl,⟨r,returns,rfl⟩ | ⟨p,member,rfl⟩⟩
    · exact .methodReturn returns
    · exact .methodParameter member

theorem mentions_creation_iff {type : TypeRef} {line : Option Nat} {children : List Construct}
    {bound : List String} {m : Mention} :
    Construct.Mentions (.creation type line children) bound m ↔
      bound = [] ∧ m = creationMention type line := by
  constructor
  · intro mentions
    cases mentions with
    | instantiation => exact ⟨rfl,rfl⟩
  · rintro ⟨rfl,rfl⟩
    exact .instantiation

theorem not_mentions_block {children : List Construct} {bound : List String} {m : Mention} :
    ¬Construct.Mentions (.block children) bound m := by
  intro mentions
  cases mentions

/-! ## The whole walk -/

mutual

/-- By induction on the construct: its own mentions are met under the names that it binds for them, and
the rest of the walk is that over what it encloses. -/
theorem Construct.walk_walked (c : Construct) (w : Walk) :
    Walked resolve policy w (Found [c]) (c.walk resolve policy w) := by
  match c with
  | .type head members =>
    have own : Walked resolve policy w _ _ := w.emitAll_walked head.mentions
    have inner := (walkAll_walked members
      ((w.emitAll resolve policy head.mentions).enter head.typeParameters)).nest head.typeParameters
    refine (own.trans inner).congr ?_
    intro bound m
    rw [found_singleton, mentions_type_iff]
    rfl
  | .field type vs =>
    refine (w.emitAll_walked (fieldMentions type vs)).congr ?_
    intro bound m
    rw [found_singleton, mentions_field_iff]
    simp [Construct.children,found_nil]
  | .method head body =>
    have own : Walked resolve policy (w.enter head.typeParameters) _ _ :=
      (w.enter head.typeParameters).emitAll_walked head.mentions
    refine ((own.trans (walkAll_walked body _)).nest head.typeParameters).congr ?_
    intro bound m
    rw [found_singleton, mentions_method_iff]
    constructor
    · rintro ⟨inner,⟨rfl,member⟩ | found,rfl⟩
      · exact .inl ⟨List.append_nil _,member⟩
      · exact .inr ⟨inner,found,rfl⟩
    · rintro (⟨rfl,member⟩ | ⟨inner,found,rfl⟩)
      · exact ⟨[],.inl ⟨rfl,member⟩,(List.append_nil _).symm⟩
      · exact ⟨inner,.inr found,rfl⟩
  | .creation type line children =>
    refine ((w.emit_walked (creationMention type line)).trans (walkAll_walked children _)).congr ?_
    intro bound m
    rw [found_singleton, mentions_creation_iff]
    simp [Construct.children,Construct.typeParameters]
  | .block children =>
    refine (walkAll_walked children w).congr ?_
    intro bound m
    rw [found_singleton]
    simp [Construct.children,Construct.typeParameters,not_mentions_block]

theorem walkAll_walked (cs : List Construct) (w : Walk) :
    Walked resolve policy w (Found cs) (walkAll resolve policy w cs) := by
  match cs with
  | [] => exact (Walked.refl w).congr fun _ _ => by simp [found_nil]
  | c :: rest =>
    refine ((Construct.walk_walked c w).trans (walkAll_walked rest _)).congr ?_
    exact fun _ _ => found_cons.symm

end

theorem mem_importMentions {o : Outline} {m : Mention} :
    m ∈ o.importMentions ↔ ∃ i ∈ o.imports, i.isStatic = false ∧ i.onDemand = false ∧
      m = ⟨⟨i.path,i.line⟩,.importation,"import " ++ i.path,i.line⟩ := by
  simp only [Outline.importMentions,List.mem_map,List.mem_filter,Bool.and_eq_true,
    Bool.not_eq_true']
  constructor
  · rintro ⟨i,⟨member,type,single⟩,rfl⟩
    exact ⟨i,member,type,single,rfl⟩
  · rintro ⟨i,member,type,single,rfl⟩
    exact ⟨i,⟨member,type,single⟩,rfl⟩

theorem imports_walked (o : Outline) (w : Walk) :
    Walked resolve policy w
      (fun bound m => bound = [] ∧ policy.includeImports = true ∧ m ∈ o.importMentions)
      (if policy.includeImports then w.emitAll resolve policy o.importMentions else w) := by
  by_cases included : policy.includeImports = true
  · rw [if_pos included]
    exact (w.emitAll_walked o.importMentions).congr (by simp [included])
  · rw [if_neg included]
    exact (Walked.refl w).congr (by simp [included])

/-- Outside all declarations nothing is bound, so a mention is free when no name that is bound on the
way to it is its own. -/
theorem freeMention_iff {o : Outline} {includeImports : Bool} {m : Mention} :
    o.FreeMention includeImports m ↔
      (includeImports = true ∧ m ∈ o.importMentions) ∨
        ∃ bound, Found o.declarations bound m ∧ m.reference.erased ∉ bound := by
  constructor
  · intro free
    cases free with
    | importation included member type single =>
      exact .inl ⟨included,mem_importMentions.mpr ⟨_,member,type,single,rfl⟩⟩
    | declaration stands mentions unbound free =>
      refine .inr ⟨_,⟨_,_,_,stands,mentions,rfl⟩,?_⟩
      simpa [unbound] using free
  · rintro (⟨included,member⟩ | ⟨_,⟨around,c,own,stands,mentions,rfl⟩,unbound⟩)
    · obtain ⟨i,imported,type,single,rfl⟩ := mem_importMentions.mp member
      exact .importation included imported type single
    · simp only [List.mem_append,List.mem_flatMap,not_or,not_exists,not_and] at unbound
      exact .declaration stands mentions unbound.2 unbound.1

/-- The edges of the report are what the mentions stand for, each under the names that are bound there. -/
theorem mem_edges_iff {o : Outline} {unitName : String} {e : Edge} :
    e ∈ (classify resolve policy o unitName).edges ↔
      ∃ bound m, ((bound = [] ∧ policy.includeImports = true ∧ m ∈ o.importMentions) ∨
        Found o.declarations bound m) ∧ Emits resolve policy unitName bound m e := by
  have imports : Walked resolve policy ⟨UnitReport.empty unitName,[]⟩ _ _ := imports_walked o _
  have walked := imports.trans (walkAll_walked o.declarations _)
  refine (walked.edges e).trans ⟨?_,.inr⟩
  rintro (none | origin)
  · cases none
  · exact origin

theorem edges_strict (o : Outline) (unitName : String) :
    Sorted.Strict (classify resolve policy o unitName).edges := by
  have imports : Walked resolve policy ⟨UnitReport.empty unitName,[]⟩ _ _ := imports_walked o _
  exact (imports.trans (walkAll_walked o.declarations _)).strict .nil

/-- A mention of an array is no dependency under any policy. -/
theorem not_emits_of_isArray {index : SourceIndex} {o : Outline} {unitName : String}
    {scope : List String} {m : Mention} {e : Edge} (array : m.reference.isArray = true) :
    ¬Emits (resolver index o) policy unitName scope m e := by
  rintro ⟨-,-,admitted,-⟩
  have unresolved : resolver index o m.reference = none := by simp [resolver,array]
  have target : Resolver.target (resolver index o) m.reference = m.reference.written := by
    simp [Resolver.target,unresolved]
  rw [target, Policy.admits] at admitted
  rw [TypeRef.isArray] at array
  simp [array] at admitted

end Walk

theorem target_eq_iff {resolve : Resolver} {r : TypeRef} {target : String} :
    resolve.target r = target ↔ resolve r = some target ∨ resolve r = none ∧ target = r.written := by
  unfold Resolver.target
  cases resolve r <;> simp [eq_comm]

/-- The report of a unit holds exactly the edges of its free mentions whose target the policy admits.
The scope is the same before and after any constructs, so it is the same for each of two siblings. -/
theorem classify_exact (resolve : Resolver) (policy : Policy) (o : Outline) (unitName : String) :
    (classify resolve policy o unitName).name = unitName ∧
    Sorted.Strict (classify resolve policy o unitName).edges ∧
    (∀ e : Edge, e ∈ (classify resolve policy o unitName).edges ↔
      ∃ m target, o.FreeMention policy.includeImports m ∧ m.reference.erased ≠ "" ∧
        (resolve m.reference = some target ∨
          resolve m.reference = none ∧ target = m.reference.written) ∧
        policy.admits target unitName = true ∧
        e = ⟨unitName,target,m.kind,snippetOf m.text,m.line⟩) ∧
    (∀ (w : Walk) (siblings : List Construct),
      (walkAll resolve policy w siblings).scope = w.scope) := by
  have imports : Walked resolve policy ⟨UnitReport.empty unitName,[]⟩ _ _ := imports_walked o _
  have walked := imports.trans (walkAll_walked o.declarations _)
  refine ⟨walked.name,walked.strict .nil,?_,fun w siblings => (walkAll_walked siblings w).scope⟩
  intro e
  refine (walked.edges e).trans ?_
  simp only [UnitReport.empty_edges,UnitReport.empty_name,List.not_mem_nil,false_or,List.nil_append]
  constructor
  · rintro ⟨bound,m,⟨rfl,included,member⟩ | found,named,free,admitted,equal⟩
    · exact ⟨m,_,freeMention_iff.mpr (.inl ⟨included,member⟩),named,target_eq_iff.mp rfl,admitted,equal⟩
    · exact ⟨m,_,freeMention_iff.mpr (.inr ⟨bound,found,free⟩),named,target_eq_iff.mp rfl,admitted,equal⟩
  · rintro ⟨m,target,free,named,resolved,admitted,equal⟩
    rw [← target_eq_iff] at resolved
    subst resolved
    rcases freeMention_iff.mp free with ⟨included,member⟩ | ⟨bound,found,unbound⟩
    · exact ⟨[],m,.inl ⟨rfl,included,member⟩,named,List.not_mem_nil,admitted,equal⟩
    · exact ⟨bound,m,.inr found,named,unbound,admitted,equal⟩

end Coupling
