import Coupling.Proofs.Source.Nesting

/-! The outline of a source against its tree. Types, methods and creations are found in both: each one
that the walk reaches stands once in the outline, and the two agree on which comes first and on which
stands inside which. -/
namespace Coupling

open Source.Address

/-! ## Places in an outline -/

def Construct.isKept : Construct → Bool
  | .type _ _ => true
  | .field _ _ => false
  | .method _ _ => true
  | .creation _ _ _ => true
  | .block _ => false

namespace Source

theorem Describes.isKept {t : Tree} {c : Construct} (describes : Describes t c) : c.isKept = true := by
  cases describes <;> rfl

/-- A construct at an address, where a list of constructs begins behind the child `k` of `place`. -/
def Placed (place : Address) (k : Nat) (cs : List Construct) (b : Address) (c : Construct) : Prop :=
  ∃ i a, b = place ++ (k + i) :: a ∧ below? Construct.children cs (i :: a) = some c

section Placed

variable {place b b' : Address} {k : Nat} {cs ds : List Construct} {c c' parent : Construct}

theorem below?_iff_placed : below? Construct.children cs b = some c ↔ Placed [] 0 cs b c := by
  constructor
  · intro found
    cases b with
    | nil => cases found
    | cons i a => exact ⟨i,a,by simp,found⟩
  · rintro ⟨i,a,rfl,found⟩
    simpa using found

theorem not_placed_nil : ¬Placed place k [] b c := by
  rintro ⟨i,a,-,found⟩
  simp [below?] at found

theorem placed_append_iff :
    Placed place k (cs ++ ds) b c ↔ Placed place k cs b c ∨ Placed place (k + cs.length) ds b c := by
  constructor
  · rintro ⟨i,a,rfl,found⟩
    by_cases first : i < cs.length
    · refine .inl ⟨i,a,rfl,?_⟩
      simpa [below?,List.getElem?_append,first] using found
    · refine .inr ⟨i - cs.length,a,?_,?_⟩
      · have index : k + cs.length + (i - cs.length) = k + i := by omega
        rw [index]
      · simpa [below?,List.getElem?_append,first] using found
  · rintro (⟨i,a,rfl,found⟩ | ⟨i,a,rfl,found⟩)
    · refine ⟨i,a,rfl,?_⟩
      obtain ⟨t,entry,inside⟩ := Option.bind_eq_some_iff.mp found
      simp only [below?,List.getElem?_append_left (List.getElem?_eq_some_iff.mp entry).1]
      exact found
    · refine ⟨cs.length + i,a,by rw [Nat.add_assoc],?_⟩
      simpa [below?,List.getElem?_append_right] using found

theorem placed_singleton_iff :
    Placed place k [parent] b c ↔
      (b = place ++ [k] ∧ c = parent) ∨ Placed (place ++ [k]) 0 parent.children b c := by
  constructor
  · rintro ⟨i,a,rfl,found⟩
    cases i with
    | zero =>
      cases a with
      | nil => exact .inl ⟨rfl,(Option.some.inj found).symm⟩
      | cons j a => exact .inr ⟨j,a,by simp,found⟩
    | succ i => simp [below?] at found
  · rintro (⟨rfl,rfl⟩ | ⟨j,a,rfl,found⟩)
    · exact ⟨0,[],rfl,rfl⟩
    · exact ⟨0,j :: a,by simp,found⟩

theorem Placed.enclosed (placed : Placed place k cs b c) : Encloses place b := by
  obtain ⟨i,a,rfl,-⟩ := placed
  exact encloses_append place (by simp)

theorem Placed.before (first : Placed place k cs b c)
    (second : Placed place (k + cs.length) ds b' c') : Before b b' := by
  obtain ⟨i,a,rfl,found⟩ := first
  obtain ⟨j,a',rfl,-⟩ := second
  obtain ⟨t,entry,-⟩ := Option.bind_eq_some_iff.mp found
  have bound := (List.getElem?_eq_some_iff.mp entry).1
  exact before_index place (by omega) a a'

end Placed

def KeptAt (place : Address) (k : Nat) (cs : List Construct) (b : Address) (c : Construct) : Prop :=
  Placed place k cs b c ∧ c.isKept = true

section KeptAt

variable {place b : Address} {k : Nat} {cs ds fields : List Construct} {c parent : Construct}

theorem not_keptAt_fields (allFields : ∀ f ∈ fields, ∃ type vs, f = .field type vs) :
    ¬KeptAt place k fields b c := by
  rintro ⟨⟨i,a,-,found⟩,kept⟩
  obtain ⟨f,entry,inside⟩ := Option.bind_eq_some_iff.mp found
  obtain ⟨type,vs,rfl⟩ := allFields f (List.mem_of_getElem? entry)
  cases a with
  | nil =>
    cases inside
    cases kept
  | cons j a => simp [at?,Construct.children] at inside

theorem keptAt_append_iff :
    KeptAt place k (cs ++ ds) b c ↔ KeptAt place k cs b c ∨ KeptAt place (k + cs.length) ds b c := by
  simp only [KeptAt,placed_append_iff,or_and_right]

theorem keptAt_singleton_iff :
    KeptAt place k [parent] b c ↔
      (b = place ++ [k] ∧ c = parent ∧ parent.isKept = true) ∨
        KeptAt (place ++ [k]) 0 parent.children b c := by
  simp only [KeptAt,placed_singleton_iff,or_and_right,and_assoc]
  refine or_congr_left (and_congr_right fun _ => and_congr_right fun same => ?_)
  rw [same]

theorem keptAt_behind_fields (allFields : ∀ f ∈ fields, ∃ type vs, f = .field type vs) :
    KeptAt place k (fields ++ cs) b c ↔ KeptAt place (k + fields.length) cs b c := by
  simp only [keptAt_append_iff,not_keptAt_fields allFields,false_or]

end KeptAt

/-- A node without a construct of its own passes on what is inside it, at another place. -/
theorem build_unkept {t : Tree} (complete : t.Complete) (unkept : ¬t.kind.shape.isKept = true)
    (inner : List Construct) (place : Address) (k : Nat) :
    ∃ place' k', ∀ b c, KeptAt place k (t.build inner) b c ↔ KeptAt place' k' inner b c := by
  rcases t.kind.shape.kept_cases with kept | block | field | other
  · exact absurd kept unkept
  · rw [build_block block]
    cases inner with
    | nil => exact ⟨place,k,fun b c => Iff.rfl⟩
    | cons d ds =>
      refine ⟨place ++ [k],0,fun b c => ?_⟩
      simp [keptAt_singleton_iff,Construct.isKept,Construct.children]
  · obtain ⟨fields,built,allFields⟩ := build_field complete field inner
    rw [built]
    exact ⟨_,_,fun b c => keptAt_behind_fields allFields⟩
  · rw [build_other other]
    exact ⟨place,k,fun b c => Iff.rfl⟩

/-! ## Nodes and constructs, one for one -/

structure Pair where
  node : Located
  construct : Address × Construct

/-- Both stand in the same way to each other: one inside the other, or one before the other. -/
def Pair.Arranged (m n : Pair) : Prop :=
  (Encloses m.node.1 n.node.1 ∧ Encloses m.construct.1 n.construct.1) ∨
    (Before m.node.1 n.node.1 ∧ Before m.construct.1 n.construct.1)

theorem Pair.Arranged.encloses_iff {m n : Pair} (arranged : m.Arranged n) :
    (Encloses m.node.1 n.node.1 ↔ Encloses m.construct.1 n.construct.1) ∧
      (Encloses n.node.1 m.node.1 ↔ Encloses n.construct.1 m.construct.1) := by
  rcases arranged with ⟨nodes,constructs⟩ | ⟨nodes,constructs⟩
  · exact ⟨iff_of_true nodes constructs,iff_of_false nodes.asymm constructs.asymm⟩
  · exact ⟨iff_of_false nodes.not_encloses.1 constructs.not_encloses.1,
      iff_of_false nodes.not_encloses.2 constructs.not_encloses.2⟩

/-- Nodes and constructs, one for one and in the same arrangement. -/
structure Mirror (nodes : Address → Tree → Prop) (constructs : Address → Construct → Prop)
    (pairs : List Pair) : Prop where
  node_iff : ∀ a t, (∃ m ∈ pairs, m.node = (a,t)) ↔ nodes a t
  construct_iff : ∀ b c, (∃ m ∈ pairs, m.construct = (b,c)) ↔ constructs b c
  describes : ∀ m ∈ pairs, Describes m.node.2 m.construct.2
  arranged : pairs.Pairwise Pair.Arranged

namespace Mirror

variable {nodes nodes' : Address → Tree → Prop} {constructs constructs' : Address → Construct → Prop}
  {pairs pairs' : List Pair}

theorem congr (mirror : Mirror nodes constructs pairs) (sameNodes : ∀ a t, nodes' a t ↔ nodes a t)
    (sameConstructs : ∀ b c, constructs' b c ↔ constructs b c) : Mirror nodes' constructs' pairs where
  node_iff a t := (mirror.node_iff a t).trans (sameNodes a t).symm
  construct_iff b c := (mirror.construct_iff b c).trans (sameConstructs b c).symm
  describes := mirror.describes
  arranged := mirror.arranged

theorem nil (noNodes : ∀ a t, ¬nodes a t) (noConstructs : ∀ b c, ¬constructs b c) :
    Mirror nodes constructs [] where
  node_iff a t := by simp [noNodes]
  construct_iff b c := by simp [noConstructs]
  describes := by simp
  arranged := .nil

/-- Two groups, where both nodes and constructs of the second come behind those of the first. -/
theorem append (first : Mirror nodes constructs pairs) (second : Mirror nodes' constructs' pairs')
    (nodesBefore : ∀ a t b u, nodes a t → nodes' b u → Before a b)
    (constructsBefore : ∀ a c b d, constructs a c → constructs' b d → Before a b) :
    Mirror (fun a t => nodes a t ∨ nodes' a t) (fun b c => constructs b c ∨ constructs' b c)
      (pairs ++ pairs') where
  node_iff a t := by
    simp only [← first.node_iff,← second.node_iff,List.mem_append,or_and_right,exists_or]
  construct_iff b c := by
    simp only [← first.construct_iff,← second.construct_iff,List.mem_append,or_and_right,exists_or]
  describes m member := by
    rcases List.mem_append.mp member with left | right
    · exact first.describes m left
    · exact second.describes m right
  arranged := by
    refine List.pairwise_append.mpr ⟨first.arranged,second.arranged,fun m left n right => .inr ⟨?_,?_⟩⟩
    · exact nodesBefore _ m.node.2 _ n.node.2 ((first.node_iff ..).mp ⟨m,left,rfl⟩)
        ((second.node_iff ..).mp ⟨n,right,rfl⟩)
    · exact constructsBefore _ m.construct.2 _ n.construct.2 ((first.construct_iff ..).mp ⟨m,left,rfl⟩)
        ((second.construct_iff ..).mp ⟨n,right,rfl⟩)

/-- A group inside a node and its construct. -/
theorem enclose {a b : Address} {t : Tree} {c : Construct} (inner : Mirror nodes constructs pairs)
    (describes : Describes t c) (nodesInside : ∀ a' u, nodes a' u → Encloses a a')
    (constructsInside : ∀ b' d, constructs b' d → Encloses b b') :
    Mirror (fun a' u => (a' = a ∧ u = t) ∨ nodes a' u) (fun b' d => (b' = b ∧ d = c) ∨ constructs b' d)
      (⟨(a,t),(b,c)⟩ :: pairs) where
  node_iff a' u := by
    simp only [← inner.node_iff,List.mem_cons,or_and_right,exists_or,exists_eq_left,Prod.mk.injEq,
      eq_comm]
  construct_iff b' d := by
    simp only [← inner.construct_iff,List.mem_cons,or_and_right,exists_or,exists_eq_left,
      Prod.mk.injEq,eq_comm]
  describes m member := by
    rcases List.mem_cons.mp member with rfl | inside
    · exact describes
    · exact inner.describes m inside
  arranged := by
    refine List.pairwise_cons.mpr ⟨fun m inside => .inl ⟨?_,?_⟩,inner.arranged⟩
    · exact nodesInside _ m.node.2 ((inner.node_iff ..).mp ⟨m,inside,rfl⟩)
    · exact constructsInside _ m.construct.2 ((inner.construct_iff ..).mp ⟨m,inside,rfl⟩)

theorem ordered (mirror : Mirror nodes constructs pairs) :
    pairs.Pairwise fun m n =>
      Precedes m.node.1 n.node.1 ∧ Precedes m.construct.1 n.construct.1 :=
  mirror.arranged.imp fun arranged =>
    arranged.elim (fun inside => ⟨.inl inside.1,.inl inside.2⟩) fun before =>
      ⟨.inr before.1,.inr before.2⟩

theorem encloses_iff (mirror : Mirror nodes constructs pairs) {m n : Pair} (left : m ∈ pairs)
    (right : n ∈ pairs) :
    Encloses m.node.1 n.node.1 ↔ Encloses m.construct.1 n.construct.1 := by
  obtain ⟨i,inLeft,rfl⟩ := List.getElem_of_mem left
  obtain ⟨j,inRight,rfl⟩ := List.getElem_of_mem right
  have arranged := List.pairwise_iff_getElem.mp mirror.arranged
  rcases Nat.lt_trichotomy i j with before | rfl | after
  · exact (arranged i j inLeft inRight before).encloses_iff.1
  · exact iff_of_false (fun inside => inside.2 rfl) fun inside => inside.2 rfl
  · exact (arranged j i inRight inLeft after).encloses_iff.2

end Mirror

/-! ## Along the walk -/

/-- From located nodes inside `depth` levels, the walk comes to a node with a construct of its own. -/
def KeptWithin (ps : List Located) (depth : Nat) (a : Address) (t : Tree) : Prop :=
  (∃ inner, Within ps depth a inner t) ∧ t.kind.shape.isKept = true

section KeptWithin

variable {ps : List Located} {depth : Nat} {a b : Address} {t u : Tree}

theorem keptWithin_cons_iff {p : Located} :
    KeptWithin (p :: ps) depth b u ↔ KeptWithin [p] depth b u ∨ KeptWithin ps depth b u := by
  simp only [KeptWithin,← or_and_right,← exists_or,← within_cons_iff]

theorem keptWithin_singleton_iff :
    KeptWithin [(a,t)] depth b u ↔
      (b = a ∧ u = t ∧ t.kind.shape.isKept = true) ∨
        KeptWithin (t.enteredAt a) (depth + t.levels) b u := by
  simp only [KeptWithin,within_singleton_iff,exists_or,or_and_right]
  refine or_congr_left ?_
  constructor
  · rintro ⟨⟨_,rfl,rfl,rfl⟩,kept⟩
    exact ⟨rfl,rfl,kept⟩
  · rintro ⟨rfl,rfl,kept⟩
    exact ⟨⟨_,rfl,rfl,rfl⟩,kept⟩

end KeptWithin

/-- What the walk makes of located nodes mirrors what it comes to from them, wherever the constructs are
put. -/
def Mirrored (ps : List Located) (cs : List Construct) : Prop :=
  ∀ depth place k, ∃ pairs, Mirror (KeptWithin ps depth) (KeptAt place k cs) pairs

theorem mirrored_nil : Mirrored [] [] := by
  intro depth place k
  refine ⟨[],.nil ?_ ?_⟩
  · rintro a t ⟨⟨inner,within⟩,-⟩
    exact not_within_nil within
  · rintro b c ⟨placed,-⟩
    exact not_placed_nil placed

theorem mirrored_singleton {a : Address} {t : Tree} {inner : List Construct} (complete : t.Complete)
    (inside : Mirrored (t.enteredAt a) inner) : Mirrored [(a,t)] (t.build inner) := by
  intro depth place k
  by_cases kept : t.kind.shape.isKept = true
  · obtain ⟨c,fields,built,describes,children,allFields⟩ := build_kept complete kept inner
    obtain ⟨pairs,mirror⟩ := inside (depth + t.levels) (place ++ [k]) (0 + fields.length)
    refine ⟨_,(mirror.enclose (a := a) (b := place ++ [k]) describes ?_ ?_).congr (fun b u => ?_)
      fun b d => ?_⟩
    · rintro b u ⟨⟨_,within⟩,-⟩
      exact within.enclosed complete
    · rintro b d ⟨placed,-⟩
      exact placed.enclosed
    · simp only [keptWithin_singleton_iff,kept,and_true]
    · simp only [built,keptAt_singleton_iff,describes.isKept,and_true,children,
        keptAt_behind_fields allFields]
  · obtain ⟨place',k',moved⟩ := build_unkept complete kept inner place k
    obtain ⟨pairs,mirror⟩ := inside (depth + t.levels) place' k'
    refine ⟨pairs,mirror.congr (fun b u => ?_) moved⟩
    simp only [keptWithin_singleton_iff,kept,Bool.false_eq_true,and_false,false_or]

theorem mirrored_cons {p : Located} {ps : List Located} {cs ds : List Construct}
    (orderly : Orderly (p :: ps)) (head : Mirrored [p] cs) (tail : Mirrored ps ds) :
    Mirrored (p :: ps) (cs ++ ds) := by
  intro depth place k
  obtain ⟨pairs,first⟩ := head depth place k
  obtain ⟨pairs',second⟩ := tail depth place (k + cs.length)
  refine ⟨_,(first.append second ?_ ?_).congr (fun b u => keptWithin_cons_iff) fun b d =>
    keptAt_append_iff⟩
  · rintro a t b u ⟨⟨_,inHead⟩,-⟩ ⟨⟨_,inTail⟩,-⟩
    exact orderly.before inHead inTail
  · rintro b c b' d ⟨inHead,-⟩ ⟨inTail,-⟩
    exact inHead.before inTail

theorem mirrored_constructsOf {ps : List Located} (orderly : Orderly ps) :
    Mirrored ps (constructsOf (ps.map Prod.snd)) := by
  induction ps using located_induction with
  | nil => simpa using mirrored_nil
  | cons a t ps inside behind =>
    have below := inside (orderly_enteredAt orderly.head a)
    rw [t.map_snd_enteredAt a] at below
    rw [List.map_cons, constructsOf_cons]
    exact mirrored_cons orderly (mirrored_singleton orderly.head below) (behind orderly.tail)

/-! ## The whole source -/

/-- Within the limit on nesting, the outline of a source holds one construct for each type, method and
creation that the walk over its tree reaches, and no others. -/
theorem outline_mirrors_tree :
    (∀ source root, parseTree source = .ok root → root.Complete ∧ parse source = root.outline?) ∧
    ∀ root : Tree, root.Complete → (∀ a t, ¬root.Exceeds 200 a t) →
      ∃ (o : Outline) (pairs : List Pair), root.outline? = .ok o ∧
        (∀ a t, (∃ m ∈ pairs, m.node = (a,t)) ↔
          (∃ depth, root.Reaches a depth t) ∧ t.kind ∈ keptKinds) ∧
        (∀ b c, (∃ m ∈ pairs, m.construct = (b,c)) ↔
          below? Construct.children o.declarations b = some c ∧ c.isKept = true) ∧
        (∀ m ∈ pairs, Describes m.node.2 m.construct.2) ∧
        pairs.Pairwise (fun m n =>
          Precedes m.node.1 n.node.1 ∧ Precedes m.construct.1 n.construct.1) ∧
        ∀ m ∈ pairs, ∀ n ∈ pairs,
          Encloses m.node.1 n.node.1 ↔ Encloses m.construct.1 n.construct.1 := by
  refine ⟨fun source root parsed => ⟨parseTree_complete parsed,?_⟩,fun root complete free => ?_⟩
  · rw [parse, parsed]
    rfl
  · obtain ⟨pairs,mirror⟩ := mirrored_constructsOf (orderly_tops complete) 0 [] 0
    refine ⟨_,pairs,outline?_eq_ok complete free,fun a t => ?_,fun b c => ?_,mirror.describes,
      mirror.ordered,fun m left n right => mirror.encloses_iff left right⟩
    · simp only [mirror.node_iff,KeptWithin,reaches_iff_within complete,isKept_iff_mem_keptKinds]
    · rw [mirror.construct_iff, KeptAt, below?_iff_placed, root.map_snd_tops]
      simp only [Tree.outlineWithin,walk_none]

def creationTree (name : String) (arguments : List Tree) : Tree :=
  .node .none .objectCreation 2
    [.leaf .type .typeIdentifier " " name 2,.node .none .argumentList 2 arguments]

def creatingMethod : Tree :=
  .node .none .methodDeclaration 1 [.leaf .type .typeIdentifier "" "C" 1,.leaf .name .identifier " " "m" 1,
    .node .parameters .formalParameters 1 [.node .none .formalParameter 1
      [.leaf .type .typeIdentifier "" "D" 1,.leaf .name .identifier " " "d" 1]],
    .node .body .block 1 [creationTree "E" [creationTree "F" []]]]

def creatingClass : Tree :=
  .node .none .classDeclaration 0 [.leaf .name .identifier " " "A" 0,
    .node .none .typeParameters 0 [.node .none .typeParameter 0 [.leaf .none .typeIdentifier "" "T" 0]],
    .node .none .superclass 0 [.leaf .none .typeIdentifier " " "B" 0],
    .node .body .classBody 0 [creatingMethod]]

def nestedCreations : Tree := .node .none .program 0 [creatingClass]

theorem nestedCreations_complete : nestedCreations.Complete := by
  simp [nestedCreations,creatingClass,creatingMethod,creationTree,Tree.Complete,CompleteAll,
    Shape.required,Kind.shape,Kind.typeKind?,Tree.role]

theorem nestedCreations_reaches :
    nestedCreations.Reaches [0] 0 creatingClass ∧ nestedCreations.Reaches [0,3,0] 1 creatingMethod ∧
      nestedCreations.Reaches [0,3,0,3,0,1,0] 3 (creationTree "F" []) := by
  have type : nestedCreations.Reaches [0] 0 _ := .top rfl rfl
  have method : nestedCreations.Reaches [0,3,0] 1 _ := .enter type (.body rfl rfl rfl rfl rfl)
  have outer : nestedCreations.Reaches [0,3,0,3,0] 2 _ := .enter method (.body rfl rfl rfl rfl rfl)
  have arguments : nestedCreations.Reaches [0,3,0,3,0,1] 3 _ :=
    .enter outer (.beside rfl rfl rfl (by decide))
  exact ⟨type,method,.enter arguments (.child (.inr rfl) rfl rfl)⟩

theorem describes_creatingClass {c : Construct} (describes : Describes creatingClass c) :
    ∃ members, c = .type ⟨.ordinary,"A",some 1,["T"],[⟨"B",some 1⟩],[]⟩ members := by
  cases describes with
  | type describes =>
    obtain ⟨kind,name,shape,named,rfl⟩ := describes.eq_typeHead
    cases shape
    cases named
    exact ⟨_,congrArg (Construct.type · _) (by decide +kernel)⟩
  | method describes =>
    obtain ⟨_,shape,-⟩ := describes.eq_methodHead
    cases shape
  | creation kind => cases kind

theorem describes_creatingMethod {c : Construct} (describes : Describes creatingMethod c) :
    ∃ body, c = .method
      ⟨"m",some 2,[],some ⟨"C",some 2⟩,[⟨⟨"D",some 2⟩,"d",some 2,"D d"⟩]⟩ body := by
  cases describes with
  | type describes => cases shape_eq_type_iff.mpr describes.kind
  | method describes =>
    obtain ⟨hasReturnType,shape,rfl⟩ := describes.eq_methodHead
    cases shape
    exact ⟨_,congrArg (Construct.method · _) (by decide +kernel)⟩
  | creation kind => cases kind

theorem describes_innerCreation {c : Construct} (describes : Describes (creationTree "F" []) c) :
    ∃ children, c = .creation ⟨"F",some 3⟩ (some 3) children := by
  cases describes with
  | type describes => cases shape_eq_type_iff.mpr describes.kind
  | method describes =>
    obtain ⟨_,shape,-⟩ := describes.eq_methodHead
    cases shape
  | creation kind first tells =>
    cases hasRole_iff.mp first
    rw [← saysType_iff.mp tells]
    exact ⟨_,congrArg (Construct.creation · _ _) (by decide +kernel)⟩

theorem outline_mirrors_nestedCreations :
    nestedCreations.Complete ∧ (∀ a t, ¬nestedCreations.Exceeds 200 a t) ∧
      ∃ o a b b' members body children, nestedCreations.outline? = .ok o ∧
        below? Construct.children o.declarations a =
          some (.type ⟨.ordinary,"A",some 1,["T"],[⟨"B",some 1⟩],[]⟩ members) ∧
        below? Construct.children o.declarations b =
          some (.method ⟨"m",some 2,[],some ⟨"C",some 2⟩,[⟨⟨"D",some 2⟩,"d",some 2,"D d"⟩]⟩ body) ∧
        below? Construct.children o.declarations b' =
          some (.creation ⟨"F",some 3⟩ (some 3) children) ∧
        Encloses a b ∧ Encloses b b' := by
  have outlined : ∃ o, nestedCreations.outline? = .ok o := ⟨_,by with_unfolding_all rfl⟩
  obtain ⟨_,made⟩ := outlined
  have free := not_exceeds_of_outline? nestedCreations_complete made
  obtain ⟨o,pairs,outline,nodes,constructs,describes,-,inside⟩ :=
    outline_mirrors_tree.2 nestedCreations nestedCreations_complete free
  have found {a : Address} {t : Tree} (reached : ∃ depth, nestedCreations.Reaches a depth t)
      (kept : t.kind ∈ keptKinds) : ∃ m ∈ pairs, m.node = (a,t) ∧
        below? Construct.children o.declarations m.construct.1 = some m.construct.2 ∧
        Describes t m.construct.2 := by
    obtain ⟨m,paired,node⟩ := (nodes a t).mpr ⟨reached,kept⟩
    refine ⟨m,paired,node,((constructs _ _).mp ⟨m,paired,rfl⟩).1,?_⟩
    simpa only [node] using describes m paired
  obtain ⟨type,method,creation⟩ := nestedCreations_reaches
  obtain ⟨m,outer,atType,typePlaced,describesType⟩ := found ⟨_,type⟩ (by decide)
  obtain ⟨n,middle,atMethod,methodPlaced,describesMethod⟩ := found ⟨_,method⟩ (by decide)
  obtain ⟨k,inner,atCreation,creationPlaced,describesCreation⟩ := found ⟨_,creation⟩ (by decide)
  obtain ⟨members,isType⟩ := describes_creatingClass describesType
  obtain ⟨body,isMethod⟩ := describes_creatingMethod describesMethod
  obtain ⟨children,isCreation⟩ := describes_innerCreation describesCreation
  rw [isType] at typePlaced
  rw [isMethod] at methodPlaced
  rw [isCreation] at creationPlaced
  refine ⟨nestedCreations_complete,free,o,m.construct.1,n.construct.1,k.construct.1,members,body,children,
    outline,typePlaced,methodPlaced,creationPlaced,?_,?_⟩
  · refine (inside m outer n middle).mp ?_
    rw [atType, atMethod]
    exact encloses_append [0] (r := [3,0]) (by simp)
  · refine (inside n middle k inner).mp ?_
    rw [atMethod, atCreation]
    exact encloses_append [0,3,0] (r := [3,0,1,0]) (by simp)

end Source

end Coupling
