import Coupling.Proofs.Source.Build
import Coupling.Proofs.Source.Reach

/-! The limit on nesting. One walk counts the levels, leaves out what is too deep and goes on behind it.
It leaves nothing out exactly where no level stands inside too many others, and what it notes is the
first one that does, in the order of the document. -/
namespace Coupling.Source

open Address

/-! ## The first node of a kind -/

/-- The line of the first node with a property, in the order of the document. -/
inductive FirstLine (p : Address → Tree → Prop) : Option Nat → Prop
  | absent (never : ∀ a t, ¬p a t) : FirstLine p none
  | present {a t} (holds : p a t) (first : ∀ b u, p b u → b = a ∨ Precedes a b) :
      FirstLine p (some t.line)

namespace FirstLine

variable {p q : Address → Tree → Prop} {x y : Option Nat}

theorem congr (first : FirstLine p x) (same : ∀ a t, p a t ↔ q a t) : FirstLine q x := by
  have equal : p = q := by
    funext a t
    exact propext (same a t)
  exact equal ▸ first

/-- Of two groups of nodes, one behind the other, the first node is that of the first group that has
one. -/
theorem append (left : FirstLine p x) (right : FirstLine q y)
    (behind : ∀ a t b u, p a t → q b u → Precedes a b) :
    FirstLine (fun a t => p a t ∨ q a t) (x.or y) := by
  cases left with
  | absent never =>
    rw [Option.none_or]
    exact right.congr fun a t => by simp [never]
  | present holds first =>
    rw [Option.some_or]
    refine .present (.inl holds) ?_
    rintro b u (inLeft | inRight)
    · exact first b u inLeft
    · exact .inr (behind _ _ _ _ holds inRight)

end FirstLine

/-! ## Levels that stand too deep -/

/-- From located nodes inside `depth` levels, the walk comes to a level inside `limit` or more. -/
def Exceeds (limit : Nat) (ps : List Located) (depth : Nat) (a : Address) (t : Tree) : Prop :=
  ∃ inner, Within ps depth a inner t ∧ t.kind.shape.isLevel = true ∧ limit ≤ inner

section Exceeds

variable {limit depth : Nat} {ps : List Located} {a b : Address} {t u : Tree}

theorem exceeds_cons_iff {p : Located} :
    Exceeds limit (p :: ps) depth b u ↔ Exceeds limit [p] depth b u ∨ Exceeds limit ps depth b u := by
  simp only [Exceeds]
  rw [← exists_or]
  simp only [← or_and_right,← within_cons_iff]

theorem exceeds_singleton_iff :
    Exceeds limit [(a,t)] depth b u ↔
      (b = a ∧ u = t ∧ t.kind.shape.isLevel = true ∧ limit ≤ depth) ∨
        Exceeds limit (t.enteredAt a) (depth + t.levels) b u := by
  simp only [Exceeds,within_singleton_iff,or_and_right,exists_or]
  refine or_congr_left ?_
  constructor
  · rintro ⟨inner,⟨rfl,rfl,rfl⟩,level,deep⟩
    exact ⟨rfl,rfl,level,deep⟩
  · rintro ⟨rfl,rfl,level,deep⟩
    exact ⟨depth,⟨rfl,rfl,rfl⟩,level,deep⟩

end Exceeds

/-! ## What the walk notes -/

section Nested

variable {α : Type} {limit depth : Nat} (noted : Option Nat) (line : Nat) (part : Levels → α × Levels)

theorem nested_of_lt (fits : depth < limit) :
    Levels.nested ⟨depth,noted⟩ (some limit) line part =
      let inner := part ⟨depth + 1,noted⟩
      (some inner.1,{ inner.2 with depth := depth }) := by
  simp [Levels.nested,Nat.not_le.mpr fits]

theorem nested_of_le (deep : limit ≤ depth) :
    Levels.nested ⟨depth,noted⟩ (some limit) line part = (none,⟨depth,noted.or (some line)⟩) := by
  simp [Levels.nested,deep]

end Nested

/-- The walk over these nodes puts the count of levels back, notes the first level that is too deep
unless something is noted already, and leaves nothing out where none is. -/
def Guarded (limit : Nat) (ps : List Located) : Prop :=
  ∀ depth noted, ∃ found, FirstLine (Exceeds limit ps depth) found ∧
    (walk (some limit) (ps.map Prod.snd) ⟨depth,noted⟩).2 = ⟨depth,noted.or found⟩ ∧
    (found = none →
      (walk (some limit) (ps.map Prod.snd) ⟨depth,noted⟩).1 = constructsOf (ps.map Prod.snd))

theorem guarded_nil (limit : Nat) : Guarded limit [] := by
  intro depth noted
  refine ⟨none,.absent ?_,?_⟩
  · rintro a t ⟨inner,within,-⟩
    exact not_within_nil within
  · simp [walk_nil]

theorem guarded_singleton {limit : Nat} {a : Address} {t : Tree} (complete : t.Complete)
    (inside : Guarded limit (t.enteredAt a)) : Guarded limit [(a,t)] := by
  intro depth noted
  simp only [List.map_cons,List.map_nil]
  by_cases tooDeep : t.kind.shape.isLevel = true ∧ limit ≤ depth
  · refine ⟨some t.line,.present (exceeds_singleton_iff.mpr (.inl ⟨rfl,rfl,tooDeep⟩)) ?_,?_,by simp⟩
    · intro b u exceeds
      rcases exceeds_singleton_iff.mp exceeds with ⟨same,-⟩ | ⟨inner,within,-⟩
      · exact .inl same
      · exact .inr (.inl (within.enclosed complete))
    · simp [walk_level _ _ tooDeep.1,walk_nil,nested_of_le _ _ _ tooDeep.2]
  · obtain ⟨found,first,levels,constructs⟩ := inside (depth + t.levels) noted
    rw [t.map_snd_enteredAt a] at levels constructs
    refine ⟨found,first.congr fun b u => ?_,?_⟩
    · rw [exceeds_singleton_iff]
      constructor
      · exact .inr
      · rintro (⟨-,-,level,deep⟩ | below)
        · exact absurd ⟨level,deep⟩ tooDeep
        · exact below
    · rw [constructsOf_cons, constructsOf_nil, List.append_nil]
      rcases t.kind.shape.level_cases with level | field | other
      · have fits : depth < limit := Nat.lt_of_not_le fun deep => tooDeep ⟨level,deep⟩
        simp only [Tree.levels,level,if_true] at levels constructs
        simp only [walk_level _ _ level,walk_nil,nested_of_lt _ _ _ fits,levels,List.append_nil]
        exact ⟨trivial,fun nothing => congrArg t.build (constructs nothing)⟩
      · simp only [Tree.levels,field,Shape.isLevel,Bool.false_eq_true,if_false,Nat.add_zero]
          at levels constructs
        simp only [walk_field _ _ field,walk_nil,List.append_nil]
        exact ⟨levels,fun nothing => congrArg t.build (constructs nothing)⟩
      · simp only [Tree.levels,other,Shape.isLevel,Bool.false_eq_true,if_false,Nat.add_zero]
          at levels constructs
        simp only [walk_other _ _ other,List.append_nil,build_other other]
        exact ⟨levels,constructs⟩

theorem guarded_cons {limit : Nat} {p : Located} {ps : List Located} (orderly : Orderly (p :: ps))
    (head : Guarded limit [p]) (tail : Guarded limit ps) : Guarded limit (p :: ps) := by
  intro depth noted
  obtain ⟨x,firstX,levelsX,constructsX⟩ := head depth noted
  obtain ⟨y,firstY,levelsY,constructsY⟩ := tail depth (noted.or x)
  refine ⟨x.or y,(firstX.append firstY ?_).congr fun a t => exceeds_cons_iff.symm,?_,?_⟩
  · rintro a t b u ⟨_,inHead,-⟩ ⟨_,inTail,-⟩
    exact .inr (orderly.before inHead inTail)
  · simp only [List.map_cons,List.map_nil] at levelsX levelsY ⊢
    rw [← List.singleton_append, walk_append]
    simp only [levelsX,levelsY,Option.or_assoc]
  · intro nothing
    obtain ⟨rfl,rfl⟩ := Option.or_eq_none_iff.mp nothing
    simp only [List.map_cons,List.map_nil] at levelsX constructsX constructsY ⊢
    rw [← List.singleton_append, walk_append]
    simp only [levelsX,constructsX,constructsY]
    simp [constructsOf_cons]

theorem guarded {limit : Nat} {ps : List Located} (orderly : Orderly ps) : Guarded limit ps := by
  induction ps using located_induction with
  | nil => exact guarded_nil limit
  | cons a t ps inside behind =>
    have single := guarded_singleton orderly.head (inside (orderly_enteredAt orderly.head a))
    exact guarded_cons orderly single (behind orderly.tail)

/-! ## Chains of constructs -/

/-- Where no level is too deep, neither is a construct. -/
theorem stands_lt {limit depth : Nat} {ps : List Located} (orderly : Orderly ps)
    (free : ∀ a t, ¬Exceeds limit ps depth a t) {around : List Construct} {c : Construct}
    (stands : Stands (constructsOf (ps.map Prod.snd)) around c) (level : c.isLevel = true) :
    depth + around.length < limit := by
  induction ps using located_induction generalizing depth around with
  | nil => exact absurd stands (by simpa using not_stands_nil)
  | cons a t ps inside behind =>
    rw [List.map_cons, constructsOf_cons, ← t.map_snd_enteredAt a] at stands
    replace inside := @inside (depth + t.levels) (orderly_enteredAt orderly.head a) fun b u exceeds =>
      free b u (exceeds_cons_iff.mpr (.inl (exceeds_singleton_iff.mpr (.inr exceeds))))
    rcases stands_append_iff.mp stands with made | later
    · rcases t.kind.shape.level_cases with isLevel | field | other
      · have fits : depth < limit := Nat.lt_of_not_le fun deep => free a t
          (exceeds_cons_iff.mpr (.inl (exceeds_singleton_iff.mpr (.inl ⟨rfl,rfl,isLevel,deep⟩))))
        simp only [Tree.levels,isLevel,if_true] at inside
        rcases build_level_cases orderly.head isLevel (constructsOf ((t.enteredAt a).map Prod.snd)) with
          nothing | ⟨parent,fields,built,children,allFields⟩
        · rw [nothing] at made
          exact absurd made not_stands_nil
        · rw [built, stands_singleton_iff, children] at made
          rcases made with ⟨rfl,-⟩ | ⟨rest,rfl,enclosed⟩
          · exact fits
          · rcases stands_append_iff.mp enclosed with inFields | inner
            · rw [not_level_of_fields allFields inFields] at level
              cases level
            · have deeper := inside inner
              rw [List.length_cons]
              omega
      · simp only [Tree.levels,field,Shape.isLevel,Bool.false_eq_true,if_false,Nat.add_zero] at inside
        obtain ⟨fields,built,allFields⟩ := build_field orderly.head field
          (constructsOf ((t.enteredAt a).map Prod.snd))
        rw [built] at made
        rcases stands_append_iff.mp made with inFields | inner
        · rw [not_level_of_fields allFields inFields] at level
          cases level
        · exact inside inner
      · simp only [Tree.levels,other,Shape.isLevel,Bool.false_eq_true,if_false,Nat.add_zero] at inside
        rw [build_other other] at made
        exact inside made
    · exact behind orderly.tail
        (fun b u exceeds => free b u (exceeds_cons_iff.mpr (.inr exceeds))) later

/-! ## The walk over a source -/

/-- The walk over a source meets a level that stands inside `limit` others or more. -/
def Tree.Exceeds (root : Tree) (limit : Nat) (a : Address) (t : Tree) : Prop :=
  ∃ depth, root.Reaches a depth t ∧ t.kind.shape.isLevel = true ∧ limit ≤ depth

structure Tree.FirstExceeds (root : Tree) (limit : Nat) (a : Address) (t : Tree) : Prop where
  exceeds : root.Exceeds limit a t
  first : ∀ b u, root.Exceeds limit b u → b = a ∨ Precedes a b

theorem exceeds_iff {root t : Tree} {limit : Nat} {a : Address} (complete : root.Complete) :
    root.Exceeds limit a t ↔ Exceeds limit root.tops 0 a t := by
  simp only [Tree.Exceeds,Exceeds,reaches_iff_within complete]

theorem Tree.FirstExceeds.unique {root t u : Tree} {limit : Nat} {a b : Address}
    (left : root.FirstExceeds limit a t) (right : root.FirstExceeds limit b u) : t = u := by
  have same : a = b := by
    rcases left.first b u right.exceeds with same | before
    · exact same.symm
    · rcases right.first a t left.exceeds with same | after
      · exact same
      · exact absurd after before.asymm
  subst same
  obtain ⟨_,reachesT,-⟩ := left.exceeds
  obtain ⟨_,reachesU,-⟩ := right.exceeds
  exact Option.some.inj (reachesT.at?.symm.trans reachesU.at?)

/-- What the walk over a whole source notes and makes. -/
theorem outlineWithin_spec {root : Tree} (limit : Nat) (complete : root.Complete) :
    FirstLine (root.Exceeds limit) (root.outlineWithin (some limit)).2 ∧
    ((root.outlineWithin (some limit)).2 = none →
      (root.outlineWithin (some limit)).1 = (root.outlineWithin none).1) := by
  have whole : Guarded limit root.tops := guarded (orderly_tops complete)
  obtain ⟨found,first,levels,constructs⟩ := whole 0 none
  rw [root.map_snd_tops] at levels constructs
  have noted : (root.outlineWithin (some limit)).2 = found := by
    simp only [Tree.outlineWithin,levels,Option.none_or]
  refine ⟨?_,fun nothing => ?_⟩
  · rw [noted]
    exact first.congr fun a t => (exceeds_iff complete).symm
  · have made := constructs (noted.symm.trans nothing)
    simp only [Tree.outlineWithin,made,walk_none]

/-- Either a level is too deep and the failure names the first one, or nothing is left out. -/
theorem outline?_cases {root : Tree} (complete : root.Complete) :
    (∃ a t, root.FirstExceeds maxLevels a t ∧ root.outline? = .error (.tooDeep t.line)) ∨
      ((∀ a t, ¬root.Exceeds maxLevels a t) ∧ root.outline? = .ok (root.outlineWithin none).1) := by
  obtain ⟨noted,kept⟩ := outlineWithin_spec maxLevels complete
  unfold Tree.outline?
  dsimp only
  generalize (root.outlineWithin (some maxLevels)).2 = found at noted kept ⊢
  cases noted with
  | absent never => exact .inr ⟨never,congrArg Except.ok (kept rfl)⟩
  | @present a t holds first => exact .inl ⟨a,t,⟨holds,first⟩,rfl⟩

theorem outline?_eq_error_iff {root : Tree} {failure : ParseFailure} (complete : root.Complete) :
    root.outline? = .error failure ↔
      ∃ a t, root.FirstExceeds maxLevels a t ∧ failure = .tooDeep t.line := by
  rcases outline?_cases complete with ⟨a,t,first,failed⟩ | ⟨free,made⟩
  · rw [failed]
    constructor
    · intro same
      cases same
      exact ⟨a,t,first,rfl⟩
    · rintro ⟨b,u,other,rfl⟩
      rw [first.unique other]
  · rw [made]
    simp only [reduceCtorEq,false_iff]
    rintro ⟨a,t,first,-⟩
    exact free a t first.exceeds

theorem outline?_eq_ok {root : Tree} (complete : root.Complete)
    (free : ∀ a t, ¬root.Exceeds maxLevels a t) :
    root.outline? = .ok (root.outlineWithin none).1 := by
  rcases outline?_cases complete with ⟨a,t,first,-⟩ | ⟨-,made⟩
  · exact absurd first.exceeds (free a t)
  · exact made

theorem not_exceeds_of_outline? {root : Tree} {o : Outline} (complete : root.Complete)
    (made : root.outline? = .ok o) : ∀ a t, ¬root.Exceeds maxLevels a t := by
  rcases outline?_cases complete with ⟨a,t,-,failed⟩ | ⟨free,-⟩
  · rw [failed] at made
    cases made
  · exact free

/-- A chain of levels in the outline is no longer than the limit. -/
theorem outlineWithin_chain {root : Tree} {limit : Nat} (complete : root.Complete)
    (free : ∀ a t, ¬root.Exceeds limit a t) {around : List Construct} {c : Construct}
    (stands : Stands (root.outlineWithin none).1.declarations around c) (level : c.isLevel = true) :
    (around ++ [c]).length ≤ limit := by
  have noLevel : ∀ a t, ¬Exceeds limit root.tops 0 a t := fun a t exceeds =>
    free a t ((exceeds_iff complete).mpr exceeds)
  simp only [Tree.outlineWithin,walk_none,← root.map_snd_tops] at stands
  have shallow := stands_lt (orderly_tops complete) noLevel stands level
  rw [List.length_append, List.length_singleton]
  omega

/-! ## Sources at the limit -/

def nestedBlocks : Nat → Nat → Tree
  | 0, row => .leaf .none .blockComment "" "/**/" row
  | n + 1, row => .node .none .block row [nestedBlocks n (row + 1)]

theorem nestedBlocks_complete (n row : Nat) : (nestedBlocks n row).Complete := by
  induction n generalizing row with
  | zero => rfl
  | succ n ih =>
    refine ⟨fun r required => ?_,ih (row + 1),trivial⟩
    cases required

theorem nestedBlocks_entered (n row : Nat) :
    (nestedBlocks (n + 1) row).entered = [nestedBlocks n (row + 1)] := by
  cases n <;> rfl

theorem nestedBlocks_build (n row : Nat) : (nestedBlocks (n + 1) row).build [] = [] := rfl

/-- The first block that is too deep is the one right below the limit. -/
theorem walk_nestedBlocks {limit depth : Nat} (n row : Nat) (fits : depth ≤ limit) :
    walk (some limit) [nestedBlocks n row] ⟨depth,none⟩ =
      ([],⟨depth,if depth + n ≤ limit then none else some (row + (limit - depth) + 1)⟩) := by
  induction n generalizing row depth with
  | zero =>
    have entered : (nestedBlocks 0 row).entered = [] := rfl
    rw [walk_other _ _ rfl, entered, List.nil_append, walk_nil, if_pos (by omega)]
  | succ n ih =>
    rw [walk_level _ _ rfl, nestedBlocks_entered]
    by_cases room : depth < limit
    · have sum : depth + 1 + n = depth + (n + 1) := by omega
      have line : row + 1 + (limit - (depth + 1)) = row + (limit - depth) := by omega
      simp [nested_of_lt _ _ _ room,ih (row + 1) room,walk_nil,nestedBlocks_build,sum,line]
    · have line : (nestedBlocks (n + 1) row).line = row + (limit - depth) + 1 := by
        have full : limit - depth = 0 := by omega
        rw [full]
        rfl
      rw [nested_of_le _ _ _ (by omega), if_neg (by omega)]
      simp [walk_nil,line]

def blocks (n : Nat) : Tree := .node .none .program 0 [nestedBlocks n 0]

theorem blocks_complete (n : Nat) : (blocks n).Complete := by
  refine ⟨fun r required => ?_,nestedBlocks_complete n 0,trivial⟩
  cases required

theorem blocks_outline? (n : Nat) : (blocks n).outline? =
    if n ≤ maxLevels then .ok ⟨none,[],[]⟩ else .error (.tooDeep (maxLevels + 1)) := by
  have walked : (blocks n).children.filter isWalked = [nestedBlocks n 0] := by
    cases n <;> rfl
  have noPackage : ((blocks n).children.reverse.find? (·.kind == .packageDeclaration)) = none := by
    cases n <;> rfl
  have noImports : ((blocks n).children.filter (·.kind == .importDeclaration)) = [] := by
    cases n <;> rfl
  simp only [Tree.outline?,Tree.outlineWithin,walked,noPackage,noImports,
    walk_nestedBlocks n 0 (Nat.zero_le maxLevels)]
  by_cases fits : n ≤ maxLevels <;> simp [fits]

/-! ## The limit is exact -/

/-- A source has no outline exactly where the walk over its tree meets a level inside 200 others or more,
and the failure names the line of the first one. Every other source has the outline that a walk without
a limit makes, in which no more than 200 levels enclose each other. -/
theorem nesting_limit_exact :
    (∀ source root, parseTree source = .ok root → root.Complete ∧ parse source = root.outline?) ∧
    (∀ root : Tree, root.Complete →
      (∀ failure, root.outline? = .error failure ↔
        ∃ a t, root.FirstExceeds 200 a t ∧ failure = .tooDeep t.line) ∧
      ((∀ a t, ¬root.Exceeds 200 a t) →
        root.outline? = .ok (root.outlineWithin none).1 ∧
        ∀ around c, Stands (root.outlineWithin none).1.declarations around c → c.isLevel = true →
          (around ++ [c]).length ≤ 200)) ∧
    ∀ line, (ParseFailure.tooDeep line).message =
      "nesting deeper than 200 levels at line " ++ Nat.repr line := by
  refine ⟨fun source root parsed => ⟨parseTree_complete parsed,?_⟩,fun root complete => ⟨?_,?_⟩,
    fun line => rfl⟩
  · rw [parse, parsed]
    rfl
  · exact fun failure => outline?_eq_error_iff complete
  · intro free
    exact ⟨outline?_eq_ok complete free,fun around c => outlineWithin_chain complete free⟩

theorem nesting_limit_exact_blocks :
    (∃ root, parseTree "class A {}" = .ok root ∧ root.Complete ∧ parse "class A {}" = root.outline?) ∧
    ((blocks 201).Complete ∧ ∃ a t, (blocks 201).FirstExceeds 200 a t ∧ t.line = 201) ∧
    ((blocks 200).Complete ∧ (∀ a t, ¬(blocks 200).Exceeds 200 a t) ∧
      ∀ around c, Stands ((blocks 200).outlineWithin none).1.declarations around c → c.isLevel = true →
        (around ++ [c]).length ≤ 200) := by
  obtain ⟨parsed,limit,-⟩ := nesting_limit_exact
  refine ⟨⟨_,rfl,parsed "class A {}" _ rfl⟩,⟨blocks_complete 201,?_⟩,blocks_complete 200,?_⟩
  · obtain ⟨a,t,first,same⟩ := ((limit _ (blocks_complete 201)).1 _).mp (blocks_outline? 201)
    exact ⟨a,t,first,(ParseFailure.tooDeep.inj same).symm⟩
  · have free := not_exceeds_of_outline? (blocks_complete 200) (blocks_outline? 200)
    exact ⟨free,((limit _ (blocks_complete 200)).2 free).2⟩

end Coupling.Source
