import Coupling.Source.Outline

/-! The trees of the grammar are complete: no type is without a name, no field and no creation without
a type. Which parts a node has is decided by the rules alone, so a check of the rules settles it for
every source; the check is sound for any grammar. -/
namespace Coupling.Source

def Shape.required : Shape → Option Role
  | .type _ => some .name
  | .field => some .type
  | .creation => some .type
  | .method _ => none
  | .block => none
  | .other => none

mutual

/-- Every construct in the tree has the part that it cannot do without. -/
def Tree.Complete : Tree → Prop
  | .leaf _ k _ _ _ => k.shape.required = none
  | .node _ k _ ts => (∀ r, k.shape.required = some r → ∃ t ∈ ts, t.role = r) ∧ CompleteAll ts

def CompleteAll : List Tree → Prop
  | [] => True
  | t :: ts => t.Complete ∧ CompleteAll ts

end

theorem completeAll_iff {ts : List Tree} : CompleteAll ts ↔ ∀ t ∈ ts, t.Complete := by
  induction ts with
  | nil => simp [CompleteAll]
  | cons t ts ih => simp [CompleteAll,ih]

namespace Tree

theorem complete_node_iff {role : Role} {k : Kind} {row : Nat} {ts : List Tree} :
    (node role k row ts).Complete ↔
      (∀ r, k.shape.required = some r → ∃ t ∈ ts, t.role = r) ∧ ∀ t ∈ ts, t.Complete := by
  rw [Complete, completeAll_iff]

theorem Complete.of_mem {t c : Tree} (complete : t.Complete) (member : c ∈ t.children) :
    c.Complete := by
  cases t with
  | leaf => simp [children] at member
  | node role k row ts => exact (complete_node_iff.mp complete).2 c member

theorem Complete.child? {t : Tree} {r : Role} (complete : t.Complete)
    (required : t.kind.shape.required = some r) : ∃ c, t.child? r = some c := by
  cases t with
  | leaf role k layout text row =>
    have none : k.shape.required = none := complete
    simp [kind,none] at required
  | node role k row ts =>
    obtain ⟨c,member,hasRole⟩ := (complete_node_iff.mp complete).1 r required
    rw [← Option.isSome_iff_exists, Tree.child?, List.find?_isSome]
    exact ⟨c,member,by simp [hasRole]⟩

theorem complete_withRole {t : Tree} (r : Role) : (t.withRole r).Complete ↔ t.Complete := by
  cases t <;> simp [withRole,Complete]

@[simp] theorem isComment_withRole (t : Tree) (r : Role) : (t.withRole r).isComment = t.isComment := by
  cases t <;> rfl

@[simp] theorem role_withRole (t : Tree) (r : Role) : (t.withRole r).role = r := by
  cases t <;> rfl

end Tree

theorem complete_comment (c : Comment) : c.tree.Complete := by
  unfold Comment.tree
  split <;> rfl

/-! ## What a rule assures -/

/-- What is known of the trees in a scope: whether one of them is no comment, and which roles are
taken by such a tree. -/
structure Assured where
  filled : Bool
  roles : List Role

namespace Assured

def nothing : Assured := ⟨false,[]⟩

def meet (f g : Assured) : Assured := ⟨f.filled && g.filled,f.roles.filter (· ∈ g.roles)⟩

def join (f g : Assured) : Assured := ⟨f.filled || g.filled,f.roles ++ g.roles⟩

def within (f g : Assured) : Bool := (!f.filled || g.filled) && f.roles.all (· ∈ g.roles)

structure Holds (f : Assured) (built : List Tree) : Prop where
  complete : ∀ t ∈ built, t.Complete
  filled : f.filled = true → ∃ t ∈ built, t.isComment = false
  roles : ∀ r ∈ f.roles, ∃ t ∈ built, t.isComment = false ∧ t.role = r

theorem nothing_holds {built : List Tree} (complete : ∀ t ∈ built, t.Complete) :
    nothing.Holds built :=
  ⟨complete,by simp [nothing],by simp [nothing]⟩

namespace Holds

variable {f g : Assured} {built more : List Tree}

/-- More trees can only add to what is known. -/
theorem grow (holds : f.Holds built) (complete : ∀ t ∈ more, t.Complete) (kept : ∀ t ∈ built, t ∈ more) :
    f.Holds more where
  complete := complete
  filled known := by
    obtain ⟨t,member,plain⟩ := holds.filled known
    exact ⟨t,kept t member,plain⟩
  roles r known := by
    obtain ⟨t,member,plain⟩ := holds.roles r known
    exact ⟨t,kept t member,plain⟩

theorem mono (holds : g.Holds built) (below : f.within g = true) : f.Holds built := by
  simp only [within,Bool.and_eq_true,Bool.or_eq_true,Bool.not_eq_true',List.all_eq_true,
    decide_eq_true_eq] at below
  refine ⟨holds.complete,fun filled => holds.filled ?_,fun r member => holds.roles r ?_⟩
  · rcases below.1 with empty | filled'
    · rw [filled] at empty
      cases empty
    · exact filled'
  · exact below.2 r member

theorem meet_left (holds : f.Holds built) : (f.meet g).Holds built where
  complete := holds.complete
  filled both := holds.filled (by simp_all [meet])
  roles r member := holds.roles r (by simp_all [meet])

theorem meet_right (holds : g.Holds built) : (f.meet g).Holds built where
  complete := holds.complete
  filled both := holds.filled (by simp_all [meet])
  roles r member := holds.roles r (by simp_all [meet])

theorem join (first : f.Holds built) (second : g.Holds more) : (f.join g).Holds (more ++ built) := by
  have complete := List.forall_mem_append.mpr ⟨second.complete,first.complete⟩
  have left := first.grow complete fun t member => List.mem_append_right more member
  have right := second.grow complete fun t member => List.mem_append_left built member
  refine ⟨complete,?_,?_⟩
  · intro either
    simp only [Assured.join,Bool.or_eq_true] at either
    exact either.elim left.filled right.filled
  · intro r either
    exact (List.mem_append.mp either).elim (left.roles r) (right.roles r)

end Holds

end Assured

def Terminal.leafKind : Terminal → Kind
  | .symbol _ => .token
  | .tightSymbol _ => .token
  | .keyword _ => .token
  | .tightKeyword _ => .token
  | .word kind => kind
  | .literal _ kind => kind

def Kind.isPlain (k : Kind) : Bool := k != .lineComment && k != .blockComment

namespace Rule

variable {σ : Type}

def adds : Rule σ → Bool
  | .empty => true
  | .accept _ => true
  | .exclude _ => true
  | .absent _ => true
  | .last _ => true
  | .seq a b => a.adds && b.adds
  | .choice a b => a.adds && b.adds
  | .many a => a.adds
  | .call _ => true
  | .scope _ => true
  | .close _ => false
  | .role _ _ => true

/-- What is known after a rule has matched, given what was known before it; nothing if the rule could
make an incomplete node. -/
def assures : Rule σ → Assured → Option Assured
  | .empty, f => some f
  | .accept t, f =>
    if t.leafKind.isPlain && t.leafKind.shape.required.isNone then some { f with filled := true } else none
  | .exclude _, f => some f
  | .absent _, f => some f
  | .last _, f => some f
  | .seq a b, f => (a.assures f).bind b.assures
  | .choice a b, f =>
    match a.assures f, b.assures f with
    | some g, some h => some (g.meet h)
    | _, _ => none
  | .many a, f =>
    match a.assures f with
    | some g => if f.within g then some f else none
    | none => none
  | .call _, f => some { f with filled := true }
  | .scope a, f => (a.assures .nothing).map f.join
  | .close kind, f =>
    if kind.isPlain && kind.shape.required.all (· ∈ f.roles) then some ⟨f.filled,[]⟩ else none
  | .role r a, f => (a.assures .nothing).map fun g => f.join ⟨g.filled,if g.filled then [r] else []⟩

/-- A grammar whose rules make complete nodes only, each at least one tree, and none of whose rules
touches the scope it is called in. -/
def Assures (grammar : σ → Rule σ) : Prop :=
  ∀ s, (grammar s).adds = true ∧ ((grammar s).assures .nothing).any Assured.filled = true

end Rule

/-! ## Soundness -/

/-- The trees of a scope after `close`: comments in front stay, and the rest becomes one node. -/
theorem closeTrees_cases (kind : Kind) (ts : List Tree) :
    ((∀ t ∈ ts, t.isComment = true) ∧ closeTrees kind ts = ts) ∨
    ∃ front t rest, ts = front ++ t :: rest ∧ t.isComment = false ∧
      (∀ c ∈ front, c.isComment = true) ∧
      closeTrees kind ts = front ++ [.node .none kind t.row (t :: rest)] := by
  induction ts with
  | nil => exact .inl ⟨by simp,rfl⟩
  | cons t ts ih =>
    cases comment : t.isComment with
    | false => exact .inr ⟨[],t,ts,rfl,comment,by simp,by simp [closeTrees,comment]⟩
    | true =>
      rcases ih with ⟨comments,same⟩ | ⟨front,u,rest,split,plain,comments,closed⟩
      · exact .inl ⟨List.forall_mem_cons.mpr ⟨comment,comments⟩,by simp [closeTrees,comment,same]⟩
      · refine .inr ⟨t :: front,u,rest,by simp [split],plain,?_,by simp [closeTrees,comment,closed]⟩
        exact List.forall_mem_cons.mpr ⟨comment,comments⟩

theorem Assured.Holds.close {f : Assured} {built : List Tree} {kind : Kind} (holds : f.Holds built)
    (plain : kind.isPlain = true) (present : ∀ r, kind.shape.required = some r → r ∈ f.roles) :
    Assured.Holds ⟨f.filled,[]⟩ (closeTrees kind built.reverse).reverse := by
  have complete : ∀ t ∈ built.reverse, t.Complete := by simpa using holds.complete
  rcases closeTrees_cases kind built.reverse with ⟨comments,same⟩ | ⟨front,t,rest,split,first,comments,closed⟩
  · rw [same, List.reverse_reverse]
    exact ⟨holds.complete,holds.filled,by simp⟩
  · have inside : ∀ u ∈ built, u.isComment = false → u ∈ t :: rest := by
      intro u member notComment
      have member : u ∈ front ++ t :: rest := by simpa [← split] using member
      rcases List.mem_append.mp member with inFront | inRest
      · rw [comments u inFront] at notComment
        cases notComment
      · exact inRest
    have node : (Tree.node .none kind t.row (t :: rest)).Complete := by
      rw [Tree.complete_node_iff]
      constructor
      · intro r required
        obtain ⟨u,member,notComment,hasRole⟩ := holds.roles r (present r required)
        exact ⟨u,inside u member notComment,hasRole⟩
      · intro u member
        exact complete u (by rw [split]; exact List.mem_append_right _ member)
    rw [closed]
    refine ⟨?_,fun _ => ⟨.node .none kind t.row (t :: rest),by simp,?_⟩,by simp⟩
    · intro u member
      rcases List.mem_append.mp (List.mem_reverse.mp member) with inFront | isNode
      · exact complete u (by rw [split]; exact List.mem_append_left _ inFront)
      · cases List.mem_singleton.mp isNode
        exact node
    · simpa [Tree.isComment,Tree.kind,Kind.isPlain] using plain

theorem Terminal.kind?_eq_leafKind {token : Token} {t : Terminal} {k : Kind}
    (accepted : t.kind? token = some k) : k = t.leafKind := by
  cases t <;> simp_all [Terminal.kind?,Terminal.leafKind]

theorem Assured.Holds.pushLeaves {f : Assured} {built : List Tree} (holds : f.Holds built)
    (token : Token) {k : Kind} (plain : k.isPlain = true) (free : k.shape.required = none) :
    Assured.Holds { f with filled := true } (token.pushLeaves k built) := by
  have complete : ∀ t ∈ token.pushLeaves k built, t.Complete := by
    intro t member
    simp only [Token.pushLeaves,List.foldl_flip_cons_eq_append,List.mem_cons,List.mem_append,
      List.mem_reverse,List.mem_map] at member
    rcases member with rfl | ⟨c,_,rfl⟩ | old
    · exact free
    · exact complete_comment c
    · exact holds.complete t old
  have grown := holds.grow complete fun t member => by
    simp [Token.pushLeaves,member]
  refine ⟨complete,fun _ => ⟨.leaf .none k token.layout token.text token.position.row,?_,?_⟩,grown.roles⟩
  · simp [Token.pushLeaves]
  · simpa [Tree.isComment,Tree.kind,Kind.isPlain] using plain

theorem Assured.Holds.assignRole {g : Assured} {built : List Tree} (holds : g.Holds built) (r : Role) :
    Assured.Holds ⟨g.filled,if g.filled then [r] else []⟩ (built.map (assignRole r)) := by
  have assigned : ∀ t : Tree, t.isComment = false → Source.assignRole r t = t.withRole r := by
    intro t plain
    simp [Source.assignRole,plain]
  have taken : g.filled = true → ∃ t ∈ built.map (Source.assignRole r), t.isComment = false ∧ t.role = r := by
    intro filled
    obtain ⟨t,member,plain⟩ := holds.filled filled
    exact ⟨_,List.mem_map_of_mem member,by simp [assigned t plain,plain]⟩
  refine ⟨?_,?_,?_⟩
  · intro u member
    obtain ⟨t,old,rfl⟩ := List.mem_map.mp member
    unfold Source.assignRole
    split
    · exact holds.complete t old
    · exact (Tree.complete_withRole r).mpr (holds.complete t old)
  · intro filled
    obtain ⟨t,member,plain,-⟩ := taken filled
    exact ⟨t,member,plain⟩
  · intro r' member
    cases filled : g.filled with
    | false => simp [filled] at member
    | true =>
      simp only [filled,if_true,List.mem_singleton] at member
      subst member
      exact taken filled

namespace Rule

variable {σ : Type} {grammar : σ → Rule σ}

/-- What a rule can do where it matches. Why it matches is left out, and with it the budget. -/
inductive Matches (grammar : σ → Rule σ) : Rule σ → Source.Progress → Source.Progress → Prop
  | empty {p} : Matches grammar .empty p p
  | accept {t token kind built rest} (accepted : t.kind? token = some kind) :
      Matches grammar (.accept t) ⟨built,token :: rest⟩ ⟨token.pushLeaves kind built,rest⟩
  | exclude {words p} : Matches grammar (.exclude words) p p
  | absent {a p} : Matches grammar (.absent a) p p
  | last {kinds p} : Matches grammar (.last kinds) p p
  | seq {a b p q r} (first : Matches grammar a p q) (second : Matches grammar b q r) :
      Matches grammar (.seq a b) p r
  | left {a b p q} (taken : Matches grammar a p q) : Matches grammar (.choice a b) p q
  | right {a b p q} (taken : Matches grammar b p q) : Matches grammar (.choice a b) p q
  | stop {a p} : Matches grammar (.many a) p p
  | again {a p q r} (once : Matches grammar a p q) (more : Matches grammar (.many a) q r) :
      Matches grammar (.many a) p r
  | call {s p q} (called : Matches grammar (grammar s) p q) : Matches grammar (.call s) p q
  | scope {a built rest q} (inner : Matches grammar a ⟨[],rest⟩ q) :
      Matches grammar (.scope a) ⟨built,rest⟩ ⟨q.built ++ built,q.rest⟩
  | close {kind built rest} :
      Matches grammar (.close kind) ⟨built,rest⟩ ⟨(closeTrees kind built.reverse).reverse,rest⟩
  | role {r a built rest q} (inner : Matches grammar a ⟨[],rest⟩ q) :
      Matches grammar (.role r a) ⟨built,rest⟩ ⟨q.built.map (assignRole r) ++ built,q.rest⟩

theorem matches_of_run {n : Nat} {rule : Rule σ} {p q : Source.Progress}
    (ran : rule.run grammar n p = some q) : Matches grammar rule p q := by
  induction n generalizing rule p q with
  | zero => cases ran
  | succ n ih =>
    obtain ⟨built,rest⟩ := p
    cases rule with
    | empty =>
      cases ran
      exact .empty
    | accept t =>
      cases rest with
      | nil => cases ran
      | cons token rest =>
        simp only [run] at ran
        split at ran
        · cases ran
        · rename_i accepted
          cases ran
          exact .accept accepted
    | exclude words =>
      simp only [run] at ran
      split at ran
      · cases ran
      · split at ran
        · cases ran
        · cases ran
          exact .exclude
    | absent a =>
      simp only [run] at ran
      split at ran
      · cases ran
        exact .absent
      · cases ran
    | last kinds =>
      simp only [run] at ran
      split at ran
      · cases ran
      · split at ran
        · cases ran
          exact .last
        · cases ran
    | seq a b =>
      simp only [run] at ran
      split at ran
      · cases ran
      · rename_i first
        exact .seq (ih first) (ih ran)
    | choice a b =>
      simp only [run] at ran
      split at ran
      · exact .right (ih ran)
      · rename_i taken
        cases ran
        exact .left (ih taken)
    | many a =>
      simp only [run] at ran
      split at ran
      · cases ran
        exact .stop
      · rename_i once
        exact .again (ih once) (ih ran)
    | call s => exact .call (ih ran)
    | scope a =>
      simp only [run] at ran
      split at ran
      · cases ran
      · rename_i inner
        cases ran
        exact .scope (ih inner)
    | close kind =>
      cases ran
      exact .close
    | role r a =>
      simp only [run] at ran
      split at ran
      · cases ran
      · rename_i inner
        cases ran
        exact .role (ih inner)

namespace Matches

variable {rule : Rule σ} {p q : Source.Progress}

theorem keeps (checked : Assures grammar) (run : Matches grammar rule p q) (adds : rule.adds = true) :
    ∀ t ∈ p.built, t ∈ q.built := by
  induction run with
  | empty => exact fun _ member => member
  | accept => simp +contextual [Token.pushLeaves]
  | exclude => exact fun _ member => member
  | absent => exact fun _ member => member
  | last => exact fun _ member => member
  | seq _ _ first second =>
    simp only [Rule.adds,Bool.and_eq_true] at adds
    exact fun t member => second adds.2 t (first adds.1 t member)
  | left _ taken =>
    simp only [Rule.adds,Bool.and_eq_true] at adds
    exact taken adds.1
  | right _ taken =>
    simp only [Rule.adds,Bool.and_eq_true] at adds
    exact taken adds.2
  | stop => exact fun _ member => member
  | again _ _ once more => exact fun t member => more adds t (once adds t member)
  | call _ called => exact called (checked _).1
  | scope => exact fun _ member => List.mem_append_right _ member
  | close => cases adds
  | role => exact fun _ member => List.mem_append_right _ member

/-- The check is sound: what it foretells holds of the trees that a rule leaves. -/
theorem assured (checked : Assures grammar) (run : Matches grammar rule p q) {f g : Assured}
    (foretold : rule.assures f = some g) (holds : f.Holds p.built) : g.Holds q.built := by
  induction run generalizing f g with
  | empty =>
    cases foretold
    exact holds
  | accept accepted =>
    cases Terminal.kind?_eq_leafKind accepted
    simp only [assures,Bool.and_eq_true,Option.isNone_iff_eq_none] at foretold
    split at foretold
    · rename_i fits
      cases foretold
      exact holds.pushLeaves _ fits.1 fits.2
    · cases foretold
  | exclude =>
    cases foretold
    exact holds
  | absent =>
    cases foretold
    exact holds
  | last =>
    cases foretold
    exact holds
  | seq _ _ first second =>
    obtain ⟨middle,known,then_⟩ := Option.bind_eq_some_iff.mp foretold
    exact second then_ (first known holds)
  | left _ taken =>
    simp only [assures] at foretold
    split at foretold
    · rename_i known _
      cases foretold
      exact (taken known holds).meet_left
    · cases foretold
  | right _ taken =>
    simp only [assures] at foretold
    split at foretold
    · rename_i _ known
      cases foretold
      exact (taken known holds).meet_right
    · cases foretold
  | stop =>
    simp only [assures] at foretold
    split at foretold
    · split at foretold
      · cases foretold
        exact holds
      · cases foretold
    · cases foretold
  | again _ _ once more =>
    have invariant := foretold
    simp only [assures] at invariant
    split at invariant
    · rename_i known
      split at invariant
      · rename_i below
        exact more foretold ((once known holds).mono below)
      · cases invariant
    · cases invariant
  | call run called =>
    cases foretold
    obtain ⟨adds,known⟩ := checked _
    obtain ⟨summary,known,filled⟩ := (Option.any_eq_true _ _).mp known
    have after := called known (Assured.nothing_holds holds.complete)
    have kept := holds.grow after.complete (run.keeps checked adds)
    exact ⟨after.complete,fun _ => after.filled filled,kept.roles⟩
  | scope _ inner =>
    obtain ⟨summary,known,rfl⟩ := Option.map_eq_some_iff.mp foretold
    exact holds.join (inner known (Assured.nothing_holds (by simp)))
  | close =>
    simp only [assures] at foretold
    split at foretold
    · rename_i fits
      cases foretold
      simp only [Bool.and_eq_true] at fits
      refine holds.close fits.1 fun r required => ?_
      simpa [required] using fits.2
    · cases foretold
  | role _ inner =>
    obtain ⟨summary,known,rfl⟩ := Option.map_eq_some_iff.mp foretold
    exact holds.join ((inner known (Assured.nothing_holds (by simp))).assignRole _)

end Matches

end Rule

/-! ## The grammar of sources -/

theorem grammar_assures : Rule.Assures Grammar.rule := by
  intro s
  cases s with
  | operand beforeArrow => cases beforeArrow <;> exact ⟨rfl,rfl⟩
  | expression beforeArrow => cases beforeArrow <;> exact ⟨rfl,rfl⟩
  | _ => exact ⟨rfl,rfl⟩

theorem ofTokens_complete {tokens : List Token} {root : Tree} (read : Tree.ofTokens tokens = .ok root) :
    root.Complete := by
  simp only [Tree.ofTokens] at read
  split at read
  · rename_i built stop ran
    cases read
    have built_complete := ((Rule.matches_of_run ran).assured grammar_assures (f := .nothing)
      (g := .nothing) rfl (Assured.nothing_holds (by simp))).complete
    refine Tree.complete_node_iff.mpr ⟨by simp [Kind.shape,Kind.typeKind?,Shape.required],?_⟩
    intro t member
    rcases List.mem_append.mp member with inside | trailing
    · exact built_complete t (List.mem_reverse.mp inside)
    · obtain ⟨c,-,rfl⟩ := List.mem_map.mp trailing
      exact complete_comment c
  · cases read
  · cases read

/-- The tree of a source is complete. -/
theorem parseTree_complete {source : String} {root : Tree} (parsed : parseTree source = .ok root) :
    root.Complete := by
  unfold parseTree at parsed
  split at parsed
  · cases parsed
  · split at parsed
    · cases parsed
    · rename_i read
      cases parsed
      exact ofTokens_complete read

end Coupling.Source
