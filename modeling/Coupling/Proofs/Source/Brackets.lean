import Coupling.Proofs.Source.Completeness
import Coupling.Proofs.Source.Written
import Coupling.Proofs.Text

/-! Where brackets stand. Dimensions end with an opening and a closing bracket, and an array type ends with
dimensions; the rules alone decide this, as they decide which parts a node has. So an array type is written
with brackets at its end, whatever layout, comments and annotations stand between them. -/
namespace Coupling.Source

/-! ## Trees -/

inductive Tree.Contains : Tree → Tree → Prop
  | here (t : Tree) : Contains t t
  | inside {t c u : Tree} (child : c ∈ t.children) (rest : c.Contains u) : Contains t u

def Tree.IsOpening (t : Tree) : Prop := ∃ role layout row, t = .leaf role .token layout "[" row

def Tree.IsClosing (t : Tree) : Prop :=
  ∃ role layout row, t = .leaf role .token layout "]" row ∧ Text.isBlankText layout

/-- Trees with a pair of brackets at their end, between which comments may stand. -/
def EndsInBrackets (ts : List Tree) : Prop :=
  ∃ (front : List Tree) (opening : Tree) (comments : List Comment) (closing : Tree),
    ts = front ++ opening :: (comments.map Comment.tree ++ [closing]) ∧ opening.IsOpening ∧ closing.IsClosing

structure Tree.Bracketed (t : Tree) : Prop where
  dimensions : t.kind = .dimensions → EndsInBrackets t.children
  arrayType : t.kind = .arrayType → ∃ d, t.children.getLast? = some d ∧ d.kind = .dimensions
  roles : ∀ c ∈ t.children, c.role = .dimensions → c.kind = .dimensions

/-- A tree in which the brackets are where the kinds tell, and which has the role of dimensions only if it
is of that kind. -/
structure Tree.Regular (t : Tree) : Prop where
  role : t.role = .dimensions → t.kind = .dimensions
  within : ∀ u, t.Contains u → u.Bracketed

namespace Tree

@[simp] theorem kind_withRole (t : Tree) (r : Role) : (t.withRole r).kind = t.kind := by
  cases t <;> rfl

@[simp] theorem children_withRole (t : Tree) (r : Role) : (t.withRole r).children = t.children := by
  cases t <;> rfl

theorem IsOpening.not_comment {t : Tree} (opening : t.IsOpening) : t.isComment = false := by
  obtain ⟨role,layout,row,rfl⟩ := opening
  rfl

theorem Contains.trans {t u v : Tree} (first : t.Contains u) (second : u.Contains v) : t.Contains v := by
  induction first with
  | here => exact second
  | inside child _ ih => exact .inside child (ih second)

theorem Contains.child {t u c : Tree} (contains : t.Contains u) (child : c ∈ u.children) : t.Contains c :=
  contains.trans (.inside child (.here c))

/-- What holds of a tree as a node and of all below its children holds of all in it. -/
theorem forall_contains {t : Tree} {P : Tree → Prop} (own : P t)
    (below : ∀ c ∈ t.children, ∀ u, c.Contains u → P u) : ∀ u, t.Contains u → P u := by
  intro u contains
  cases contains with
  | here => exact own
  | inside child rest => exact below _ child u rest

namespace Regular

theorem leaf {k : Kind} (plain : k ≠ .dimensions) (single : k ≠ .arrayType) (layout text : String) (row : Nat) :
    (Tree.leaf .none k layout text row).Regular where
  role impossible := by cases impossible
  within := by
    apply forall_contains
    · exact ⟨fun same => absurd same plain,fun same => absurd same single,by simp [children]⟩
    · simp [children]

theorem node {k : Kind} {ts : List Tree} (row : Nat) (regular : ∀ c ∈ ts, c.Regular)
    (dimensions : k = .dimensions → EndsInBrackets ts)
    (arrayType : k = .arrayType → ∃ d, ts.getLast? = some d ∧ d.kind = .dimensions) :
    (Tree.node .none k row ts).Regular where
  role impossible := by cases impossible
  within := by
    apply forall_contains
    · exact ⟨dimensions,arrayType,fun c member => (regular c member).role⟩
    · exact fun c member => (regular c member).within

theorem withRole {t : Tree} {r : Role} (regular : t.Regular) (fits : r = .dimensions → t.kind = .dimensions) :
    (t.withRole r).Regular where
  role := by simpa using fits
  within := by
    have own := regular.within t (.here t)
    apply forall_contains
    · exact ⟨by simpa using own.dimensions,by simpa using own.arrayType,by simpa using own.roles⟩
    · rw [children_withRole]
      exact fun c child u rest => regular.within u (.inside child rest)

end Regular

end Tree

theorem isComment_tree (c : Comment) : c.tree.isComment = true := by
  unfold Comment.tree
  split <;> rfl

theorem comment_regular (c : Comment) : c.tree.Regular := by
  unfold Comment.tree
  split
  · exact .leaf (by decide) (by decide) ..
  · exact .leaf (by decide) (by decide) ..

/-! ## The end of a scope -/

inductive Ending
  | unknown
  | opened
  | closed
  | dimensions
  deriving DecidableEq

def Ending.Holds : Ending → List Tree → Prop
  | .unknown, _ => True
  | .opened, built => ∃ t, built.head? = some t ∧ t.IsOpening
  | .closed, built => EndsInBrackets built.reverse
  | .dimensions, built => ∃ t, built.head? = some t ∧ t.kind = .dimensions

def Terminal.ending (f : Ending) : Terminal → Ending
  | .symbol text => if text = "[" then .opened else if text = "]" ∧ f = .opened then .closed else .unknown
  | _ => .unknown

namespace Rule

variable {σ : Type}

def makes (kind : Kind) : Rule σ → Bool
  | .scope (.seq _ (.close k)) => k = kind
  | _ => false

/-- What is known of the end of a scope after a rule has matched, given what was known before it; nothing
if the rule could make a node without the brackets of its kind. -/
def ending : Rule σ → Ending → Option Ending
  | .empty, f => some f
  | .accept t, f => if t.leafKind = .dimensions ∨ t.leafKind = .arrayType then none else some (t.ending f)
  | .exclude _, f => some f
  | .absent _, f => some f
  | .last _, f => some f
  | .seq a b, f => (a.ending f).bind b.ending
  | .choice a b, f =>
    match a.ending f, b.ending f with
    | some g, some h => some (if g = h then g else .unknown)
    | _, _ => none
  | .many a, f => if a.ending f = some f then some f else (a.ending .unknown).map fun _ => .unknown
  | .call _, _ => some .unknown
  | .scope a, _ => a.ending .unknown
  | .close kind, f =>
    match kind with
    | .dimensions => if f = .closed then some .dimensions else none
    | .arrayType => if f = .dimensions then some .unknown else none
    | _ => some .unknown
  | .role r a, _ =>
    if r = .dimensions ∧ a.makes .dimensions = false then none
    else (a.ending .unknown).map fun _ => .unknown

end Rule

/-! ## Soundness -/

theorem EndsInBrackets.append {ts : List Tree} (ends : EndsInBrackets ts) (more : List Tree) :
    EndsInBrackets (more ++ ts) := by
  obtain ⟨front,opening,comments,closing,rfl,brackets⟩ := ends
  exact ⟨more ++ front,opening,comments,closing,by simp,brackets⟩

/-- Comments in front are not needed for the brackets at the end. -/
theorem EndsInBrackets.drop {front ts : List Tree} (ends : EndsInBrackets (front ++ ts))
    (comments : ∀ c ∈ front, c.isComment = true) : EndsInBrackets ts := by
  induction front with
  | nil => exact ends
  | cons c front ih =>
    obtain ⟨first,later⟩ := List.forall_mem_cons.mp comments
    refine ih ?_ later
    obtain ⟨before,opening,between,closing,split,brackets⟩ := ends
    cases before with
    | nil =>
      cases (List.cons.inj split).1
      rw [brackets.1.not_comment] at first
      cases first
    | cons _ before => exact ⟨before,opening,between,closing,(List.cons.inj split).2,brackets⟩

theorem Ending.Holds.append {f : Ending} {built : List Tree} (holds : f.Holds built) (more : List Tree) :
    f.Holds (built ++ more) := by
  have head {t : Tree} (first : built.head? = some t) : (built ++ more).head? = some t := by
    rw [List.head?_append, first]
    rfl
  cases f with
  | unknown => trivial
  | opened =>
    obtain ⟨t,first,opening⟩ := holds
    exact ⟨t,head first,opening⟩
  | closed =>
    rw [Ending.Holds, List.reverse_append]
    exact EndsInBrackets.append holds _
  | dimensions =>
    obtain ⟨t,first,kind⟩ := holds
    exact ⟨t,head first,kind⟩

theorem pushLeaves_eq (token : Token) (k : Kind) (built : List Tree) :
    token.pushLeaves k built = .leaf .none k token.layout token.text token.position.row ::
      ((token.comments.map Comment.tree).reverse ++ built) := by
  simp [Token.pushLeaves]

theorem Ending.Holds.push {f : Ending} {built : List Tree} (holds : f.Holds built) {t : Terminal}
    {token : Token} {k : Kind} (accepted : t.kind? token = some k) (blank : Text.isBlankText token.layout) :
    (t.ending f).Holds (token.pushLeaves k built) := by
  rw [pushLeaves_eq]
  cases t with
  | symbol text =>
    obtain ⟨⟨-,same⟩,rfl⟩ : (token.cls = .symbol ∧ token.text = text) ∧ Kind.token = k := by
      simpa [Terminal.kind?] using accepted
    simp only [Terminal.ending,same]
    split
    · rename_i opening
      exact ⟨_,rfl,_,_,_,by rw [opening]⟩
    · split
      · rename_i closing
        obtain ⟨rfl,rfl⟩ := closing
        obtain ⟨t,first,opening⟩ := holds
        obtain ⟨rest,rfl⟩ := List.head?_eq_some_iff.mp first
        exact ⟨rest.reverse,t,token.comments,.leaf .none .token token.layout "]" token.position.row,by simp,
          opening,_,_,_,rfl,blank⟩
      · trivial
  | _ => trivial

theorem ending_close {σ : Type} {f g : Ending} {kind : Kind}
    (foretold : (Rule.close kind : Rule σ).ending f = some g) :
    (kind = .dimensions ∧ f = .closed ∧ g = .dimensions) ∨
      (kind ≠ .dimensions ∧ (kind = .arrayType → f = .dimensions) ∧ g = .unknown) := by
  simp only [Rule.ending] at foretold
  split at foretold
  · split at foretold
    · rename_i closed
      cases foretold
      exact .inl ⟨rfl,closed,rfl⟩
    · cases foretold
  · split at foretold
    · rename_i dimensions
      cases foretold
      exact .inr ⟨by simp,fun _ => dimensions,rfl⟩
    · cases foretold
  · rename_i plain single
    cases foretold
    exact .inr ⟨plain,fun same => absurd same single,rfl⟩

/-- A node is closed with the brackets of its kind, and what is around it stays as it is. -/
theorem Ending.Holds.close {f g : Ending} {built : List Tree} (holds : f.Holds built)
    (regular : ∀ t ∈ built, t.Regular) {σ : Type} {kind : Kind}
    (foretold : (Rule.close kind : Rule σ).ending f = some g) :
    g.Holds (closeTrees kind built.reverse).reverse ∧
      ∀ t ∈ (closeTrees kind built.reverse).reverse, t.Regular := by
  have cases := ending_close foretold
  rcases closeTrees_cases kind built.reverse with ⟨comments,same⟩ | ⟨front,t,rest,split,-,comments,closed⟩
  · rw [same, List.reverse_reverse]
    refine ⟨?_,regular⟩
    rcases cases with ⟨-,rfl,-⟩ | ⟨-,-,rfl⟩
    · obtain ⟨before,opening,between,closing,whole,brackets⟩ := holds
      have comment := comments opening (by simp [whole])
      rw [brackets.1.not_comment] at comment
      cases comment
    · trivial
  · have inside : ∀ u ∈ front ++ t :: rest, u.Regular := by
      rw [← split]
      simpa using regular
    have node : (Tree.node .none kind t.row (t :: rest)).Regular := by
      apply Tree.Regular.node
      · exact fun c member => inside c (List.mem_append_right _ member)
      · intro dimensions
        rcases cases with ⟨-,rfl,-⟩ | ⟨other,-⟩
        · rw [Ending.Holds, split] at holds
          exact EndsInBrackets.drop holds comments
        · exact absurd dimensions other
      · intro arrayType
        rcases cases with ⟨rfl,-⟩ | ⟨-,known,-⟩
        · cases arrayType
        · cases known arrayType
          obtain ⟨d,last,kind⟩ := holds
          rw [← List.getLast?_reverse, split, List.getLast?_append] at last
          exact ⟨d,by simpa using last,kind⟩
    rw [closed, List.reverse_append]
    refine ⟨?_,?_⟩
    · rcases cases with ⟨rfl,-,rfl⟩ | ⟨-,-,rfl⟩
      · exact ⟨_,rfl,rfl⟩
      · trivial
    · intro u member
      rcases List.mem_append.mp member with isNode | before
      · cases List.mem_singleton.mp (List.mem_reverse.mp isNode)
        exact node
      · exact inside u (List.mem_append_left _ (List.mem_reverse.mp before))

namespace Rule

variable {σ : Type} {grammar : σ → Rule σ}

/-- A rule that makes a node of a kind leaves nothing else in a new scope, comments apart. -/
theorem kind_of_makes {kind : Kind} {a : Rule σ} (makes : a.makes kind = true) {rest : List Token}
    {q : Source.Progress} (run : Matches grammar a ⟨[],rest⟩ q) {t : Tree} (member : t ∈ q.built)
    (plain : t.isComment = false) : t.kind = kind := by
  unfold Rule.makes at makes
  split at makes
  · rw [decide_eq_true_eq] at makes
    rw [makes] at run
    obtain ⟨built,whole⟩ : ∃ built : List Tree, q.built = (closeTrees kind built.reverse).reverse := by
      cases run with
      | scope inner =>
        cases inner with
        | seq _ last =>
          cases last
          exact ⟨_,List.append_nil _⟩
    rw [whole, List.mem_reverse] at member
    rcases closeTrees_cases kind built.reverse with ⟨comments,same⟩ | ⟨front,u,inner,-,-,comments,closed⟩
    · rw [same] at member
      rw [comments t member] at plain
      cases plain
    · rw [closed] at member
      rcases List.mem_append.mp member with before | isNode
      · rw [comments t before] at plain
        cases plain
      · cases List.mem_singleton.mp isNode
        rfl
  · cases makes

/-- What is known of the end of a scope, of the trees in it and of the tokens that follow. -/
structure Known (f : Ending) (p : Source.Progress) : Prop where
  ending : f.Holds p.built
  regular : ∀ t ∈ p.built, t.Regular
  blank : ∀ token ∈ p.rest, Text.isBlankText token.layout

theorem Known.forget {f : Ending} {p : Source.Progress} (known : Known f p) : Known .unknown p :=
  ⟨trivial,known.regular,known.blank⟩

theorem ending_many {a : Rule σ} {f g : Ending} (foretold : (many a).ending f = some g) :
    (a.ending f = some f ∧ g = f) ∨ ((a.ending .unknown).isSome ∧ g = .unknown) := by
  simp only [ending] at foretold
  split at foretold
  · rename_i steady
    cases foretold
    exact .inl ⟨steady,rfl⟩
  · obtain ⟨h,after,rfl⟩ := Option.map_eq_some_iff.mp foretold
    exact .inr ⟨by simp [after],rfl⟩

theorem ending_many_unknown {a : Rule σ} {h : Ending} (foretold : a.ending .unknown = some h) :
    (many a).ending .unknown = some .unknown := by
  simp only [ending,foretold,Option.map_some,ite_self]

/-- The check is sound: what it foretells holds of the scope that a rule leaves. -/
theorem Matches.known (checked : ∀ s, ((grammar s).ending .unknown).isSome) {rule : Rule σ}
    {p q : Source.Progress} (run : Matches grammar rule p q) {f g : Ending}
    (foretold : rule.ending f = some g) (known : Known f p) : Known g q := by
  induction run generalizing f g with
  | empty =>
    cases foretold
    exact known
  | @accept t token kind built rest accepted =>
    cases Terminal.kind?_eq_leafKind accepted
    obtain ⟨first,later⟩ := List.forall_mem_cons.mp known.blank
    simp only [ending] at foretold
    split at foretold
    · cases foretold
    · rename_i plain
      cases foretold
      refine ⟨known.ending.push accepted first,?_,later⟩
      intro t member
      simp only [pushLeaves_eq,List.mem_cons,List.mem_append,List.mem_reverse,List.mem_map] at member
      rcases member with rfl | ⟨c,-,rfl⟩ | old
      · exact .leaf (fun same => plain (.inl same)) (fun same => plain (.inr same)) ..
      · exact comment_regular c
      · exact known.regular t old
  | exclude =>
    cases foretold
    exact known
  | absent =>
    cases foretold
    exact known
  | last =>
    cases foretold
    exact known
  | seq _ _ first second =>
    obtain ⟨middle,before,after⟩ := Option.bind_eq_some_iff.mp foretold
    exact second after (first before known)
  | left _ taken =>
    simp only [ending] at foretold
    split at foretold
    · rename_i first _
      cases foretold
      split
      · exact taken first known
      · exact (taken first known).forget
    · cases foretold
  | right _ taken =>
    simp only [ending] at foretold
    split at foretold
    · rename_i _ second
      cases foretold
      split
      · rename_i same
        rw [same]
        exact taken second known
      · exact (taken second known).forget
    · cases foretold
  | stop =>
    rcases ending_many foretold with ⟨-,rfl⟩ | ⟨-,rfl⟩
    · exact known
    · exact known.forget
  | again _ _ once more =>
    rcases ending_many foretold with ⟨steady,rfl⟩ | ⟨some,rfl⟩
    · exact more foretold (once steady known)
    · obtain ⟨h,after⟩ := Option.isSome_iff_exists.mp some
      exact more (ending_many_unknown after) (once after known.forget).forget
  | call _ called =>
    cases foretold
    obtain ⟨summary,foretold⟩ := Option.isSome_iff_exists.mp (checked _)
    exact (called foretold known.forget).forget
  | scope _ inner =>
    have after := inner foretold ⟨trivial,by simp,known.blank⟩
    exact ⟨after.ending.append _,List.forall_mem_append.mpr ⟨after.regular,known.regular⟩,after.blank⟩
  | close =>
    obtain ⟨ending,regular⟩ := known.ending.close known.regular foretold
    exact ⟨ending,regular,known.blank⟩
  | @role r a built rest q run inner =>
    simp only [ending] at foretold
    split at foretold
    · cases foretold
    · rename_i fits
      obtain ⟨h,inside,rfl⟩ := Option.map_eq_some_iff.mp foretold
      have after := inner inside ⟨trivial,by simp,known.blank⟩
      refine ⟨trivial,List.forall_mem_append.mpr ⟨?_,known.regular⟩,after.blank⟩
      intro u member
      obtain ⟨t,old,rfl⟩ := List.mem_map.mp member
      unfold assignRole
      split
      · exact after.regular t old
      · rename_i plain
        apply (after.regular t old).withRole
        intro same
        have makes : a.makes .dimensions = true := by
          simpa [same] using fits
        exact kind_of_makes makes run old (by simpa using plain)

end Rule

/-! ## Sources -/

theorem isBlank_of_isLayout {c : Char} (layout : isLayout c = true) : Text.isBlank c = true := by
  simp only [isLayout,Bool.or_eq_true,beq_iff_eq] at layout
  rcases layout with ((((rfl | rfl) | rfl) | rfl) | rfl) | rfl <;> decide

structure Lexing.Spaced (l : Lexing) : Prop where
  tokens : ∀ token ∈ l.tokens, Text.isBlankText token.layout
  layout : ∀ c ∈ l.layout, Text.isBlank c

namespace Lexing.Spaced

variable {l : Lexing}

theorem emit (spaced : l.Spaced) (cls : TokenClass) (text : List Char) (next : Place) :
    (l.emit cls text next).Spaced where
  tokens := by
    refine List.forall_mem_cons.mpr ⟨?_,spaced.tokens⟩
    simpa [Text.isBlankText] using spaced.layout
  layout := by simp [Lexing.emit]

theorem comment (spaced : l.Spaced) (text : List Char) (isLine : Bool) : (l.comment text isLine).Spaced where
  tokens := spaced.tokens
  layout := by simp [Lexing.comment]

theorem blank (spaced : l.Spaced) {c : Char} (layout : isLayout c = true) : (l.blank c).Spaced where
  tokens := spaced.tokens
  layout := List.forall_mem_cons.mpr ⟨isBlank_of_isLayout layout,spaced.layout⟩

end Lexing.Spaced

theorem lexFrom_blank {n : Nat} {l : Lexing} {cs : List Char} {tokens : List Token} (spaced : l.Spaced)
    (read : lexFrom n l cs = some tokens) : ∀ token ∈ tokens, Text.isBlankText token.layout := by
  induction n generalizing l cs with
  | zero => cases read
  | succ n ih =>
    simp only [lexFrom] at read
    split at read
    · split at read
      · cases read
      · exact ih (spaced.emit ..) read
    · split at read
      · cases read
        simpa using (spaced.emit .stop [] l.place).tokens
      · exact ih (spaced.comment ..) read
      · split at read
        · cases read
        · exact ih (spaced.comment ..) read
      · split at read
        · exact ih (spaced.blank ‹_›) read
        · split at read
          · cases read
          · exact ih (spaced.emit ..) read

theorem tokens_blank {source : String} {tokens : List Token} (read : tokens? source = some tokens) :
    ∀ token ∈ tokens, Text.isBlankText token.layout := by
  simp only [tokens?] at read
  split at read
  · cases read
  · exact lexFrom_blank ⟨by simp,by simp⟩ read

theorem grammar_brackets (s : Symbol) : ((Grammar.rule s).ending .unknown).isSome = true := by
  cases s with
  | operand beforeArrow => cases beforeArrow <;> rfl
  | expression beforeArrow => cases beforeArrow <;> rfl
  | _ => rfl

theorem ofTokens_regular {tokens : List Token} {root : Tree} (read : Tree.ofTokens tokens = .ok root)
    (blank : ∀ token ∈ tokens, Text.isBlankText token.layout) : root.Regular := by
  simp only [Tree.ofTokens] at read
  split at read
  · rename_i built stop ran
    cases read
    have known := (Rule.matches_of_run ran).known grammar_brackets (f := .unknown) (g := .unknown) rfl
      ⟨trivial,by simp,blank⟩
    refine .node 0 ?_ (by simp) (by simp)
    intro t member
    rcases List.mem_append.mp member with inside | trailing
    · exact known.regular t (List.mem_reverse.mp inside)
    · obtain ⟨c,-,rfl⟩ := List.mem_map.mp trailing
      exact comment_regular c
  · cases read
  · cases read

/-- In the tree of a source, brackets are where the kinds tell. -/
theorem parseTree_regular {source : String} {root : Tree} (parsed : parseTree source = .ok root) :
    root.Regular := by
  unfold parseTree at parsed
  split at parsed
  · cases parsed
  · rename_i tokens
    split at parsed
    · cases parsed
    · rename_i read
      cases parsed
      exact ofTokens_regular read (tokens_blank tokens)

/-! ## Written types -/

theorem writtenOf_comments (cs : List Comment) : writtenOf (cs.map Comment.tree) = "" := by
  induction cs with
  | nil => rfl
  | cons c cs ih =>
    rw [List.map_cons, writtenOf_cons, writtenOf_unwritten (isUnwritten_of_isComment (isComment_tree c)), ih]
    rfl

theorem EndsInBrackets.written {ts : List Tree} (ends : EndsInBrackets ts) :
    ∃ front, writtenOf ts = front ++ "[]" := by
  obtain ⟨front,_,comments,_,rfl,⟨_,_,_,rfl⟩,_,_,_,rfl,-⟩ := ends
  have opening : Text.trim "[" = "[" := by decide
  have closing : Text.trim "]" = "]" := by decide
  refine ⟨writtenOf front,?_⟩
  rw [writtenOf_append, writtenOf_cons, writtenOf_append, writtenOf_comments comments,
    writtenOf_childless rfl rfl, writtenOf_childless rfl rfl]
  simp [Tree.text,Tree.leaves,opening,closing]

theorem EndsInBrackets.ne_nil {ts : List Tree} (ends : EndsInBrackets ts) : ts ≠ [] := by
  obtain ⟨front,opening,comments,closing,rfl,-⟩ := ends
  simp

/-- An array type is written with brackets at its end. -/
theorem Tree.Regular.isArrayName_written {t u : Tree} (regular : t.Regular) (contains : t.Contains u)
    (arrayType : u.kind = .arrayType) : isArrayName u.written = true := by
  obtain ⟨d,last,dimensions⟩ := (regular.within u contains).arrayType arrayType
  obtain ⟨front,children⟩ := List.getLast?_eq_some_iff.mp last
  have ends := (regular.within d (contains.child (by simp [children]))).dimensions dimensions
  obtain ⟨before,brackets⟩ := ends.written
  have inner := writtenOf_children (t := d) (by rw [dimensions]; rfl) ends.ne_nil
  have outer := writtenOf_children (t := u) (by rw [arrayType]; rfl) (by simp [children])
  rw [u.written_eq, outer, children, writtenOf_append, inner, brackets, ← String.append_assoc]
  exact Text.endsWith_append (writtenOf front ++ before) "[]"

/-! ## Dimensions behind a name -/

/-- A comment stands right in front of the last bracket, and does not end with an opening one itself. -/
def Tree.HidesBracket (t : Tree) : Prop :=
  ∃ c, t.children.dropLast.getLast? = some c ∧ c.isComment = true ∧
    Text.endsWith (Text.removeBlanks c.text) "[" = false

theorem leavesOf_append (ts us : List Tree) :
    Tree.leavesOf (ts ++ us) = Tree.leavesOf ts ++ Tree.leavesOf us := by
  induction ts with
  | nil => rfl
  | cons t ts ih => simp [Tree.leavesOf,ih]

/-- The text of a tree ends with that of its last two leaves. -/
theorem text_of_leaves {t : Tree} {front : List Tree.Leaf} {a b : Tree.Leaf}
    (leaves : t.leaves = front ++ [a,b]) : ∃ before, t.text = before ++ a.text ++ b.layout ++ b.text := by
  cases front with
  | nil => exact ⟨"",by simp [Tree.text,leaves]⟩
  | cons first rest =>
    refine ⟨rest.foldl (fun s l => s ++ l.layout ++ l.text) first.text ++ a.layout,?_⟩
    simp [Tree.text,leaves,List.foldl_append]

/-- In front of the last bracket of dimensions stands a leaf that ends with an opening one, unless a comment
hides it. -/
theorem EndsInBrackets.leaves {t : Tree} (ends : EndsInBrackets t.children) (shown : ¬t.HidesBracket) :
    ∃ front a gap, t.leaves = front ++ [a,⟨gap,"]"⟩] ∧ Text.isBlankText gap = true ∧
      Text.endsWith (Text.removeBlanks a.text) "[" = true := by
  have own : t.leaves = Tree.leavesOf t.children := by
    cases t with
    | leaf => exact absurd rfl ends.ne_nil
    | node => rfl
  obtain ⟨front,opening,comments,closing,children,⟨_,layout,_,opened⟩,_,gap,_,closed,blank⟩ := ends
  have last : closing.leaves = [⟨gap,"]"⟩] := by rw [closed]; rfl
  rcases List.eq_nil_or_concat comments with rfl | ⟨before,c,rfl⟩
  · have opens : Text.endsWith (Text.removeBlanks "[") "[" = true := by decide
    refine ⟨Tree.leavesOf front,⟨layout,"["⟩,gap,?_,blank,opens⟩
    simp [own,children,leavesOf_append,Tree.leavesOf,last,opened,Tree.leaves]
  · have whole : t.children = front ++ opening :: before.map Comment.tree ++ [c.tree] ++ [closing] := by
      simp [children]
    refine ⟨Tree.leavesOf (front ++ opening :: before.map Comment.tree),⟨c.layout,c.text⟩,gap,?_,blank,?_⟩
    · simp [own,whole,leavesOf_append,Tree.leavesOf,last,Comment.tree,Tree.leaves]
    · have inFront : t.children.dropLast.getLast? = some c.tree := by
        rw [whole, List.dropLast_concat, List.getLast?_concat]
      apply Bool.of_not_eq_false
      intro other
      exact shown ⟨c.tree,inFront,isComment_tree c,other⟩

/-- Dimensions behind a name are given with brackets at their end, unless a comment hides one. -/
theorem Tree.Regular.isArrayName_append_dimensionsText {t u : Tree} (regular : t.Regular)
    (contains : t.Contains u) (dimensions : u.kind = .dimensions) (shown : ¬u.HidesBracket)
    (base : String) : isArrayName (base ++ u.dimensionsText) = true := by
  obtain ⟨front,a,gap,leaves,blank,opens⟩ :=
    ((regular.within u contains).dimensions dimensions).leaves shown
  obtain ⟨before,text⟩ := text_of_leaves leaves
  obtain ⟨inner,opening⟩ := Text.eq_append_of_endsWith opens
  have closing : Text.removeBlanks "]" = "]" := by decide
  rw [Tree.dimensionsText, text, Text.removeBlanks_append, Text.removeBlanks_append, Text.removeBlanks_append,
    Text.removeBlanks_of_blank blank, opening, closing]
  simpa [isArrayName,String.append_assoc] using
    Text.endsWith_append (base ++ Text.removeBlanks before ++ inner) "[]"

end Coupling.Source
