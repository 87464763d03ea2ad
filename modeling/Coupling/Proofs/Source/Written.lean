import Coupling.Source.Outline

/-! The text of a type against the leaves of its tree. What the walk has gathered and what is still on its
stack make the same text after every step, so the text at the end is that of all leaves outside annotations
and comments, in the order of the document. -/
namespace Coupling.Source

open Coupling.Source.Tree (nodeCountOf)

/-! ## Leaves in their places -/

/-- A leaf, and the kinds of the nodes that it lies in, the outermost first and its own last. -/
structure Spot where
  within : List Kind
  leaf : Tree.Leaf
  deriving DecidableEq

namespace Spot

def isWritten (s : Spot) : Bool := !s.within.any Kind.isUnwritten

def inside (k : Kind) (s : Spot) : Spot := ⟨k :: s.within,s.leaf⟩

@[simp] theorem leaf_inside (k : Kind) (s : Spot) : (s.inside k).leaf = s.leaf := rfl

theorem isWritten_inside (k : Kind) (s : Spot) : (s.inside k).isWritten = (!k.isUnwritten && s.isWritten) := by
  simp [isWritten,inside]

end Spot

mutual

/-- The leaves in document order, each in its place. -/
def Tree.spots : Tree → List Spot
  | .leaf _ k layout text _ => [⟨[k],⟨layout,text⟩⟩]
  | .node _ k _ ts => (spotsOf ts).map (Spot.inside k)

def spotsOf : List Tree → List Spot
  | [] => []
  | t :: ts => t.spots ++ spotsOf ts

end

mutual

theorem Tree.spots_leaves (t : Tree) : t.spots.map Spot.leaf = t.leaves := by
  cases t with
  | leaf => rfl
  | node _ _ _ ts =>
    rw [Tree.spots, List.map_map]
    exact spotsOf_leaves ts

theorem spotsOf_leaves (ts : List Tree) : (spotsOf ts).map Spot.leaf = Tree.leavesOf ts := by
  cases ts with
  | nil => rfl
  | cons t ts => rw [spotsOf, List.map_append, t.spots_leaves, spotsOf_leaves ts, Tree.leavesOf]

end

theorem spotsOf_append (ts us : List Tree) : spotsOf (ts ++ us) = spotsOf ts ++ spotsOf us := by
  induction ts with
  | nil => rfl
  | cons t ts ih => rw [List.cons_append, spotsOf, spotsOf, ih, List.append_assoc]

/-! ## The text of leaves -/

/-- The trimmed texts of the written leaves, one behind the other. -/
def writtenText (spots : List Spot) : String :=
  String.join ((spots.filter Spot.isWritten).map fun s => Text.trim s.leaf.text)

theorem writtenText_append (xs ys : List Spot) :
    writtenText (xs ++ ys) = writtenText xs ++ writtenText ys := by
  simp only [writtenText,List.filter_append,List.map_append,String.join_append]

theorem writtenText_inside (k : Kind) (spots : List Spot) :
    writtenText (spots.map (Spot.inside k)) = if k.isUnwritten then "" else writtenText spots := by
  cases unwritten : k.isUnwritten with
  | false => simp [writtenText,List.filter_map,Function.comp_def,Spot.isWritten_inside,unwritten]
  | true =>
    have none : (spots.map (Spot.inside k)).filter Spot.isWritten = [] := by
      simp [Spot.isWritten_inside,unwritten]
    rw [writtenText, none]
    rfl

def writtenOf (ts : List Tree) : String := writtenText (spotsOf ts)

theorem writtenOf_append (ts us : List Tree) : writtenOf (ts ++ us) = writtenOf ts ++ writtenOf us := by
  rw [writtenOf, spotsOf_append, writtenText_append]
  rfl

theorem writtenOf_cons (t : Tree) (ts : List Tree) : writtenOf (t :: ts) = writtenOf [t] ++ writtenOf ts :=
  writtenOf_append [t] ts

theorem writtenOf_singleton (t : Tree) : writtenOf [t] = writtenText t.spots := by
  rw [writtenOf, spotsOf, spotsOf, List.append_nil]

section

variable (role : Role) (k : Kind) (layout text : String) (row : Nat) (ts : List Tree)

theorem writtenOf_leaf :
    writtenOf [.leaf role k layout text row] = if k.isUnwritten then "" else Text.trim text := by
  cases unwritten : k.isUnwritten <;>
    simp [writtenOf_singleton,Tree.spots,writtenText,Spot.isWritten,unwritten]

theorem writtenOf_node : writtenOf [.node role k row ts] = if k.isUnwritten then "" else writtenOf ts := by
  rw [writtenOf_singleton, Tree.spots, writtenText_inside]
  rfl

end

section

variable {t : Tree}

theorem writtenOf_unwritten (unwritten : t.kind.isUnwritten = true) : writtenOf [t] = "" := by
  cases t with
  | leaf => exact (writtenOf_leaf ..).trans (if_pos unwritten)
  | node => exact (writtenOf_node ..).trans (if_pos unwritten)

theorem writtenOf_childless (written : t.kind.isUnwritten = false) (none : t.children = []) :
    writtenOf [t] = Text.trim t.text := by
  have shown : ¬t.kind.isUnwritten = true := by simp [written]
  cases t with
  | leaf => exact (writtenOf_leaf ..).trans (if_neg shown)
  | node =>
    cases none
    rfl

theorem writtenOf_children (written : t.kind.isUnwritten = false) (some : t.children ≠ []) :
    writtenOf [t] = writtenOf t.children := by
  have shown : ¬t.kind.isUnwritten = true := by simp [written]
  cases t with
  | leaf => exact absurd rfl some
  | node => exact (writtenOf_node ..).trans (if_neg shown)

theorem isUnwritten_of_isComment (comment : t.isComment = true) : t.kind.isUnwritten = true := by
  simp only [Tree.isComment,Bool.or_eq_true] at comment
  rcases comment with line | block
  · simp [Kind.isUnwritten,line]
  · simp [Kind.isUnwritten,block]

theorem isUnwritten_of_isAnnotationUse (used : t.isAnnotationUse = true) :
    t.kind.isUnwritten = true := by
  simp only [Tree.isAnnotationUse,Bool.or_eq_true] at used
  rcases used with full | mark
  · simp [Kind.isUnwritten,full]
  · simp [Kind.isUnwritten,mark]

end

/-! ## The walk -/

namespace Gathering

def text (g : Gathering) : String := g.written ++ writtenOf g.pending

/-- A step moves text from the stack to what has been gathered, and changes none of it. -/
theorem text_step? {g next : Gathering} (step : g.step? = some next) : next.text = g.text := by
  obtain ⟨pending,written⟩ := g
  cases pending with
  | nil => cases step
  | cons t rest =>
    simp only [step?] at step
    rw [text, text, writtenOf_cons]
    split at step
    · rename_i unwritten
      cases step
      rw [writtenOf_unwritten unwritten, String.empty_append]
    · rename_i shown
      have shown : t.kind.isUnwritten = false := by simpa using shown
      split at step
      · rename_i childless
        cases step
        rw [writtenOf_childless shown (List.isEmpty_iff.mp childless), String.append_assoc]
      · rename_i filled
        cases step
        rw [writtenOf_append, writtenOf_children shown (by simpa using filled)]

theorem pending_of_step?_eq_none {g : Gathering} (ended : g.step? = none) : g.pending = [] := by
  unfold step? at ended
  split at ended
  · assumption
  · split at ended
    · cases ended
    · split at ended <;> cases ended

theorem run_eq_text (g : Gathering) : g.run = g.text := by
  fun_induction run g with
  | case1 g ended =>
    rw [text, pending_of_step?_eq_none ended]
    exact String.append_empty.symm
  | case2 g next step ih => rw [ih, text_step? step]

def after : Nat → Gathering → Option Gathering
  | 0, g => some g
  | n + 1, g => g.step?.bind (after n)

/-- Every step takes a node from the stack for good, so there are no more steps than nodes. -/
theorem exists_after (g : Gathering) : ∃ n ≤ nodeCountOf g.pending, after n g = some ⟨[],g.run⟩ := by
  fun_induction run g with
  | case1 g ended =>
    refine ⟨0,Nat.zero_le _,?_⟩
    obtain ⟨pending,written⟩ := g
    cases pending_of_step?_eq_none ended
    rfl
  | case2 g next step ih =>
    obtain ⟨n,bound,ends⟩ := ih
    have fewer := nodeCountOf_step?_lt step
    refine ⟨n + 1,by omega,?_⟩
    rw [after, step]
    exact ends

end Gathering

theorem Tree.written_eq (t : Tree) : t.written = writtenOf [t] :=
  (Gathering.run_eq_text _).trans String.empty_append

/-! ## Layout -/

/-- Nodes that become the same by taking out comments, annotations and the blanks between tokens. -/
inductive Relaid : List Tree → List Tree → Prop
  | refl (ts : List Tree) : Relaid ts ts
  | symm {ts us} (relaid : Relaid ts us) : Relaid us ts
  | trans {ts us vs} (first : Relaid ts us) (second : Relaid us vs) : Relaid ts vs
  /-- A comment or an annotation comes in between. -/
  | insert {before after t} (unwritten : t.isComment = true ∨ t.isAnnotationUse = true) :
      Relaid (before ++ after) (before ++ t :: after)
  /-- A type that is to have annotations in front gets a node for them and itself. -/
  | annotated {before after t outer inner row} :
      Relaid (before ++ t :: after) (before ++ .node outer .annotatedType row [t.withRole inner] :: after)
  /-- The blanks in front of a token are others, and with them the row where it stands. -/
  | blanks {before after role k layout layout' text row row'} :
      Relaid (before ++ .leaf role k layout text row :: after)
        (before ++ .leaf role k layout' text row' :: after)
  | inside {before after role k row row' ts us} (relaid : Relaid ts us) :
      Relaid (before ++ .node role k row ts :: after) (before ++ .node role k row' us :: after)

theorem writtenOf_withRole (t : Tree) (r : Role) : writtenOf [t.withRole r] = writtenOf [t] := by
  cases t <;> rfl

theorem Relaid.writtenOf_eq {ts us : List Tree} (relaid : Relaid ts us) : writtenOf ts = writtenOf us := by
  have between {before after : List Tree} (ts us : List Tree) (same : writtenOf ts = writtenOf us) :
      writtenOf (before ++ (ts ++ after)) = writtenOf (before ++ (us ++ after)) := by
    simp only [writtenOf_append,same]
  induction relaid with
  | refl => rfl
  | symm _ ih => exact ih.symm
  | trans _ _ first second => exact first.trans second
  | @insert before after t unwritten =>
    have hidden : t.kind.isUnwritten = true := by
      rcases unwritten with comment | used
      · exact isUnwritten_of_isComment comment
      · exact isUnwritten_of_isAnnotationUse used
    exact between [] [t] (writtenOf_unwritten hidden).symm
  | @annotated before after t outer inner row =>
    refine between [t] [.node outer .annotatedType row [t.withRole inner]] ?_
    rw [writtenOf_node, writtenOf_withRole]
    rfl
  | @blanks before after role k layout layout' text row row' =>
    refine between [.leaf role k layout text row] [.leaf role k layout' text row'] ?_
    rw [writtenOf_leaf, writtenOf_leaf]
  | @inside before after role k row row' ts us _ ih =>
    refine between [.node role k row ts] [.node role k row' us] ?_
    rw [writtenOf_node, writtenOf_node, ih]

/-- The text of a type is that of its leaves outside annotations and comments, and the walk comes to it in at
most as many steps as there are nodes. So types with the same such leaves have the same text, whatever stands
between them. -/
theorem type_text_ignores_layout (t : Tree) :
    t.spots.map Spot.leaf = t.leaves ∧
    t.typeRef.written = String.join ((t.spots.filter Spot.isWritten).map fun s => Text.trim s.leaf.text) ∧
    (∃ n ≤ t.nodeCount, Gathering.after n ⟨[t],""⟩ = some ⟨[],t.typeRef.written⟩) ∧
    (∀ u : Tree, (t.spots.filter Spot.isWritten).map (fun s => Text.trim s.leaf.text) =
        (u.spots.filter Spot.isWritten).map (fun s => Text.trim s.leaf.text) →
      t.typeRef.written = u.typeRef.written) ∧
    ∀ u : Tree, Relaid [t] [u] → t.typeRef.written = u.typeRef.written := by
  have text (u : Tree) : u.typeRef.written = writtenText u.spots := u.written_eq.trans (writtenOf_singleton u)
  refine ⟨t.spots_leaves,text t,?_,fun u same => ?_,fun u relaid => ?_⟩
  · obtain ⟨n,bound,ends⟩ := Gathering.exists_after ⟨[t],""⟩
    exact ⟨n,by simpa [nodeCountOf] using bound,ends⟩
  · rw [text, text, writtenText, same]
    rfl
  · exact t.written_eq.trans (relaid.writtenOf_eq.trans u.written_eq.symm)

def bareList : Tree :=
  .node .type .genericType 0 [.leaf .none .typeIdentifier "" "List" 0,
    .node .none .typeArguments 0 [.leaf .none .token "" "<" 0,.leaf .none .typeIdentifier "" "B" 0,
      .leaf .none .token "" ">" 0]]

def markN : Tree :=
  .node .none .annotationMark 1 [.leaf .none .token "\n" "@" 1,.leaf .name .identifier "" "N" 1]

/-- The same type with a comment in it, and with an annotation in front of the argument on the next line. -/
def laidOutList : Tree :=
  .node .type .genericType 0 [.leaf .none .typeIdentifier "" "List" 0,.leaf .none .blockComment " " "/**/" 0,
    .node .none .typeArguments 0 [.leaf .none .token "" "<" 0,
      .node .none .annotatedType 1 [markN,.leaf .none .typeIdentifier " " "B" 1],.leaf .none .token "" ">" 0]]

theorem type_text_ignores_layout_list :
    Relaid [bareList] [laidOutList] ∧ laidOutList.typeRef.written = "List<B>" := by
  let opening : Tree := .leaf .none .token "" "<" 0
  let closing : Tree := .leaf .none .token "" ">" 0
  let argument (layout : String) (row : Nat) : Tree := .leaf .none .typeIdentifier layout "B" row
  have marked : Relaid [argument "" 0] [markN,argument " " 1] :=
    .trans (@Relaid.blanks [] [] ..) (@Relaid.insert [] _ markN (.inr rfl))
  have arguments : Relaid [opening,argument "" 0,closing]
      [opening,.node .none .annotatedType 1 [markN,argument " " 1],closing] :=
    .trans (@Relaid.annotated [opening] [closing] (argument "" 0) .none .none 1)
      (@Relaid.inside [opening] [closing] _ _ _ _ _ _ marked)
  let name : Tree := .leaf .none .typeIdentifier "" "List" 0
  have relaid : Relaid [bareList] [laidOutList] := by
    refine @Relaid.inside [] [] _ _ _ _ _ _ ?_
    exact .trans (@Relaid.insert [name] _ (.leaf .none .blockComment " " "/**/" 0) (.inl rfl))
      (@Relaid.inside [name,.leaf .none .blockComment " " "/**/" 0] [] _ _ _ _ _ _ arguments)
  obtain ⟨-,text,-,-,same⟩ := type_text_ignores_layout bareList
  refine ⟨relaid,(same laidOutList relaid).symm.trans (text.trans ?_)⟩
  decide

end Coupling.Source
