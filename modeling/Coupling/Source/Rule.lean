import Coupling.Source.Token
import Coupling.Source.Tree

/-! A rule describes a piece of a token sequence and the trees that it contributes. Choice is ordered:
the first alternative that matches is taken and the others are not tried again. Rules are data, so a
grammar is a function from its symbols to rules, and one runner serves every grammar.

Trees are collected in the scope of a rule. `scope` opens a fresh one, and `close` turns everything
collected in the present one into a single node. The comments in front of a node's first token stay
outside of it, so a node begins at a token. -/
namespace Coupling.Source

/-- A single token as a rule sees it. -/
inductive Terminal
  | symbol (text : String)
  /-- Punctuation that stands right behind the token before it. -/
  | tightSymbol (text : String)
  | keyword (text : String)
  | tightKeyword (text : String)
  | word (kind : Kind)
  | literal (cls : TokenClass) (kind : Kind)
  deriving DecidableEq, Repr

inductive Rule (σ : Type)
  | empty
  | accept (t : Terminal)
  /-- Takes nothing, where the next token is none of these words. -/
  | exclude (words : List String)
  /-- Takes nothing, where `a` does not match. -/
  | absent (a : Rule σ)
  /-- Takes nothing, where the last tree of the scope has one of these kinds. -/
  | last (kinds : List Kind)
  | seq (a b : Rule σ)
  | choice (a b : Rule σ)
  | many (a : Rule σ)
  | call (s : σ)
  | scope (a : Rule σ)
  | close (kind : Kind)
  | role (r : Role) (a : Rule σ)

namespace Rule

variable {σ : Type}

def all : List (Rule σ) → Rule σ
  | [] => empty
  | [a] => a
  | a :: as => seq a (all as)

def oneOf (a : Rule σ) : List (Rule σ) → Rule σ
  | [] => a
  | b :: bs => choice a (oneOf b bs)

def optional (a : Rule σ) : Rule σ := choice a empty

def atLeastOne (a : Rule σ) : Rule σ := seq a (many a)

def node (kind : Kind) (a : Rule σ) : Rule σ := scope (seq a (close kind))

def separated (a separator : Rule σ) : Rule σ := seq a (many (seq separator a))

/-- Takes nothing, where `a` matches. -/
def ahead (a : Rule σ) : Rule σ := absent (absent a)

end Rule

/-- What a terminal makes of a token: the kind of the leaf, if it accepts the token. -/
def Terminal.kind? (token : Token) : Terminal → Option Kind
  | .symbol text => if token.cls = .symbol ∧ token.text = text then some .token else none
  | .tightSymbol text =>
    if token.cls = .symbol ∧ token.text = text ∧ token.isTight then some .token else none
  | .keyword text => if token.cls = .word ∧ token.text = text then some .token else none
  | .tightKeyword text =>
    if token.cls = .word ∧ token.text = text ∧ token.isTight then some .token else none
  | .word kind => if token.cls = .word then some kind else none
  | .literal cls kind => if token.cls = cls then some kind else none

def Comment.tree (c : Comment) : Tree :=
  .leaf .none (if c.isLine then .lineComment else .blockComment) c.layout c.text c.row

/-- Trees collected in the present scope, last one first, and the tokens that follow. -/
structure Progress where
  built : List Tree
  rest : List Token

/-- The leaves of a token: its comments and the token itself, on top of what is built. -/
def Token.pushLeaves (t : Token) (kind : Kind) (built : List Tree) : List Tree :=
  .leaf .none kind t.layout t.text t.position.row ::
    t.comments.foldl (fun ts c => c.tree :: ts) built

/-- The node made of the trees of a scope, given first one first, as the trees of the scope around
it: leading comments stay in front. -/
def closeTrees (kind : Kind) : List Tree → List Tree
  | [] => []
  | t :: ts =>
    if t.isComment then t :: closeTrees kind ts else [.node .none kind t.row (t :: ts)]

def assignRole (r : Role) (t : Tree) : Tree := if t.isComment then t else t.withRole r

/-- Runs a rule. The budget bounds the depth of the run; a rule that runs out of it does not match. -/
def Rule.run {σ : Type} (grammar : σ → Rule σ) : Nat → Rule σ → Progress → Option Progress
  | 0, _, _ => none
  | n + 1, rule, p =>
    match rule with
    | .empty => some p
    | .accept t =>
      match p.rest with
      | [] => none
      | token :: rest =>
        match t.kind? token with
        | none => none
        | some kind => some ⟨token.pushLeaves kind p.built,rest⟩
    | .exclude words =>
      match p.rest with
      | [] => none
      | token :: _ => if token.cls = .word ∧ token.text ∈ words then none else some p
    | .absent a =>
      match run grammar n a p with
      | none => some p
      | some _ => none
    | .last kinds =>
      match p.built with
      | [] => none
      | t :: _ => if t.kind ∈ kinds then some p else none
    | .seq a b =>
      match run grammar n a p with
      | none => none
      | some q => run grammar n b q
    | .choice a b =>
      match run grammar n a p with
      | none => run grammar n b p
      | some q => some q
    | .many a =>
      match run grammar n a p with
      | none => some p
      | some q => run grammar n (.many a) q
    | .call s => run grammar n (grammar s) p
    | .scope a =>
      match run grammar n a ⟨[],p.rest⟩ with
      | none => none
      | some q => some ⟨q.built ++ p.built,q.rest⟩
    | .close kind => some ⟨(closeTrees kind p.built.reverse).reverse,p.rest⟩
    | .role r a =>
      match run grammar n a ⟨[],p.rest⟩ with
      | none => none
      | some q => some ⟨q.built.map (assignRole r) ++ p.built,q.rest⟩

end Coupling.Source
