import Coupling.Source.Tree

/-! The text of a type is gathered from its leaves. The walk keeps the nodes to come on a stack, so that
a type of any depth costs no depth of its own. -/
namespace Coupling.Source

open Coupling.Source.Tree (nodeCountOf nodeCountOf_append)

def Kind.isUnwritten (k : Kind) : Bool :=
  k == .annotationUse || k == .annotationMark || k == .lineComment || k == .blockComment

/-- A walk over a type: the nodes to come, the first one on top, and the text so far. -/
structure Gathering where
  pending : List Tree
  written : String

namespace Gathering

/-- One step takes the node on top. An annotation or a comment goes with all that is inside it, a node
without children adds its text, and any other node leaves its children in its place. -/
def step? (g : Gathering) : Option Gathering :=
  match g.pending with
  | [] => none
  | t :: rest =>
    if t.kind.isUnwritten then some ⟨rest,g.written⟩
    else if t.children.isEmpty then some ⟨rest,g.written ++ Text.trim t.text⟩
    else some ⟨t.children ++ rest,g.written⟩

theorem nodeCountOf_step?_lt {g next : Gathering} (step : g.step? = some next) :
    nodeCountOf next.pending < nodeCountOf g.pending := by
  unfold step? at step
  split at step
  · cases step
  · rename_i t rest pending
    have above := t.nodeCount_pos
    have inside := t.nodeCountOf_children_lt
    rw [pending]
    split at step
    · cases step
      simp only [nodeCountOf]
      omega
    · split at step
      · cases step
        simp only [nodeCountOf]
        omega
      · cases step
        simp only [nodeCountOf, nodeCountOf_append]
        omega

def run (g : Gathering) : String :=
  match _step : g.step? with
  | none => g.written
  | some next => next.run
termination_by nodeCountOf g.pending
decreasing_by exact nodeCountOf_step?_lt ‹_›

end Gathering

/-- The text of a type without layout, comments and annotations. -/
def Tree.written (t : Tree) : String := Gathering.run ⟨[t],""⟩

end Coupling.Source
