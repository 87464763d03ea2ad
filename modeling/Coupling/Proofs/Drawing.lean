import Coupling.Graph
import Coupling.Proofs.ReportHistory
import Mathlib.Data.List.Nodup

/-! Graphs as they are drawn, one node and one link after the other. Each name has one node and each pair of
names at most one link, in whichever order names and links come up, and however often. -/
namespace Coupling

/-! ## Nodes -/

namespace DependencyGraph

section Nodes

variable {g : DependencyGraph} {name other label : String} {i : Nat}

theorem node?_lt (found : g.node? name = some i) : i < g.nodes.length :=
  (List.findIdx?_eq_some_iff_getElem.mp found).1

theorem node?_isSome_iff : (g.node? name).isSome ↔ name ∈ g.nodes.map Prod.fst := by
  simp [node?]

/-- Among distinct names, a name is found exactly at its place. -/
theorem node?_eq_some_iff (distinct : (g.nodes.map Prod.fst).Nodup) :
    g.node? name = some i ↔ (g.nodes.map Prod.fst)[i]? = some name := by
  rw [node?, List.findIdx?_eq_some_iff_getElem, List.getElem?_eq_some_iff]
  simp only [beq_iff_eq,List.length_map,List.getElem_map]
  constructor
  · rintro ⟨bound,here,-⟩
    exact ⟨bound,here⟩
  · rintro ⟨bound,here⟩
    refine ⟨bound,here,fun j earlier there => ?_⟩
    have apart := List.pairwise_iff_getElem.mp distinct j i (by simpa using by omega) (by simpa)
      earlier
    exact apart (by simpa using there.trans here.symm)

@[simp] theorem withNode_links (g : DependencyGraph) (name label : String) :
    (g.withNode name label).1.links = g.links := by
  unfold withNode
  split <;> rfl

/-- A name gets a node unless it has one, and no other name moves. -/
theorem withNode_node? (g : DependencyGraph) (name label other : String) :
    (g.withNode name label).1.node? other =
      if other = name then some (g.withNode name label).2 else g.node? other := by
  unfold withNode
  split
  · rename_i found
    split
    · rename_i same
      rw [same, found]
    · rfl
  · rename_i missing
    simp only [node?,List.findIdx?_append,List.findIdx?_singleton] at missing ⊢
    by_cases same : other = name
    · subst same
      simp [missing]
    · simp [same,Ne.symm same]

theorem withNode_node?_of_some (found : g.node? name = some i) (other label : String) :
    (g.withNode other label).1.node? name = some i := by
  rw [withNode_node?]
  split
  · rename_i same
    subst same
    simp [withNode,found]
  · exact found

theorem withNode_nodes (g : DependencyGraph) (name label : String) :
    (g.withNode name label).1.nodes = g.nodes ∧ name ∈ g.nodes.map Prod.fst ∨
      (g.withNode name label).1.nodes = g.nodes ++ [(name,label)] ∧
        name ∉ g.nodes.map Prod.fst := by
  unfold withNode
  split
  · rename_i found
    exact .inl ⟨rfl,node?_isSome_iff.mp (by simp [found])⟩
  · rename_i missing
    refine .inr ⟨rfl,fun member => ?_⟩
    have present := node?_isSome_iff.mpr member
    simp [missing] at present

@[simp] theorem link_node? (g : DependencyGraph) (i j : Nat) (ks : List DependencyKind) (name : String) :
    (g.link i j ks).node? name = g.node? name := rfl

@[simp] theorem link_links (g : DependencyGraph) (i j : Nat) (ks : List DependencyKind) :
    (g.link i j ks).links = addKinds i j ks g.links := rfl

end Nodes

end DependencyGraph

/-! ## Links -/

namespace Link

def ends (l : Link) : Nat × Nat := (l.source,l.target)

def kindsAt? (p : Nat × Nat) (ls : List Link) : Option (List DependencyKind) :=
  (ls.find? (·.ends = p)).map Link.kinds

section Links

open DependencyGraph (addKinds)

variable {ls : List Link} {p : Nat × Nat}

theorem kindsAt?_eq_none_iff : kindsAt? p ls = none ↔ p ∉ ls.map ends := by
  simp [kindsAt?]

theorem kindsAt?_of_mem (apart : (ls.map ends).Nodup) {l : Link} (member : l ∈ ls) :
    kindsAt? l.ends ls = some l.kinds := by
  induction ls with
  | nil => cases member
  | cons first rest ih =>
    obtain ⟨new,apart⟩ := List.nodup_cons.mp apart
    rcases List.mem_cons.mp member with rfl | later
    · simp [kindsAt?]
    · have different : first.ends ≠ l.ends := fun same => new (same ▸ List.mem_map_of_mem later)
      simpa [kindsAt?,different] using ih apart later

/-- A link is made at the end unless there is one. -/
theorem ends_addKinds (i j : Nat) (ks : List DependencyKind) (ls : List Link) :
    (addKinds i j ks ls).map ends =
      if (i,j) ∈ ls.map ends then ls.map ends else ls.map ends ++ [(i,j)] := by
  induction ls with
  | nil => rfl
  | cons first rest ih =>
    by_cases here : first.source = i ∧ first.target = j
    · simp [addKinds,here,ends]
    · have apart : (i,j) ≠ first.ends := by
        rintro same
        cases same
        exact here ⟨rfl,rfl⟩
      simp only [addKinds,here,if_false,List.map_cons,List.mem_cons,apart,false_or,ih]
      split <;> rfl

theorem kindsAt?_addKinds (i j : Nat) (ks : List DependencyKind) (ls : List Link) (p : Nat × Nat) :
    kindsAt? p (addKinds i j ks ls) =
      if p = (i,j) then
        some (match kindsAt? p ls with
          | some old => old ++ ks.filter (!old.contains ·)
          | none => ks)
      else kindsAt? p ls := by
  induction ls with
  | nil =>
    by_cases here : p = (i,j)
    · simp [addKinds,kindsAt?,ends,here]
    · simp [addKinds,kindsAt?,ends,here,Ne.symm here]
  | cons first rest ih =>
    simp only [kindsAt?] at ih ⊢
    by_cases here : first.source = i ∧ first.target = j
    · obtain ⟨rfl,rfl⟩ := here
      by_cases same : p = (first.source,first.target)
      · simp [addKinds,ends,same]
      · simp [addKinds,ends,same,Ne.symm same]
    · simp only [addKinds,here,if_false]
      by_cases found : first.ends = p
      · have apart : p ≠ (i,j) := by
          rintro rfl
          cases found
          exact here ⟨rfl,rfl⟩
        simp [found,apart]
      · simpa [found] using ih

end Links

end Link

/-! ## Drawing -/

namespace DependencyGraph

/-- The graph shows these names under their labels, and between any two of them a link with the kinds
`shown`, or none. -/
structure Drawn (g : DependencyGraph) (label : String → String) (names : List String)
    (shown : String → String → Option (List DependencyKind)) : Prop where
  distinct : (g.nodes.map Prod.fst).Nodup
  named : ∀ name, name ∈ g.nodes.map Prod.fst ↔ name ∈ names
  labels : ∀ n ∈ g.nodes, n.2 = label n.1
  within : ∀ u v, shown u v ≠ none → u ∈ names ∧ v ∈ names
  bound : ∀ l ∈ g.links, l.source < g.nodes.length ∧ l.target < g.nodes.length
  apart : (g.links.map Link.ends).Nodup
  linked : ∀ u v i j, g.node? u = some i → g.node? v = some j → Link.kindsAt? (i,j) g.links = shown u v

def withKinds (shown : String → String → Option (List DependencyKind)) (u v : String)
    (ks : List DependencyKind) : String → String → Option (List DependencyKind) :=
  fun u' v' =>
    if u = u' ∧ v = v' then
      some (match shown u' v' with
        | some old => old ++ ks.filter (!old.contains ·)
        | none => ks)
    else shown u' v'

theorem empty_drawn (label : String → String) : Drawn empty label [] fun _ _ => none where
  distinct := .nil
  named := by simp [empty]
  labels := by simp [empty]
  within := by simp
  bound := by simp [empty]
  apart := .nil
  linked := by simp [empty,node?]

namespace Drawn

variable {g : DependencyGraph} {label : String → String} {names : List String}
  {shown : String → String → Option (List DependencyKind)}

theorem withNode (drawn : Drawn g label names shown) (name : String) :
    Drawn (g.withNode name (label name)).1 label (names ++ [name]) shown := by
  have within : ∀ u v, shown u v ≠ none → u ∈ names ++ [name] ∧ v ∈ names ++ [name] := by
    intro u v present
    exact (drawn.within u v present).imp (List.mem_append_left _) (List.mem_append_left _)
  rcases g.withNode_nodes name (label name) with ⟨same,present⟩ | ⟨grown,new⟩
  · have unchanged : (g.withNode name (label name)).1 = g := by
      obtain ⟨nodes,links⟩ := g
      exact (DependencyGraph.mk.injEq ..).mpr ⟨same,withNode_links ..⟩
    rw [unchanged]
    refine ⟨drawn.distinct,fun other => ?_,drawn.labels,within,drawn.bound,drawn.apart,drawn.linked⟩
    rw [drawn.named, List.mem_append, List.mem_singleton]
    constructor
    · exact .inl
    · rintro (old | rfl)
      · exact old
      · exact (drawn.named other).mp present
  · refine ⟨?_,fun other => ?_,?_,within,?_,?_,?_⟩
    · rw [grown, List.map_append]
      exact List.concat_eq_append ▸ drawn.distinct.concat new
    · rw [grown, List.map_append, List.mem_append, drawn.named, List.mem_append]
      rfl
    · rw [grown]
      exact forall_mem_concat drawn.labels rfl
    · rw [withNode_links, grown, List.length_append]
      intro l member
      obtain ⟨source,target⟩ := drawn.bound l member
      omega
    · rw [withNode_links]
      exact drawn.apart
    · have free (u v : String) (either : u = name ∨ v = name) : shown u v = none := by
        refine Classical.byContradiction fun present => new ((drawn.named name).mpr ?_)
        obtain ⟨source,target⟩ := drawn.within u v present
        rcases either with rfl | rfl
        · exact source
        · exact target
      have loose (i j : Nat) (either : i = g.nodes.length ∨ j = g.nodes.length) :
          Link.kindsAt? (i,j) g.links = none := by
        refine Link.kindsAt?_eq_none_iff.mpr fun member => ?_
        obtain ⟨l,inside,ends⟩ := List.mem_map.mp member
        cases ends
        have := drawn.bound l inside
        omega
      have place : (g.withNode name (label name)).2 = g.nodes.length := by
        unfold DependencyGraph.withNode
        split
        · rename_i found
          exact absurd (node?_isSome_iff.mp (by simp [found])) new
        · rfl
      intro u v i j atU atV
      rw [withNode_node?, place] at atU atV
      rw [withNode_links]
      split at atU
      · rename_i same
        cases atU
        rw [free u v (.inl same), loose _ j (.inl rfl)]
      · split at atV
        · rename_i same
          cases atV
          rw [free u v (.inr same), loose i _ (.inr rfl)]
        · exact drawn.linked u v i j atU atV

theorem node?_inj (drawn : Drawn g label names shown) {u v : String} {i : Nat} (atU : g.node? u = some i)
    (atV : g.node? v = some i) : u = v := by
  rw [node?_eq_some_iff drawn.distinct] at atU atV
  exact Option.some.inj (atU.symm.trans atV)

theorem link (drawn : Drawn g label names shown) {u v : String} {i j : Nat} (source : g.node? u = some i)
    (target : g.node? v = some j) (ks : List DependencyKind) :
    Drawn (g.link i j ks) label names (withKinds shown u v ks) where
  distinct := drawn.distinct
  named := drawn.named
  labels := drawn.labels
  within := by
    intro u' v' present
    unfold withKinds at present
    split at present
    · rename_i same
      obtain ⟨rfl,rfl⟩ := same
      exact ⟨(drawn.named _).mp (node?_isSome_iff.mp (by simp [source])),
        (drawn.named _).mp (node?_isSome_iff.mp (by simp [target]))⟩
    · exact drawn.within u' v' present
  bound := by
    have known : ∀ p ∈ (addKinds i j ks g.links).map Link.ends,
        p.1 < g.nodes.length ∧ p.2 < g.nodes.length := by
      have old : ∀ p ∈ g.links.map Link.ends, p.1 < g.nodes.length ∧ p.2 < g.nodes.length := by
        simpa [Link.ends] using drawn.bound
      rw [Link.ends_addKinds]
      split
      · exact old
      · exact forall_mem_concat old ⟨node?_lt source,node?_lt target⟩
    exact fun l member => known _ (List.mem_map_of_mem member)
  apart := by
    rw [link_links, Link.ends_addKinds]
    split
    · exact drawn.apart
    · exact List.concat_eq_append ▸ drawn.apart.concat ‹_›
  linked u' v' i' j' atU atV := by
    rw [link_node?] at atU atV
    rw [link_links, Link.kindsAt?_addKinds, withKinds, drawn.linked u' v' i' j' atU atV]
    have same : (i',j') = (i,j) ↔ u = u' ∧ v = v' := by
      constructor
      · rintro ⟨⟩
        exact ⟨drawn.node?_inj source atU,drawn.node?_inj target atV⟩
      · rintro ⟨rfl,rfl⟩
        cases source.symm.trans atU
        cases target.symm.trans atV
        rfl
    simp only [same]

/-- A link from a name that has a node to one that perhaps gets its node now. -/
theorem connect (drawn : Drawn g label names shown) {u : String} {i : Nat} (source : g.node? u = some i)
    (v : String) (ks : List DependencyKind) :
    Drawn ((g.withNode v (label v)).1.link i (g.withNode v (label v)).2 ks) label (names ++ [v])
      (withKinds shown u v ks) := by
  have target := g.withNode_node? v (label v) v
  rw [if_pos rfl] at target
  exact (drawn.withNode v).link (withNode_node?_of_some source v (label v)) target ks

theorem exists_name (drawn : Drawn g label names shown) {i : Nat} (bound : i < g.nodes.length) :
    ∃ name, g.node? name = some i :=
  ⟨g.nodes[i].1,(node?_eq_some_iff drawn.distinct).mpr (by simp [bound])⟩

theorem exists_node_iff (drawn : Drawn g label names shown) {name : String} :
    (∃ i, g.node? name = some i) ↔ name ∈ names := by
  rw [← drawn.named, ← node?_isSome_iff, Option.isSome_iff_exists]

theorem node (drawn : Drawn g label names shown) {name : String} {i : Nat} (found : g.node? name = some i) :
    g.nodes[i]? = some (name,label name) := by
  have here := (node?_eq_some_iff drawn.distinct).mp found
  rw [List.getElem?_map, Option.map_eq_some_iff] at here
  obtain ⟨n,entry,rfl⟩ := here
  rw [entry, ← drawn.labels n (List.mem_of_getElem? entry)]

theorem exists_link_iff_shown (drawn : Drawn g label names shown) {u v : String} {i j : Nat}
    (atU : g.node? u = some i) (atV : g.node? v = some j) :
    (∃ l ∈ g.links, l.source = i ∧ l.target = j) ↔ shown u v ≠ none := by
  have present : (i,j) ∈ g.links.map Link.ends ↔ shown u v ≠ none := by
    rw [← not_iff_not, ← Link.kindsAt?_eq_none_iff, drawn.linked u v i j atU atV, not_not]
  rw [← present]
  simp [Link.ends]

theorem shown_of_mem (drawn : Drawn g label names shown) {l : Link} (member : l ∈ g.links) {u v : String}
    (source : g.node? u = some l.source) (target : g.node? v = some l.target) :
    shown u v = some l.kinds := by
  rw [← drawn.linked u v _ _ source target]
  exact Link.kindsAt?_of_mem drawn.apart member

end Drawn

end DependencyGraph

end Coupling
