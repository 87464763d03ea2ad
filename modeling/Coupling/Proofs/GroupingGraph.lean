import Coupling.Proofs.Drawing
import Coupling.Proofs.Spelling

/-! The graph of the groupings of a tree against the dependencies of their units. A grouping refers to the
namespaces in which the targets lie, whether or not the tree has groupings of these names. -/
namespace Coupling

/-! ## Namespaces -/

/-- The target lies in a namespace: in front of its first bracket it is the namespace, a point and a name
without points. -/
def Edge.LiesIn (e : Edge) (space : String) : Prop :=
  space ≠ "" ∧ ∃ name behind, e.target = space ++ "." ++ name ++ behind ∧ '.' ∉ name.toList ∧
    '<' ∉ (space ++ "." ++ name).toList ∧ (behind = "" ∨ ∃ inner, behind = "<" ++ inner)

theorem Edge.targetGrouping_eq_some_iff {e : Edge} {space : String} :
    e.targetGrouping = some space ↔ e.LiesIn space := by
  have split : e.targetGrouping = some space ↔
      space ≠ "" ∧ ∃ name, Text.splitLast? '.' (Text.before '<' e.target) = some (space,name) := by
    unfold targetGrouping
    split
    · rename_i front name found
      by_cases empty : front = ""
      · subst empty
        simp [found]
      · by_cases same : front = space
        · simp [← same,empty,found]
        · simp [same,empty,found]
    · rename_i missing
      simp [missing]
  have pointed (name : String) : Text.splitLast? '.' (Text.before '<' e.target) = some (space,name) ↔
      Text.before '<' e.target = space ++ "." ++ name ∧ '.' ∉ name.toList := by
    rw [Text.splitLast?_eq_some_iff, ← String.toList_inj]
    simp
  simp only [split,pointed,before_eq_iff,LiesIn]
  grind

def GroupingReport.RefersTo (g : GroupingReport) (space : String) : Prop :=
  ∃ u ∈ g.unitReports, ∃ e ∈ u.edges, e.LiesIn space

theorem GroupingReport.mem_referencedGroupings {g : GroupingReport} {space : String} :
    space ∈ g.referencedGroupings ↔ g.RefersTo space := by
  simp only [referencedGroupings,Sorted.mem_ofList,List.mem_flatMap,List.mem_filterMap,
    Edge.targetGrouping_eq_some_iff]
  rfl

/-! ## The table of a tree -/

namespace TreeReport

variable {t : TreeReport}

theorem map_name_groupingReports (indexed : t.Indexed) :
    t.groupingReports.map GroupingReport.name = t.groupingNames := by
  rw [groupingReports, groupingNames, List.map_map]
  exact List.map_congr_left indexed.own

/-- Groupings come in the order of their names, so each is written behind the others. -/
theorem dependencyGraph_eq (indexed : t.Indexed) :
    t.dependencyGraph = t.groupingReports.map fun g => (g.name,g.referencedGroupings) := by
  have general (gs : List GroupingReport) : ∀ m : List (String × List String),
      Sorted.Strict (m.map Prod.fst ++ gs.map GroupingReport.name) →
      gs.foldl (fun m g => Sorted.insert g.name g.referencedGroupings m) m =
        m ++ gs.map fun g => (g.name,g.referencedGroupings) := by
    induction gs with
    | nil => simp
    | cons g rest ih =>
      intro m strict
      have below : ∀ key ∈ m.map Prod.fst, compare key g.name = .lt := fun key member =>
        (List.pairwise_append.mp strict).2.2 key member g.name (by simp)
      rw [List.foldl_cons, Sorted.insert_last below, ih _ (by simpa using strict)]
      simp
  exact general _ [] (by simpa [map_name_groupingReports indexed] using indexed.sorted)

theorem keys_dependencyGraph (indexed : t.Indexed) : t.dependencyGraph.map Prod.fst = t.groupingNames := by
  rw [dependencyGraph_eq indexed, ← map_name_groupingReports indexed, List.map_map]
  rfl

theorem find?_dependencyGraph (indexed : t.Indexed) {g : GroupingReport} (held : g ∈ t.groupingReports) :
    Sorted.find? g.name t.dependencyGraph = some g.referencedGroupings := by
  refine Sorted.find?_of_mem (keys_dependencyGraph indexed ▸ indexed.sorted) ?_
  rw [dependencyGraph_eq indexed]
  exact List.mem_map_of_mem held

end TreeReport

/-! ## Drawing groupings -/

namespace DependencyGraph

/-- A link without kinds between each two names of a list, and no other. -/
def shownPairs (pairs : List (String × String)) (u v : String) : Option (List DependencyKind) :=
  if (u,v) ∈ pairs then some [] else none

theorem shownPairs_eq_some_iff {pairs : List (String × String)} {u v : String} {ks : List DependencyKind} :
    shownPairs pairs u v = some ks ↔ (u,v) ∈ pairs ∧ ks = [] := by
  simp [shownPairs,eq_comm]

theorem shownPairs_concat (pairs : List (String × String)) (u v : String) :
    shownPairs (pairs ++ [(u,v)]) = withKinds (shownPairs pairs) u v [] := by
  funext u' v'
  simp only [withKinds,shownPairs,List.mem_append,List.mem_singleton,Prod.mk.injEq]
  by_cases old : (u',v') ∈ pairs <;> by_cases new : u = u' ∧ v = v' <;> simp [old,new,eq_comm]

def otherReferences (d : String × List String) : List String := d.2.filter (· != d.1)

namespace Drawn

variable {g : DependencyGraph} {names : List String} {pairs : List (String × String)}

theorem addTargets (drawn : Drawn g id names (shownPairs pairs)) {name : String} {i : Nat}
    (source : g.node? name = some i) (targets : List String) :
    Drawn (targets.foldl (fun g r =>
      let (g,target) := g.withNode r r
      g.link i target []) g) id (names ++ targets) (shownPairs (pairs ++ targets.map fun r => (name,r))) := by
  induction targets generalizing g names pairs with
  | nil => simpa using drawn
  | cons r rest ih =>
    have one := drawn.connect source r []
    rw [← shownPairs_concat] at one
    simpa using ih one (withNode_node?_of_some source r r)

theorem addGrouping (drawn : Drawn g id names (shownPairs pairs)) (d : String × List String) :
    Drawn (g.addGrouping d.1 d.2) id (names ++ d.1 :: otherReferences d)
      (shownPairs (pairs ++ (otherReferences d).map fun r => (d.1,r))) := by
  have source := g.withNode_node? d.1 d.1 d.1
  rw [if_pos rfl] at source
  have targets := (drawn.withNode d.1).addTargets source (otherReferences d)
  simpa [DependencyGraph.addGrouping,otherReferences] using targets

theorem addGroupings (drawn : Drawn g id names (shownPairs pairs)) (ds : List (String × List String)) :
    Drawn (ds.foldl (fun g d => g.addGrouping d.1 d.2) g) id
      (names ++ ds.flatMap fun d => d.1 :: otherReferences d)
      (shownPairs (pairs ++ ds.flatMap fun d => (otherReferences d).map fun r => (d.1,r))) := by
  induction ds generalizing g names pairs with
  | nil => simpa using drawn
  | cons d rest ih => simpa using ih (drawn.addGrouping d)

end Drawn

end DependencyGraph

/-! ## The graph of a tree -/

namespace TreeReport

variable {t : TreeReport}

def Refers (t : TreeReport) (name space : String) : Prop :=
  ∃ g ∈ t.groupingReports, g.name = name ∧ g.RefersTo space

/-- A name is that of a grouping, or of a namespace that one refers to. -/
def MentionsGrouping (t : TreeReport) (name : String) : Prop :=
  name ∈ t.groupingNames ∨ ∃ source, t.Refers source name

def groupingPairs (t : TreeReport) : List (String × String) :=
  t.dependencyGraph.flatMap fun d => (DependencyGraph.otherReferences d).map fun r => (d.1,r)

theorem groupings_drawn (t : TreeReport) :
    (DependencyGraph.groupings t).Drawn id
      (t.dependencyGraph.flatMap fun d => d.1 :: DependencyGraph.otherReferences d)
      (DependencyGraph.shownPairs t.groupingPairs) := by
  have empty : DependencyGraph.empty.Drawn id [] (DependencyGraph.shownPairs []) := by
    have none : DependencyGraph.shownPairs [] = fun _ _ => none := by
      funext u v
      simp [DependencyGraph.shownPairs]
    exact none ▸ DependencyGraph.empty_drawn id
  have drawn := empty.addGroupings t.dependencyGraph
  rwa [List.nil_append, List.nil_append] at drawn

theorem mem_groupingPairs (indexed : t.Indexed) {u v : String} :
    (u,v) ∈ t.groupingPairs ↔ u ≠ v ∧ t.Refers u v := by
  simp only [groupingPairs,dependencyGraph_eq indexed,DependencyGraph.otherReferences,Refers,List.flatMap_map,
    List.mem_flatMap,List.mem_map,List.mem_filter,GroupingReport.mem_referencedGroupings,bne_iff_ne]
  constructor
  · rintro ⟨g,held,r,⟨refers,other⟩,same⟩
    cases same
    exact ⟨Ne.symm other,g,held,rfl,refers⟩
  · rintro ⟨other,g,held,rfl,refers⟩
    exact ⟨g,held,v,⟨refers,Ne.symm other⟩,rfl⟩

theorem mentionsGrouping_iff (indexed : t.Indexed) {name : String} :
    t.MentionsGrouping name ↔
      name ∈ t.dependencyGraph.flatMap fun d => d.1 :: DependencyGraph.otherReferences d := by
  simp only [MentionsGrouping,Refers,← map_name_groupingReports indexed,dependencyGraph_eq indexed,
    DependencyGraph.otherReferences,List.flatMap_map,List.mem_flatMap,List.mem_map,List.mem_cons,List.mem_filter,
    GroupingReport.mem_referencedGroupings,bne_iff_ne]
  constructor
  · rintro (⟨g,held,rfl⟩ | ⟨_,g,held,rfl,refers⟩)
    · exact ⟨g,held,.inl rfl⟩
    · by_cases own : name = g.name
      · exact ⟨g,held,.inl own⟩
      · exact ⟨g,held,.inr ⟨refers,own⟩⟩
  · rintro ⟨g,held,rfl | ⟨refers,-⟩⟩
    · exact .inl ⟨g,held,rfl⟩
    · exact .inr ⟨g.name,g,held,rfl,refers⟩

end TreeReport

/-- The table of a tree gives each grouping the namespaces of its dependencies, and the graph of the
groupings shows these names, one node for each, with a link for each reference to another name. -/
theorem grouping_graph_exact :
    (∀ operations, ∀ t ∈ (Bench.after operations).trees, t.Indexed) ∧
    ∀ t : TreeReport, t.Indexed →
      t.dependencyGraph.map Prod.fst = t.groupingNames ∧
      (∀ g ∈ t.groupingReports, ∃ spaces, Sorted.find? g.name t.dependencyGraph = some spaces ∧
        Sorted.Strict spaces ∧ ∀ space, space ∈ spaces ↔ g.RefersTo space) ∧
      let graph := DependencyGraph.groupings t
      (∀ name, t.MentionsGrouping name ↔ ∃ i, graph.node? name = some i) ∧
      (∀ name i, graph.node? name = some i → graph.nodes[i]? = some (name,name)) ∧
      (∀ i < graph.nodes.length, ∃ name, graph.node? name = some i) ∧
      (∀ u v i, graph.node? u = some i → graph.node? v = some i → u = v) ∧
      (∀ l ∈ graph.links, l.kinds = [] ∧ l.source ≠ l.target ∧
        ∃ u v, graph.node? u = some l.source ∧ graph.node? v = some l.target) ∧
      (graph.links.map fun l => (l.source,l.target)).Nodup ∧
      ∀ u v i j, graph.node? u = some i → graph.node? v = some j →
        ((∃ l ∈ graph.links, l.source = i ∧ l.target = j) ↔ u ≠ v ∧ t.Refers u v) := by
  refine ⟨fun operations t held => ((Bench.after_sound operations).trees t held).toIndexed,
    fun t indexed => ?_⟩
  have drawn := TreeReport.groupings_drawn t
  refine ⟨TreeReport.keys_dependencyGraph indexed,fun g held => ?_,fun name => ?_,fun name i => drawn.node,
    fun i => drawn.exists_name,fun u v i => drawn.node?_inj,fun l member => ?_,drawn.apart,
    fun u v i j atU atV => ?_⟩
  · exact ⟨_,TreeReport.find?_dependencyGraph indexed held,Sorted.ofList_strict _,
      fun space => GroupingReport.mem_referencedGroupings⟩
  · rw [TreeReport.mentionsGrouping_iff indexed, drawn.exists_node_iff]
  · obtain ⟨inSource,inTarget⟩ := drawn.bound l member
    obtain ⟨u,atU⟩ := drawn.exists_name inSource
    obtain ⟨v,atV⟩ := drawn.exists_name inTarget
    obtain ⟨pair,kinds⟩ := DependencyGraph.shownPairs_eq_some_iff.mp (drawn.shown_of_mem member atU atV)
    refine ⟨kinds,fun loop => ?_,u,v,atU,atV⟩
    exact ((TreeReport.mem_groupingPairs indexed).mp pair).1 (drawn.node?_inj atU (loop ▸ atV))
  · rw [drawn.exists_link_iff_shown atU atV, ← TreeReport.mem_groupingPairs indexed,
      Option.ne_none_iff_exists']
    simp [DependencyGraph.shownPairs_eq_some_iff]

/-- Two groupings that refer to each other, the first also to itself and to a namespace that is no grouping
of the tree. -/
def mutualHistory : List Operation :=
  [.newUnit "p.A",.addEdge 0 ⟨"p.A","q.r.List<s.B>",.field,"List<s.B> l",some 1⟩,
    .addEdge 0 ⟨"p.A","p.C",.field,"C c",some 2⟩,.addEdge 0 ⟨"p.A","Plain",.field,"Plain e",some 3⟩,
    .addEdge 0 ⟨"p.A","z.D",.field,"z.D d",some 4⟩,
    .newUnit "q.r.List",.addEdge 1 ⟨"q.r.List","p.A",.field,"p.A a",some 1⟩,
    .newGrouping "q.r",.addUnit 0 1,.newGrouping "p",.addUnit 1 0,.newTree "t",.addGrouping 0 0,.addGrouping 0 1]

theorem grouping_graph_exact_mutual :
    ∃ t ∈ (Bench.after mutualHistory).trees, t.Indexed ∧
      t.dependencyGraph = [("p",["p","q.r","z"]),("q.r",["p"])] ∧
      (DependencyGraph.groupings t).nodes = [("p","p"),("q.r","q.r"),("z","z")] ∧
      t.MentionsGrouping "z" ∧ t.Refers "p" "q.r" ∧ t.Refers "q.r" "p" ∧ ¬ t.Refers "p" "s" ∧
      ¬ ∃ l ∈ (DependencyGraph.groupings t).links, l.source = 0 ∧ l.target = 0 := by
  have made : (Bench.after mutualHistory).trees =
      [⟨"t",[("p",⟨"p",[("p.A",⟨"p.A",[⟨"p.A","Plain",.field,"Plain e",some 3⟩,
        ⟨"p.A","p.C",.field,"C c",some 2⟩,⟨"p.A","q.r.List<s.B>",.field,"List<s.B> l",some 1⟩,
        ⟨"p.A","z.D",.field,"z.D d",some 4⟩]⟩)]⟩),
        ("q.r",⟨"q.r",[("q.r.List",⟨"q.r.List",[⟨"q.r.List","p.A",.field,"p.A a",some 1⟩]⟩)]⟩)]⟩] := rfl
  refine ⟨_,made ▸ List.mem_singleton_self _,?_⟩
  have indexed := grouping_graph_exact.1 mutualHistory _ (made ▸ List.mem_singleton_self _)
  obtain ⟨-,-,names,-,-,-,-,-,links⟩ := grouping_graph_exact.2 _ indexed
  refine ⟨indexed,rfl,rfl,(names "z").mpr ⟨2,rfl⟩,?_,?_,?_,?_⟩
  · exact ((links "p" "q.r" 0 1 rfl rfl).mp ⟨⟨0,1,[]⟩,by decide,rfl,rfl⟩).2
  · exact ((links "q.r" "p" 1 0 rfl rfl).mp ⟨⟨1,0,[]⟩,by decide,rfl,rfl⟩).2
  · intro refers
    obtain ⟨i,found⟩ := (names "s").mp (.inr ⟨"p",refers⟩)
    cases found
  · exact fun loop => ((links "p" "p" 0 0 rfl rfl).mp loop).1 rfl

end Coupling
