import Coupling.Proofs.Drawing
import Mathlib.Data.List.Induction

/-! The graph of the units of a tree against the report: the names that it mentions, and the kinds of
dependency between them, each once and where it comes first. -/
namespace Coupling

/-! ## What a report says -/

namespace TreeReport

def unitReports (t : TreeReport) : List UnitReport :=
  t.groupingReports.flatMap GroupingReport.unitReports

/-- A name is that of a unit, or one that a unit refers to. -/
def Mentions (t : TreeReport) (name : String) : Prop :=
  ∃ r ∈ t.unitReports, name = r.name ∨ ∃ e ∈ r.edges, name = e.target

/-- A unit of the first name depends on the second name in this way. -/
def DependsBy (t : TreeReport) (u v : String) (k : DependencyKind) : Prop :=
  ∃ r ∈ t.unitReports, r.name = u ∧ ∃ e ∈ r.edges, e.target = v ∧ e.kind = k

/-- The groupings that have a unit of that name. -/
def holders (t : TreeReport) (name : String) : List GroupingReport :=
  t.groupingReports.filter fun g => (g.unit? name).isSome

end TreeReport

/-! ## Kinds in the order of their first occurrence -/

def firstKinds (ks : List DependencyKind) : List DependencyKind :=
  ks.foldl (fun seen k => seen ++ [k].filter (!seen.contains ·)) []

section FirstKinds

variable {ks : List DependencyKind}

theorem firstKinds_concat (ks : List DependencyKind) (k : DependencyKind) :
    firstKinds (ks ++ [k]) = firstKinds ks ++ [k].filter (!(firstKinds ks).contains ·) := by
  simp [firstKinds]

theorem mem_firstKinds {k : DependencyKind} : k ∈ firstKinds ks ↔ k ∈ ks := by
  induction ks using List.reverseRecOn with
  | nil => rfl
  | append_singleton ks x ih =>
    rw [firstKinds_concat, List.mem_append, List.mem_append, ih, List.mem_filter]
    constructor
    · rintro (old | ⟨new,-⟩)
      · exact .inl old
      · exact .inr new
    · rintro (old | new)
      · exact .inl old
      · by_cases known : k ∈ ks
        · exact .inl known
        · exact .inr ⟨new,by simpa [ih] using known⟩

theorem firstKinds_nodup (ks : List DependencyKind) : (firstKinds ks).Nodup := by
  induction ks using List.reverseRecOn with
  | nil => exact .nil
  | append_singleton ks x ih =>
    rw [firstKinds_concat]
    refine List.nodup_append.mpr ⟨ih,(List.nodup_singleton x).filter _,?_⟩
    rintro a inFront b new rfl
    simp [List.mem_filter,inFront] at new

/-- Kinds that come in order are listed in order. -/
theorem firstKinds_strict (ordered : ks.Pairwise fun a b => compare a b ≠ .gt) :
    Sorted.Strict (firstKinds ks) := by
  have sublist : (firstKinds ks).Pairwise fun a b => compare a b ≠ .gt := by
    induction ks using List.reverseRecOn with
    | nil => exact .nil
    | append_singleton ks x ih =>
      obtain ⟨front,-,behind⟩ := List.pairwise_append.mp ordered
      rw [firstKinds_concat]
      refine List.pairwise_append.mpr ⟨ih front,(List.pairwise_singleton _ x).filter _,?_⟩
      intro a inFront b new
      exact behind a (mem_firstKinds.mp inFront) b (List.mem_filter.mp new).1
  refine (sublist.and (firstKinds_nodup ks)).imp ?_
  rintro a b ⟨below,different⟩
  cases order : compare a b with
  | lt => rfl
  | eq => exact absurd (Std.LawfulEqOrd.eq_of_compare order) different
  | gt => exact absurd order below

end FirstKinds

def kindsOf (deps : List Edge) (u v : String) : List DependencyKind :=
  (deps.filter fun e => e.source = u ∧ e.target = v).map Edge.kind

theorem mem_kindsOf {deps : List Edge} {u v : String} {k : DependencyKind} :
    k ∈ kindsOf deps u v ↔ ∃ e ∈ deps, e.source = u ∧ e.target = v ∧ e.kind = k := by
  simp [kindsOf,and_assoc]

theorem kindsOf_concat (deps : List Edge) (e : Edge) (u v : String) :
    kindsOf (deps ++ [e]) u v =
      kindsOf deps u v ++ if e.source = u ∧ e.target = v then [e.kind] else [] := by
  by_cases between : e.source = u ∧ e.target = v <;> simp [kindsOf,between]

/-! ## Drawing a report -/

namespace DependencyGraph

def shownKinds (deps : List Edge) (u v : String) : Option (List DependencyKind) :=
  if kindsOf deps u v = [] then none else some (firstKinds (kindsOf deps u v))

theorem shownKinds_concat (deps : List Edge) (e : Edge) :
    shownKinds (deps ++ [e]) = withKinds (shownKinds deps) e.source e.target [e.kind] := by
  funext u v
  simp only [withKinds,shownKinds,kindsOf_concat]
  by_cases between : e.source = u ∧ e.target = v
  · simp only [between,and_self,if_true,firstKinds_concat]
    by_cases first : kindsOf deps u v = []
    · simp [first,firstKinds]
    · simp [first]
  · simp [between]

namespace Drawn

variable {g : DependencyGraph} {names : List String} {deps : List Edge}

theorem exists_link_iff (drawn : Drawn g Text.lastSegment names (shownKinds deps)) {u v : String}
    {i j : Nat} (atU : g.node? u = some i) (atV : g.node? v = some j) :
    (∃ l ∈ g.links, l.source = i ∧ l.target = j) ↔ kindsOf deps u v ≠ [] := by
  rw [drawn.exists_link_iff_shown atU atV, shownKinds]
  split <;> simp_all

theorem kinds_eq (drawn : Drawn g Text.lastSegment names (shownKinds deps)) {l : Link}
    (member : l ∈ g.links) {u v : String} (source : g.node? u = some l.source)
    (target : g.node? v = some l.target) :
    kindsOf deps u v ≠ [] ∧ l.kinds = firstKinds (kindsOf deps u v) := by
  have linked := drawn.shown_of_mem member source target
  rw [shownKinds] at linked
  split at linked
  · cases linked
  · exact ⟨‹_›,(Option.some.inj linked).symm⟩

/-- One dependency after the other, of a unit that has a node. -/
theorem addEdges (drawn : Drawn g Text.lastSegment names (shownKinds deps)) {name : String} {i : Nat}
    (source : g.node? name = some i) {es : List Edge} (sources : ∀ e ∈ es, e.source = name) :
    Drawn (es.foldl (fun g e =>
      let (g,target) := g.withNode e.target (Text.lastSegment e.target)
      g.link i target [e.kind]) g) Text.lastSegment (names ++ es.map Edge.target) (shownKinds (deps ++ es)) := by
  induction es generalizing g names deps with
  | nil => simpa using drawn
  | cons e rest ih =>
    obtain ⟨first,later⟩ := List.forall_mem_cons.mp sources
    have kept := withNode_node?_of_some source e.target (Text.lastSegment e.target)
    have one := drawn.connect source e.target [e.kind]
    rw [← first, ← shownKinds_concat] at one
    simpa using ih one kept later

theorem addUnit (drawn : Drawn g Text.lastSegment names (shownKinds deps)) {r : UnitReport} (sound : r.Sound) :
    Drawn (g.addUnit r) Text.lastSegment (names ++ r.name :: r.edges.map Edge.target)
      (shownKinds (deps ++ r.edges)) := by
  have source := g.withNode_node? r.name (Text.lastSegment r.name) r.name
  rw [if_pos rfl] at source
  have edges := (drawn.withNode r.name).addEdges source fun e member => (sound.leaves e member).1
  simpa [DependencyGraph.addUnit] using edges

theorem addUnits (drawn : Drawn g Text.lastSegment names (shownKinds deps)) {rs : List UnitReport}
    (sound : ∀ r ∈ rs, r.Sound) :
    Drawn (rs.foldl DependencyGraph.addUnit g) Text.lastSegment
      (names ++ rs.flatMap fun r => r.name :: r.edges.map Edge.target)
      (shownKinds (deps ++ rs.flatMap UnitReport.edges)) := by
  induction rs generalizing g names deps with
  | nil => simpa using drawn
  | cons r rest ih =>
    obtain ⟨first,later⟩ := List.forall_mem_cons.mp sound
    simpa using ih (drawn.addUnit first) later

end Drawn

end DependencyGraph

/-! ## The graph of a tree -/

namespace TreeReport

variable {t : TreeReport}

theorem Sound.unitReports (sound : t.Sound) : ∀ r ∈ t.unitReports, r.Sound := by
  intro r member
  simp only [TreeReport.unitReports,groupingReports,GroupingReport.unitReports,List.mem_flatMap,
    List.mem_map] at member
  obtain ⟨_,⟨grouping,held,rfl⟩,entry,inside,rfl⟩ := member
  exact (sound.groupings grouping held).units entry inside

def dependencies (t : TreeReport) : List Edge := t.unitReports.flatMap UnitReport.edges

theorem units_drawn (sound : t.Sound) :
    (DependencyGraph.units t).Drawn Text.lastSegment
      (t.unitReports.flatMap fun r => r.name :: r.edges.map Edge.target)
      (DependencyGraph.shownKinds t.dependencies) := by
  have empty : DependencyGraph.empty.Drawn Text.lastSegment [] (DependencyGraph.shownKinds []) :=
    DependencyGraph.empty_drawn _
  have drawn := empty.addUnits sound.unitReports
  rwa [List.nil_append, List.nil_append] at drawn

theorem mentions_iff {name : String} :
    t.Mentions name ↔ name ∈ t.unitReports.flatMap fun r => r.name :: r.edges.map Edge.target := by
  simp [Mentions,eq_comm]

theorem dependsBy_iff (sound : t.Sound) {u v : String} {k : DependencyKind} :
    t.DependsBy u v k ↔ k ∈ kindsOf t.dependencies u v := by
  simp only [DependsBy,mem_kindsOf,dependencies,List.mem_flatMap]
  constructor
  · rintro ⟨r,held,rfl,e,member,target,kind⟩
    exact ⟨e,⟨r,held,member⟩,((sound.unitReports r held).leaves e member).1,target,kind⟩
  · rintro ⟨e,⟨r,held,member⟩,source,target,kind⟩
    exact ⟨r,held,((sound.unitReports r held).leaves e member).1.symm.trans source,e,member,target,kind⟩

end TreeReport

/-! ## The order of kinds -/

theorem GroupingReport.unitReports_filter {g : GroupingReport} (indexed : g.Indexed) (name : String) :
    g.unitReports.filter (·.name = name) = (g.unit? name).toList := by
  obtain ⟨title,units⟩ := g
  obtain ⟨sorted,own⟩ := indexed
  simp only [unitNames,unitReports,unit?] at sorted own ⊢
  induction units with
  | nil => rfl
  | cons entry rest ih =>
    obtain ⟨head,tail⟩ := List.pairwise_cons.mp sorted
    obtain ⟨first,later⟩ := List.forall_mem_cons.mp own
    have behind := ih tail later
    by_cases same : name = entry.1
    · subst same
      have missing : Sorted.find? entry.1 rest = none := Sorted.find?_eq_none_of_lt head
      rw [missing] at behind
      simpa [Sorted.find?,first] using behind
    · simpa [Sorted.find?,same,first,Ne.symm same] using behind

/-- The dependencies of one unit on one name come in the order of their kinds. -/
theorem UnitReport.Sound.kindsOf_ordered {r : UnitReport} (sound : r.Sound) (u v : String) :
    (kindsOf r.edges u v).Pairwise fun a b => compare a b ≠ .gt := by
  refine List.pairwise_map.mpr (List.pairwise_filter.mpr (sound.ordered.imp ?_))
  intro e f below left right
  simp only [decide_eq_true_eq] at left right
  have sources : compareOn Edge.source e f = .eq := by simp [compareOn,left.1,right.1]
  have targets : compareOn Edge.target e f = .eq := by simp [compareOn,left.2,right.2]
  simp only [Edge.compareFields,compareLex,sources,targets,Ordering.eq_then] at below
  intro above
  simp [compareOn,above] at below

/-- Units of other names have no part in the dependencies of a name. -/
theorem kindsOf_flatMap {rs : List UnitReport} (sound : ∀ r ∈ rs, r.Sound) (u v : String) :
    kindsOf (rs.flatMap UnitReport.edges) u v =
      (rs.filter (·.name = u)).flatMap fun r => kindsOf r.edges u v := by
  induction rs with
  | nil => rfl
  | cons r rest ih =>
    obtain ⟨first,later⟩ := List.forall_mem_cons.mp sound
    have split : kindsOf ((r :: rest).flatMap UnitReport.edges) u v =
        kindsOf r.edges u v ++ kindsOf (rest.flatMap UnitReport.edges) u v := by simp [kindsOf]
    rw [split, ih later]
    by_cases same : r.name = u
    · simp [same]
    · have none : kindsOf r.edges u v = [] := by
        simp only [kindsOf,List.map_eq_nil_iff,List.filter_eq_nil_iff,decide_eq_true_eq]
        rintro e member ⟨source,-⟩
        exact same ((first.leaves e member).1.symm.trans source)
      simp [same,none]

namespace TreeReport

variable {t : TreeReport}

theorem unitReports_filter (sound : t.Sound) (name : String) :
    t.unitReports.filter (·.name = name) = t.groupingReports.filterMap (·.unit? name) := by
  rw [unitReports, List.filter_flatMap, List.filterMap_eq_flatMap_toList]
  refine List.flatMap_congr fun g member => ?_
  obtain ⟨entry,held,rfl⟩ := List.mem_map.mp member
  exact GroupingReport.unitReports_filter (sound.groupings entry held).toIndexed name

theorem kindsOf_ordered (sound : t.Sound) {u : String} (one : (t.holders u).length = 1) (v : String) :
    (kindsOf t.dependencies u v).Pairwise fun a b => compare a b ≠ .gt := by
  have count : (t.unitReports.filter (·.name = u)).length = 1 := by
    rw [unitReports_filter sound, List.length_filterMap_eq_countP, ← one, List.countP_eq_length_filter]
    rfl
  obtain ⟨r,single⟩ := List.length_eq_one_iff.mp count
  have held : r ∈ t.unitReports := (List.mem_filter.mp (single ▸ List.mem_singleton_self r)).1
  rw [dependencies, kindsOf_flatMap sound.unitReports, single, List.flatMap_singleton]
  exact (sound.unitReports r held).kindsOf_ordered u v

end TreeReport

/-- The graph of the units shows the names that a report mentions, one node for each, and the
dependencies that it holds, one link for each two names. -/
theorem unit_graph_exact :
    (∀ operations, ∀ t ∈ (Bench.after operations).trees, t.Sound) ∧
    ∀ t : TreeReport, t.Sound →
      let g := DependencyGraph.units t
      (∀ name, t.Mentions name ↔ ∃ i, g.node? name = some i) ∧
      (∀ name i, g.node? name = some i → g.nodes[i]? = some (name,Text.lastSegment name)) ∧
      (∀ i < g.nodes.length, ∃ name, g.node? name = some i) ∧
      (∀ u v i, g.node? u = some i → g.node? v = some i → u = v) ∧
      (∀ l ∈ g.links, l.source ≠ l.target ∧
        ∃ u v, g.node? u = some l.source ∧ g.node? v = some l.target) ∧
      (g.links.map fun l => (l.source,l.target)).Nodup ∧
      ∀ u v i j, g.node? u = some i → g.node? v = some j →
        ((∃ l ∈ g.links, l.source = i ∧ l.target = j) ↔ ∃ k, t.DependsBy u v k) ∧
        ∀ l ∈ g.links, l.source = i → l.target = j →
          l.kinds.Nodup ∧ (∀ k, k ∈ l.kinds ↔ t.DependsBy u v k) ∧
          ((t.holders u).length = 1 → Sorted.Strict l.kinds) := by
  refine ⟨fun operations => (Bench.after_sound operations).trees,fun t sound => ?_⟩
  have drawn := TreeReport.units_drawn sound
  have depends {u v : String} : kindsOf t.dependencies u v ≠ [] ↔ ∃ k, t.DependsBy u v k := by
    simp only [TreeReport.dependsBy_iff sound,ne_eq,List.eq_nil_iff_forall_not_mem,not_forall,not_not]
  refine ⟨fun name => ?_,fun name i => drawn.node,fun i => drawn.exists_name,fun u v i => drawn.node?_inj,
    fun l member => ?_,drawn.apart,fun u v i j atU atV => ⟨?_,fun l member source target => ?_⟩⟩
  · rw [TreeReport.mentions_iff, ← drawn.named, ← DependencyGraph.node?_isSome_iff,
      Option.isSome_iff_exists]
  · obtain ⟨inSource,inTarget⟩ := drawn.bound l member
    obtain ⟨u,atU⟩ := drawn.exists_name inSource
    obtain ⟨v,atV⟩ := drawn.exists_name inTarget
    refine ⟨fun loop => ?_,u,v,atU,atV⟩
    obtain ⟨k,r,held,rfl,e,inside,target,-⟩ := depends.mp (drawn.kinds_eq member atU atV).1
    exact ((sound.unitReports r held).leaves e inside).2
      (target.trans (drawn.node?_inj atV (loop ▸ atU)))
  · exact (drawn.exists_link_iff atU atV).trans depends
  · subst source target
    obtain ⟨-,kinds⟩ := drawn.kinds_eq member atU atV
    rw [kinds]
    refine ⟨firstKinds_nodup _,fun k => ?_,fun one => ?_⟩
    · rw [mem_firstKinds, TreeReport.dependsBy_iff sound]
    · exact firstKinds_strict (TreeReport.kindsOf_ordered sound one v)

def sharedLabelHistory : List Operation :=
  [.newUnit "p.A",.addEdge 0 ⟨"p.A","y.B",.field,"B b",some 3⟩,
    .addEdge 0 ⟨"p.A","x.B",.importation,"import x.B",some 1⟩,
    .addEdge 0 ⟨"p.A","x.B",.field,"x.B c",some 2⟩,.newGrouping "p",.addUnit 0 0,.newTree "t",
    .addGrouping 0 0]

theorem unit_graph_exact_sharedLabel :
    ∃ t ∈ (Bench.after sharedLabelHistory).trees, t.Sound ∧
      (DependencyGraph.units t).nodes = [("p.A","A"),("x.B","B"),("y.B","B")] ∧
      t.Mentions "x.B" ∧ t.DependsBy "p.A" "x.B" .importation ∧
      ∃ l ∈ (DependencyGraph.units t).links, l.source = 0 ∧ l.target = 1 ∧
        l.kinds = [.field,.importation] ∧ Sorted.Strict l.kinds := by
  have made : (Bench.after sharedLabelHistory).trees =
      [⟨"t",[("p",⟨"p",[("p.A",⟨"p.A",[⟨"p.A","x.B",.field,"x.B c",some 2⟩,
        ⟨"p.A","x.B",.importation,"import x.B",some 1⟩,⟨"p.A","y.B",.field,"B b",some 3⟩]⟩)]⟩)]⟩] := rfl
  refine ⟨_,made ▸ List.mem_singleton_self _,?_⟩
  have sound := unit_graph_exact.1 sharedLabelHistory _ (made ▸ List.mem_singleton_self _)
  obtain ⟨mentions,-,-,-,-,-,links⟩ := unit_graph_exact.2 _ sound
  have link := links "p.A" "x.B" 0 1 rfl rfl
  obtain ⟨-,kinds,strict⟩ := link.2 ⟨0,1,[.field,.importation]⟩ (List.mem_cons_self ..) rfl rfl
  exact ⟨sound,rfl,(mentions "x.B").mpr ⟨1,rfl⟩,(kinds .importation).mp (by simp),
    _,List.mem_cons_self ..,rfl,rfl,rfl,strict rfl⟩

end Coupling
