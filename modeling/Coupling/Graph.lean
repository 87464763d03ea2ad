import Coupling.Report.WholeTree

/-! A graph has labelled nodes, one for each name, and edges between them that carry the kinds of
dependency seen there. Nodes and edges stand in the order in which a walk over the report meets them. -/
namespace Coupling

structure Link where
  source : Nat
  target : Nat
  kinds : List DependencyKind
  deriving DecidableEq, Repr

structure DependencyGraph where
  nodes : List (String × String)
  links : List Link
  deriving DecidableEq, Repr

namespace DependencyGraph

def empty : DependencyGraph := ⟨[],[]⟩

def node? (g : DependencyGraph) (name : String) : Option Nat := g.nodes.findIdx? (·.1 == name)

def withNode (g : DependencyGraph) (name label : String) : DependencyGraph × Nat :=
  match g.node? name with
  | some i => (g, i)
  | none => ({ g with nodes := g.nodes ++ [(name, label)] }, g.nodes.length)

/-- Adds kinds to the link between two nodes, each one once; the link is made if need be. -/
def addKinds (source target : Nat) (kinds : List DependencyKind) : List Link → List Link
  | [] => [⟨source,target,kinds⟩]
  | l :: ls =>
    if l.source = source ∧ l.target = target then
      { l with kinds := l.kinds ++ kinds.filter (!l.kinds.contains ·) } :: ls
    else l :: addKinds source target kinds ls

def link (g : DependencyGraph) (source target : Nat) (kinds : List DependencyKind) : DependencyGraph :=
  { g with links := addKinds source target kinds g.links }

/-- A grouping and the groupings that it refers to, itself left out. -/
def addGrouping (g : DependencyGraph) (name : String) (referenced : List String) : DependencyGraph :=
  let (g, source) := g.withNode name name
  (referenced.filter (· != name)).foldl (fun g r =>
    let (g, target) := g.withNode r r
    g.link source target []) g

/-- One node for each grouping of the tree and each one that it refers to. -/
def groupings (t : TreeReport) : DependencyGraph :=
  t.dependencyGraph.foldl (fun g d => g.addGrouping d.1 d.2) empty

def addUnit (g : DependencyGraph) (u : UnitReport) : DependencyGraph :=
  let (g, source) := g.withNode u.name (Text.lastSegment u.name)
  u.edges.foldl (fun g e =>
    let (g, target) := g.withNode e.target (Text.lastSegment e.target)
    g.link source target [e.kind]) g

/-- One node for each unit and each type that one refers to, shown by the last segment of its name. -/
def units (t : TreeReport) : DependencyGraph :=
  (t.groupingReports.flatMap GroupingReport.unitReports).foldl addUnit empty

/-- In a quoted label a quote and a backslash stand behind a backslash, and a line feed is written as
the mark of a left-justified line. -/
def escapeLabel : List Char → List Char
  | [] => []
  | c :: cs =>
    if c == '"' || c == '\\' then '\\' :: c :: escapeLabel cs
    else if c == '\n' then '\\' :: 'l' :: escapeLabel cs
    else c :: escapeLabel cs

def labelled (subject label : String) : String :=
  "    " ++ subject ++ " [ label = \"" ++ String.ofList (escapeLabel label.toList) ++ "\" ]"

def kindsLabel (kinds : List DependencyKind) : String :=
  ",".intercalate (kinds.map DependencyKind.label)

def nodeLines (g : DependencyGraph) : List String :=
  g.nodes.mapIdx fun i n => labelled (Text.decimal i) n.2

def linkLines (g : DependencyGraph) : List String :=
  g.links.map fun l =>
    labelled (Text.decimal l.source ++ " -> " ++ Text.decimal l.target) (kindsLabel l.kinds)

def content (g : DependencyGraph) : String := Text.ofLines (g.nodeLines ++ g.linkLines)

/-- The graph in the DOT language: its content, line by line, between braces. -/
def dot (g : DependencyGraph) : String :=
  Text.ofLines ("digraph \x7b" :: Text.lines g.content ++ ["\x7d"])

end DependencyGraph

end Coupling
