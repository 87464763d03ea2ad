import Coupling.Graph
import Coupling.Proofs.Text

/-! The text of a graph in the DOT language gives the graph back: every line stands for one node or one
link, its label ends at the quote that closes it, and what stands in front of the label tells which node
or link it is. -/
namespace Coupling

/-! ## Lines -/

namespace Text

/-- A text that is one line as it stands: it has no line feed, and no carriage return that would belong
to one behind it. -/
def IsLine (s : String) : Prop := '\n' ∉ s.toList ∧ s.toList.getLast? ≠ some '\r'

theorem linesFrom_append {line : List Char} (free : '\n' ∉ line) (front rest : List Char) :
    linesFrom front (line ++ rest) = linesFrom (line.reverse ++ front) rest := by
  induction line generalizing front with
  | nil => rfl
  | cons c line ih =>
    obtain ⟨other,later⟩ := not_or.mp (mt List.mem_cons.mpr free)
    simp [linesFrom,Ne.symm other,ih later]

theorem linesFrom_line {line : List Char} (free : '\n' ∉ line) (last : line.getLast? ≠ some '\r')
    (rest : List Char) : linesFrom [] (line ++ '\n' :: rest) = line :: linesFrom [] rest := by
  rw [linesFrom_append free, List.append_nil, ← List.reverse_reverse line, List.reverse_reverse line.reverse]
  rw [List.getLast?_eq_head?_reverse] at last
  match line.reverse, last with
  | [], _ => rfl
  | c :: front, last =>
    have other : c ≠ '\r' := fun same => last (congrArg some same)
    simp [linesFrom,other]

theorem ofLines_cons (l : String) (ls : List String) :
    (ofLines (l :: ls)).toList = l.toList ++ '\n' :: (ofLines ls).toList := by
  simp [ofLines]

/-- Lines are read as they were written. -/
theorem lines_ofLines {ls : List String} (all : ∀ l ∈ ls, IsLine l) : lines (ofLines ls) = ls := by
  have chars : linesFrom [] (ofLines ls).toList = ls.map String.toList := by
    induction ls with
    | nil => rfl
    | cons l rest ih =>
      obtain ⟨first,later⟩ := List.forall_mem_cons.mp all
      rw [ofLines_cons, linesFrom_line first.1 first.2, ih later]
      rfl
  rw [lines, chars]
  simp

theorem count_ofLines {ls : List String} (all : ∀ l ∈ ls, IsLine l) :
    (ofLines ls).toList.count '\n' = ls.length := by
  induction ls with
  | nil => rfl
  | cons l rest ih =>
    obtain ⟨first,later⟩ := List.forall_mem_cons.mp all
    rw [ofLines_cons, List.count_append, List.count_cons_self, List.count_eq_zero.mpr first.1, ih later,
      Nat.zero_add, List.length_cons]

end Text

/-! ## Labels -/

namespace DependencyGraph

/-- The characters of a label up to the quote that closes it, and what stands behind that quote. A
backslash takes the character behind it along. -/
def readLabel : List Char → Option (List Char × List Char)
  | [] => none
  | '"' :: rest => some ([],rest)
  | '\\' :: c :: rest => (readLabel rest).map fun p => ((if c = 'l' then '\n' else c) :: p.1,p.2)
  | c :: rest => (readLabel rest).map fun p => (c :: p.1,p.2)

/-- A label ends at the quote behind it and at none before. -/
theorem readLabel_escapeLabel (label rest : List Char) :
    readLabel (escapeLabel label ++ '"' :: rest) = some (label,rest) := by
  induction label with
  | nil => rfl
  | cons c label ih =>
    by_cases quote : c = '"'
    · subst quote
      simp [escapeLabel,readLabel,ih]
    · by_cases backslash : c = '\\'
      · subst backslash
        simp [escapeLabel,readLabel,ih]
      · by_cases feed : c = '\n'
        · subst feed
          simp [escapeLabel,readLabel,ih]
        · simp [escapeLabel,quote,backslash,feed,readLabel,ih]

theorem not_mem_escapeLabel (label : List Char) : '\n' ∉ escapeLabel label := by
  induction label with
  | nil => simp [escapeLabel]
  | cons c label ih =>
    by_cases special : c = '"' ∨ c = '\\'
    · rcases special with rfl | rfl <;> simp [escapeLabel,ih]
    · by_cases feed : c = '\n'
      · simp [escapeLabel,feed,ih]
      · simp [escapeLabel,special,feed,ih,Ne.symm feed]

/-- A line whose first quoted text is this label, from the first quote to the one that closes it, with
nothing but the closing bracket behind. -/
def Quotes (line label : String) : Prop :=
  ∃ front rest, line.toList = front ++ '"' :: rest ∧ '"' ∉ front ∧
    readLabel rest = some (label.toList,[' ',']'])

section Labelled

variable {subject subject' label label' : String}

theorem labelled_toList (subject label : String) :
    (labelled subject label).toList =
      ("    " ++ subject ++ " [ label = ").toList ++ '"' :: (escapeLabel label.toList ++ ['"',' ',']']) := by
  simp [labelled]

theorem labelled_quotes (plain : '"' ∉ subject.toList) : Quotes (labelled subject label) label := by
  refine ⟨_,_,labelled_toList subject label,?_,readLabel_escapeLabel ..⟩
  simpa using plain

theorem labelled_isLine (plain : '\n' ∉ subject.toList) : Text.IsLine (labelled subject label) := by
  constructor
  · rw [labelled_toList]
    simpa using ⟨plain,not_mem_escapeLabel label.toList⟩
  · have behind : (labelled subject label).toList =
        ("    " ++ subject ++ " [ label = \"").toList ++ escapeLabel label.toList ++ ['"',' '] ++ [']'] := by
      simp [labelled]
    rw [behind, List.getLast?_concat]
    decide

theorem before_labelled (plain : '"' ∉ subject.toList) :
    Text.before '"' (labelled subject label) = "    " ++ subject ++ " [ label = " := by
  rw [Text.before, labelled_toList, Text.takeWhile_until, String.ofList_toList]
  simpa using plain

/-- A line tells its subject and its label. -/
theorem labelled_inj (plain : '"' ∉ subject.toList) (plain' : '"' ∉ subject'.toList)
    (same : labelled subject label = labelled subject' label') : subject = subject' ∧ label = label' := by
  have fronts := congrArg (Text.before '"') same
  rw [before_labelled plain, before_labelled plain'] at fronts
  have subjects : subject = subject' := by
    simpa using fronts
  subst subjects
  have backs := congrArg String.toList same
  rw [labelled_toList, labelled_toList, List.append_cancel_left_eq, List.cons_inj_right] at backs
  have labels := congrArg readLabel backs
  rw [readLabel_escapeLabel, readLabel_escapeLabel] at labels
  exact ⟨rfl,String.toList_inj.mp (Prod.ext_iff.mp (Option.some.inj labels)).1⟩

end Labelled

/-! ## Subjects -/

theorem not_mem_decimal {c : Char} (other : c.isDigit = false) (n : Nat) : c ∉ (Text.decimal n).toList := by
  intro member
  rw [Text.decimal, Nat.toList_repr] at member
  exact absurd (Nat.isDigit_of_mem_toDigits (by decide) (by decide) member) (by simp [other])

theorem decimal_inj {n n' : Nat} (same : Text.decimal n = Text.decimal n') : n = n' := by
  have digits := congrArg String.toList same
  rw [Text.decimal, Text.decimal, Nat.toList_repr, Nat.toList_repr] at digits
  simpa using congrArg (Nat.ofDigitChars 10 · 0) digits

def arrow (l : Link) : String := Text.decimal l.source ++ " -> " ++ Text.decimal l.target

theorem not_mem_arrow {c : Char} (other : c.isDigit = false) (l : Link) (free : c ∉ " -> ".toList) :
    c ∉ (arrow l).toList := by
  simp only [arrow,String.toList_append,List.mem_append,not_or]
  exact ⟨⟨not_mem_decimal other _,free⟩,not_mem_decimal other _⟩

theorem arrow_inj {l l' : Link} (same : arrow l = arrow l') : l.source = l'.source ∧ l.target = l'.target := by
  have sources : Text.decimal l.source = Text.decimal l'.source := by
    have fronts := congrArg (Text.before ' ') same
    simpa [Text.before,arrow,Text.takeWhile_until,not_mem_decimal] using fronts
  have targets : Text.decimal l.target = Text.decimal l'.target := by
    rw [arrow, arrow, sources] at same
    simpa using same
  exact ⟨decimal_inj sources,decimal_inj targets⟩

/-! ## Kinds -/

theorem label_inj {k k' : DependencyKind} (same : k.label = k'.label) : k = k' := by
  revert same
  cases k <;> cases k' <;> decide

theorem label_ne_empty (k : DependencyKind) : k.label ≠ "" := by
  cases k <;> decide

theorem comma_not_mem_label (k : DependencyKind) : ',' ∉ k.label.toList := by
  cases k <;> decide

theorem splitOn_kindsLabel {kinds : List DependencyKind} (some : kinds ≠ []) :
    (kindsLabel kinds).toList.splitOn ',' = kinds.map fun k => k.label.toList := by
  rw [kindsLabel, String.toList_intercalate, List.map_map]
  refine List.splitOn_intercalate ',' ?_ (by simpa using some)
  intro label member
  obtain ⟨k,_,rfl⟩ := List.mem_map.mp member
  exact comma_not_mem_label k

theorem kindsLabel_eq_empty {kinds : List DependencyKind} (empty : kindsLabel kinds = "") : kinds = [] := by
  refine Classical.byContradiction fun some => ?_
  have labels := splitOn_kindsLabel some
  rw [empty] at labels
  match kinds with
  | [] => exact some rfl
  | k :: _ => exact label_ne_empty k (String.toList_eq_nil_iff.mp (List.cons.inj labels).1.symm)

/-- A list of kinds can be told from its label: no name of a kind is empty or has a comma in it. -/
theorem kindsLabel_inj {kinds kinds' : List DependencyKind} (same : kindsLabel kinds = kindsLabel kinds') :
    kinds = kinds' := by
  by_cases none : kinds = []
  · subst none
    exact (kindsLabel_eq_empty same.symm).symm
  · have none' : kinds' ≠ [] := by
      intro empty
      subst empty
      exact none (kindsLabel_eq_empty same)
    have labels := splitOn_kindsLabel none
    rw [same, splitOn_kindsLabel none'] at labels
    refine (List.map_inj_right ?_).mp labels.symm
    exact fun k k' chars => label_inj (String.toList_inj.mp chars)

/-! ## Lines of a graph -/

variable {g : DependencyGraph}

theorem linkLines_eq (g : DependencyGraph) :
    g.linkLines = g.links.map fun l => labelled (arrow l) (kindsLabel l.kinds) := rfl

theorem nodeLine_isLine {line : String} (member : line ∈ g.nodeLines) : Text.IsLine line := by
  obtain ⟨i,_,rfl⟩ := List.mem_mapIdx.mp member
  exact labelled_isLine (not_mem_decimal (by decide) i)

theorem linkLine_isLine {line : String} (member : line ∈ g.linkLines) : Text.IsLine line := by
  rw [linkLines_eq] at member
  obtain ⟨l,_,rfl⟩ := List.mem_map.mp member
  exact labelled_isLine (not_mem_arrow (by decide) l (by decide))

def dotLines (g : DependencyGraph) : List String :=
  "digraph \x7b" :: (g.nodeLines ++ g.linkLines) ++ ["\x7d"]

theorem isLine_of_mem_dotLines {line : String} (member : line ∈ g.dotLines) : Text.IsLine line := by
  simp only [dotLines,List.cons_append,List.mem_cons,List.mem_append,List.not_mem_nil,or_false] at member
  rcases member with rfl | (node | link) | rfl
  · exact ⟨by decide,by decide⟩
  · exact nodeLine_isLine node
  · exact linkLine_isLine link
  · exact ⟨by decide,by decide⟩

theorem dot_eq_ofLines (g : DependencyGraph) : g.dot = Text.ofLines g.dotLines := by
  have content : Text.lines g.content = g.nodeLines ++ g.linkLines := by
    apply Text.lines_ofLines
    intro line member
    apply isLine_of_mem_dotLines (g := g)
    rw [dotLines, List.cons_append]
    exact List.mem_cons_of_mem _ (List.mem_append_left _ member)
  rw [dot, content, dotLines]

/-- The text has the lines that were written, and no others. -/
theorem lines_dot (g : DependencyGraph) : Text.lines g.dot = g.dotLines := by
  rw [dot_eq_ofLines]
  exact Text.lines_ofLines fun _ => isLine_of_mem_dotLines

theorem length_dotLines (g : DependencyGraph) : g.dotLines.length = g.nodes.length + g.links.length + 2 := by
  simp only [dotLines,nodeLines,linkLines,List.length_append,List.length_cons,List.length_nil,
    List.length_mapIdx,List.length_map]

def isLinkLine (line : String) : Bool := (Text.before '"' line).toList.contains '>'

theorem isLinkLine_of_mem_nodeLines {line : String} (member : line ∈ g.nodeLines) :
    isLinkLine line = false := by
  obtain ⟨i,_,rfl⟩ := List.mem_mapIdx.mp member
  rw [isLinkLine, before_labelled (not_mem_decimal (by decide) i)]
  simp [not_mem_decimal]

theorem isLinkLine_of_mem_linkLines {line : String} (member : line ∈ g.linkLines) :
    isLinkLine line = true := by
  rw [linkLines_eq] at member
  obtain ⟨l,_,rfl⟩ := List.mem_map.mp member
  rw [isLinkLine, before_labelled (not_mem_arrow (by decide) l (by decide))]
  simp [arrow]

theorem filter_lines (g : DependencyGraph) :
    (g.nodeLines ++ g.linkLines).filter isLinkLine = g.linkLines := by
  rw [List.filter_append, List.filter_eq_nil_iff.mpr, List.filter_eq_self.mpr, List.nil_append]
  · exact fun line => isLinkLine_of_mem_linkLines
  · intro line member
    simp [isLinkLine_of_mem_nodeLines member]

/-- The text of a graph tells its lines for nodes from those for links. -/
theorem lines_inj {h : DependencyGraph} (same : g.dot = h.dot) :
    g.nodeLines = h.nodeLines ∧ g.linkLines = h.linkLines := by
  have all := congrArg Text.lines same
  rw [lines_dot, lines_dot, dotLines, dotLines, List.append_cancel_right_eq, List.cons_inj_right] at all
  have links := congrArg (List.filter isLinkLine) all
  rw [filter_lines, filter_lines] at links
  rw [links, List.append_cancel_right_eq] at all
  exact ⟨all,links⟩

theorem nodeLines_inj {h : DependencyGraph} (same : g.nodeLines = h.nodeLines) :
    g.nodes.map Prod.snd = h.nodes.map Prod.snd := by
  apply List.ext_getElem?
  intro i
  have lines := congrArg (·[i]?) same
  simp only [nodeLines,List.getElem?_mapIdx] at lines
  rw [List.getElem?_map, List.getElem?_map]
  match g.nodes[i]?, h.nodes[i]?, lines with
  | none, none, _ => rfl
  | some n, some m, lines =>
    have plain := not_mem_decimal (c := '"') (by decide) i
    exact congrArg some (labelled_inj plain plain (Option.some.inj lines)).2

theorem linkLines_inj {h : DependencyGraph} (same : g.linkLines = h.linkLines) : g.links = h.links := by
  rw [linkLines_eq, linkLines_eq] at same
  refine (List.map_inj_right ?_).mp same
  intro l l' lines
  obtain ⟨subjects,labels⟩ :=
    labelled_inj (not_mem_arrow (by decide) l (by decide)) (not_mem_arrow (by decide) l' (by decide)) lines
  obtain ⟨sources,targets⟩ := arrow_inj subjects
  have kinds := kindsLabel_inj labels
  cases l
  cases l'
  simp_all

theorem nodeLine_quotes {i : Nat} {n : String × String} (node : g.nodes[i]? = some n) :
    ∃ line, (Text.lines g.dot)[i + 1]? = some line ∧ Quotes line n.2 := by
  refine ⟨labelled (Text.decimal i) n.2,?_,labelled_quotes (not_mem_decimal (by decide) i)⟩
  have bound := (List.getElem?_eq_some_iff.mp node).1
  rw [lines_dot, dotLines, List.cons_append, List.getElem?_cons_succ, List.append_assoc, List.getElem?_append_left]
  · rw [nodeLines, List.getElem?_mapIdx, node]
    rfl
  · simpa [nodeLines] using bound

theorem linkLine_quotes {i : Nat} {l : Link} (link : g.links[i]? = some l) :
    ∃ line, (Text.lines g.dot)[g.nodes.length + i + 1]? = some line ∧ Quotes line (kindsLabel l.kinds) := by
  refine ⟨labelled (arrow l) (kindsLabel l.kinds),?_,
    labelled_quotes (not_mem_arrow (by decide) l (by decide))⟩
  have bound := (List.getElem?_eq_some_iff.mp link).1
  have nodes : g.nodeLines.length = g.nodes.length := List.length_mapIdx
  rw [lines_dot, dotLines, List.cons_append, List.getElem?_cons_succ, List.append_assoc, ← nodes,
    List.getElem?_append_right (Nat.le_add_right ..), Nat.add_sub_cancel_left, List.getElem?_append_left]
  · rw [linkLines_eq, List.getElem?_map, link]
    rfl
  · simpa [linkLines] using bound

/-- Two graphs with one text have the same labels and the same links. The text has a line for each node
and each link and two lines around them, and the quotes of a label, whatever characters it has, close
behind it and not before. -/
theorem dot_faithful :
    (∀ g h : DependencyGraph, g.dot = h.dot →
      g.nodes.map Prod.snd = h.nodes.map Prod.snd ∧ g.links = h.links) ∧
    ∀ g : DependencyGraph,
      (Text.lines g.dot).length = g.nodes.length + g.links.length + 2 ∧
      g.dot.toList.count '\n' = g.nodes.length + g.links.length + 2 ∧
      (∀ i n, g.nodes[i]? = some n →
        ∃ line, (Text.lines g.dot)[i + 1]? = some line ∧ Quotes line n.2) ∧
      ∀ i l, g.links[i]? = some l →
        ∃ line, (Text.lines g.dot)[g.nodes.length + i + 1]? = some line ∧
          Quotes line (kindsLabel l.kinds) := by
  refine ⟨?_,fun g => ⟨?_,?_,fun i n => nodeLine_quotes,fun i l => linkLine_quotes⟩⟩
  · intro g h same
    obtain ⟨nodes,links⟩ := lines_inj same
    exact ⟨nodeLines_inj nodes,linkLines_inj links⟩
  · rw [lines_dot, length_dotLines]
  · rw [dot_eq_ofLines, Text.count_ofLines fun _ => isLine_of_mem_dotLines, length_dotLines]

/-- The graph of a unit that refers in two ways to a type whose name has a quote, a backslash, a carriage
return and a line feed in it. -/
def awkwardGraph (package : String) : DependencyGraph :=
  let source := package ++ ".A"
  let target := package ++ ".\"\\\r\n"
  let edges : List Edge := [⟨source,target,.field,"",none⟩,⟨source,target,.importation,"",none⟩]
  units ⟨"t",[("g",⟨"g",[(source,⟨source,edges⟩)]⟩)]⟩

theorem dot_faithful_awkward :
    (awkwardGraph "p").nodes ≠ (awkwardGraph "q").nodes ∧ (awkwardGraph "p").dot = (awkwardGraph "q").dot ∧
    (awkwardGraph "p").nodes.map Prod.snd = (awkwardGraph "q").nodes.map Prod.snd ∧
    (awkwardGraph "p").links = (awkwardGraph "q").links ∧
    (Text.lines (awkwardGraph "p").dot).length = 5 ∧
    (∃ line, (Text.lines (awkwardGraph "p").dot)[2]? = some line ∧ Quotes line "\"\\\r\n") ∧
    ∃ line, (Text.lines (awkwardGraph "p").dot)[3]? = some line ∧ Quotes line "Field,Import" := by
  have same : (awkwardGraph "p").dot = (awkwardGraph "q").dot := rfl
  obtain ⟨labels,links⟩ := dot_faithful.1 _ _ same
  obtain ⟨lines,-,quotedNodes,quotedLinks⟩ := dot_faithful.2 (awkwardGraph "p")
  exact ⟨by decide,same,labels,links,lines,quotedNodes 1 _ rfl,quotedLinks 0 _ rfl⟩

end DependencyGraph

end Coupling
