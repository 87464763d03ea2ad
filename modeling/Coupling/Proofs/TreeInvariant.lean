import Coupling.Proofs.First
import Coupling.Proofs.Path
import Coupling.Proofs.SourceTree
import Mathlib.Data.List.Dedup
import Mathlib.Data.List.Induction

/-! What a tree is made of, after any units were added in any spelling. A unit is filed by its components
alone, under the directory that these say, so equal paths meet in one grouping, where the first of them
stays. -/
namespace Coupling.SourceTree

theorem ofUnits_concat (root : Path) (added : List Path) (unit : Path) :
    ofUnits root (added ++ [unit]) = (ofUnits root added).add unit := by
  simp [ofUnits]

/-! ## Units -/

theorem unitsIn_congr {directory directory' : Path} (same : directory.components = directory'.components)
    (t : SourceTree) : t.unitsIn directory = t.unitsIn directory' := by
  rw [unitsIn, unitsIn, Sorted.find?_congr (Path.compare_eq_iff.mpr same)]

/-- A unit is new unless an equal one was added before, which then is in the same directory. -/
theorem mem_units_add_iff {t : SourceTree} (ordered : t.Ordered)
    (placed : ∀ directory, ∀ u ∈ t.unitsIn directory,
      directory.components = (u.parent?.getD t.root).components) {unit u : Path} :
    u ∈ (t.add unit).units ↔
      u ∈ t.units ∨ (u = unit ∧ ∀ v ∈ t.units, v.components ≠ unit.components) := by
  constructor
  · intro member
    obtain ⟨directory,inside⟩ := (mem_units_iff (add_ordered ordered unit)).mp member
    rw [unitsIn_add] at inside
    split at inside
    · rename_i home
      rcases (Sorted.mem_add_iff_of_strict (unitsIn_strict ordered directory)).mp inside with old | ⟨rfl,new⟩
      · exact .inl ((mem_units_iff ordered).mpr ⟨_,old⟩)
      · refine .inr ⟨rfl,?_⟩
        intro v earlier same
        obtain ⟨other,there⟩ := (mem_units_iff ordered).mp earlier
        have beside : other.components = directory.components := calc
          other.components = (v.parent?.getD t.root).components := placed other v there
          _ = (u.parent?.getD t.root).components := Path.components_parent?_congr same t.root
          _ = directory.components := (Path.compare_eq_iff.mp home).symm
        rw [unitsIn_congr beside] at there
        exact new v there (Path.compare_eq_iff.mpr same.symm)
    · exact .inl ((mem_units_iff ordered).mpr ⟨_,inside⟩)
  · rintro (old | ⟨rfl,new⟩)
    · exact mem_units_add_of_mem ordered unit old
    · obtain ⟨v,there,equal⟩ := exists_equal_units_add ordered u
      rcases mem_of_mem_units_add ordered there with rfl | old
      · exact there
      · exact absurd (Path.compare_eq_iff.mp equal).symm (new v old)

section OfUnits

variable (root : Path) (added : List Path)

theorem placed_ofUnits (directory : Path) : ∀ u ∈ (ofUnits root added).unitsIn directory,
    directory.components = (u.parent?.getD root).components := by
  intro u member
  exact Path.compare_eq_iff.mp (mem_of_mem_unitsIn_ofUnits member).2

/-- Of equal paths the first one that is added becomes a unit. -/
theorem mem_units_ofUnits_iff (u : Path) : u ∈ (ofUnits root added).units ↔
    First (fun v => v.components = u.components) added u := by
  induction added using List.reverseRecOn with
  | nil => simp [ofUnits,empty,units,First]
  | append_singleton earlier unit ih =>
    have placed (directory : Path) : ∀ u ∈ (ofUnits root earlier).unitsIn directory,
        directory.components = (u.parent?.getD (ofUnits root earlier).root).components := by
      rw [root_ofUnits]
      exact placed_ofUnits root earlier directory
    rw [ofUnits_concat, mem_units_add_iff (ofUnits_ordered root earlier) placed, ih, first_concat_iff]
    refine or_congr_right (and_congr_right ?_)
    rintro rfl
    constructor
    · intro new
      refine ⟨rfl,fun v earlier same => ?_⟩
      obtain ⟨w,there,equal⟩ := exists_equal_ofUnits root earlier
      exact new w there ((Path.compare_eq_iff.mp equal).symm.trans same)
    · exact fun new v there => new.2 v (mem_of_mem_ofUnits there)

theorem components_mem_iff (c : List Component) :
    c ∈ (ofUnits root added).units.map Path.components ↔ c ∈ added.map Path.components := by
  simp only [List.mem_map]
  constructor
  · rintro ⟨u,there,rfl⟩
    exact ⟨u,mem_of_mem_ofUnits there,rfl⟩
  · rintro ⟨u,member,rfl⟩
    obtain ⟨v,there,equal⟩ := exists_equal_ofUnits root member
    exact ⟨v,there,(Path.compare_eq_iff.mp equal).symm⟩

theorem filled_ofUnits : ∀ g ∈ (ofUnits root added).groupings, g.2 ≠ [] := by
  rintro ⟨directory,us⟩ entry
  have units : (ofUnits root added).unitsIn directory = us := by
    rw [unitsIn, Sorted.find?_of_mem (ofUnits_ordered root added).directories entry]
    rfl
  obtain ⟨unit,member,parent⟩ := mem_of_mem_directories_ofUnits (List.mem_map_of_mem entry)
  have inside : compare directory (unit.parent?.getD root) = .eq := by
    rw [parent]
    exact Std.ReflOrd.compare_self
  obtain ⟨u,there,-⟩ := exists_equal_unitsIn_ofUnits member inside
  rw [units] at there
  exact List.ne_nil_of_mem there

theorem grouping_placed : ∀ g ∈ (ofUnits root added).groupings, ∀ u ∈ g.2,
    g.1.components = (u.parent?.getD root).components := by
  rintro ⟨directory,us⟩ entry u member
  apply placed_ofUnits root added
  rwa [unitsIn, Sorted.find?_of_mem (ofUnits_ordered root added).directories entry]

theorem components_ne_of_lt {p q : Path} (less : compare p q = .lt) : p.components ≠ q.components := by
  intro same
  rw [Path.compare_eq_iff.mpr same] at less
  cases less

/-- Units of one directory are in order, and those of different directories have different parents. -/
theorem units_distinct : (ofUnits root added).units.Pairwise fun u v => u.components ≠ v.components := by
  have ordered := ofUnits_ordered root added
  apply List.pairwise_flatMap.mpr
  constructor
  · intro g entry
    exact (ordered.units g entry).imp components_ne_of_lt
  · refine List.Pairwise.imp_of_mem ?_ (List.pairwise_map.mp ordered.directories)
    intro g g' entry entry' less u member v member' same
    apply components_ne_of_lt less
    calc
      g.1.components = (u.parent?.getD root).components := grouping_placed root added g entry u member
      _ = (v.parent?.getD root).components := Path.components_parent?_congr same root
      _ = g'.1.components := (grouping_placed root added g' entry' v member').symm

theorem unitCount_ofUnits : (ofUnits root added).unitCount = (added.map Path.components).dedup.length := by
  have distinct : ((ofUnits root added).units.map Path.components).Nodup :=
    List.pairwise_map.mpr (units_distinct root added)
  have perm : ((ofUnits root added).units.map Path.components).Perm (added.map Path.components).dedup := by
    apply (List.perm_ext_iff_of_nodup distinct (List.nodup_dedup _)).mpr
    intro c
    rw [List.mem_dedup, components_mem_iff]
  rw [unitCount, ← perm.length_eq, List.length_map]

end OfUnits

/-! ## Spellings -/

/-- A tree without the spellings of its paths. -/
def shape (t : SourceTree) : List (List Component × List (List Component)) :=
  t.groupings.map fun g => (g.1.components,g.2.map Path.components)

theorem compare_components (p q : Path) : compare p.components q.components = compare p q :=
  (Path.compare_eq_compareOn p q).symm

theorem strict_components {ps : List Path} (strict : Sorted.Strict ps) :
    Sorted.Strict (ps.map Path.components) := by
  apply List.pairwise_map.mpr
  refine strict.imp ?_
  intro p q less
  rwa [compare_components]

theorem shape_strict {t : SourceTree} (ordered : t.Ordered) : Sorted.Strict (t.shape.map Prod.fst) := by
  have keys : t.shape.map Prod.fst = t.directories.map Path.components := by
    simp [shape,directories]
  rw [keys]
  exact strict_components ordered.directories

theorem mem_shape_iff {t : SourceTree} (ordered : t.Ordered) {c : List Component}
    {us : List (List Component)} : (c,us) ∈ t.shape ↔
      ∃ directory ∈ t.directories, directory.components = c ∧
        (t.unitsIn directory).map Path.components = us := by
  rw [shape, groupings_eq ordered, List.map_map]
  simp

theorem mem_components_unitsIn_iff {root directory : Path} {added : List Path} {c : List Component} :
    c ∈ ((ofUnits root added).unitsIn directory).map Path.components ↔
      ∃ u ∈ added, u.components = c ∧ directory.components = (u.parent?.getD root).components := by
  simp only [List.mem_map]
  constructor
  · rintro ⟨u,there,rfl⟩
    obtain ⟨member,inside⟩ := mem_of_mem_unitsIn_ofUnits there
    exact ⟨u,member,rfl,Path.compare_eq_iff.mp inside⟩
  · rintro ⟨u,member,rfl,inside⟩
    obtain ⟨v,there,equal⟩ := exists_equal_unitsIn_ofUnits member (Path.compare_eq_iff.mpr inside)
    exact ⟨v,there,(Path.compare_eq_iff.mp equal).symm⟩

section Congruence

variable {root : Path} {added others : List Path}

theorem exists_respelled (root : Path)
    (same : ∀ c, c ∈ others.map Path.components ↔ c ∈ added.map Path.components) {u : Path}
    (member : u ∈ others) :
    ∃ v ∈ added, v.components = u.components ∧
      (v.parent?.getD root).components = (u.parent?.getD root).components := by
  obtain ⟨v,there,equal⟩ := List.mem_map.mp ((same _).mp (List.mem_map_of_mem member))
  exact ⟨v,there,equal,Path.components_parent?_congr equal root⟩

theorem unitsIn_components_congr
    (same : ∀ c, c ∈ others.map Path.components ↔ c ∈ added.map Path.components)
    {directory directory' : Path} (alike : directory'.components = directory.components) :
    ((ofUnits root others).unitsIn directory').map Path.components =
      ((ofUnits root added).unitsIn directory).map Path.components := by
  apply (strict_components (unitsIn_strict (ofUnits_ordered root others) directory')).eq_of_mem_iff
    (strict_components (unitsIn_strict (ofUnits_ordered root added) directory))
  intro c
  rw [mem_components_unitsIn_iff, mem_components_unitsIn_iff, alike]
  constructor
  · rintro ⟨u,member,rfl,inside⟩
    obtain ⟨v,there,equal,beside⟩ := exists_respelled root same member
    exact ⟨v,there,equal,inside.trans beside.symm⟩
  · rintro ⟨u,member,rfl,inside⟩
    obtain ⟨v,there,equal,beside⟩ := exists_respelled root (fun c => (same c).symm) member
    exact ⟨v,there,equal,inside.trans beside.symm⟩

theorem mem_shape_of_mem (same : ∀ c, c ∈ others.map Path.components ↔ c ∈ added.map Path.components)
    {c : List Component} {us : List (List Component)} (entry : (c,us) ∈ (ofUnits root others).shape) :
    (c,us) ∈ (ofUnits root added).shape := by
  obtain ⟨directory,listed,rfl,rfl⟩ := (mem_shape_iff (ofUnits_ordered root others)).mp entry
  obtain ⟨u,member,rfl⟩ := mem_of_mem_directories_ofUnits listed
  obtain ⟨v,there,-,beside⟩ := exists_respelled root same member
  obtain ⟨directory,listed',equal⟩ := exists_equal_directories_ofUnits root there
  have alike := beside.symm.trans (Path.compare_eq_iff.mp equal)
  refine (mem_shape_iff (ofUnits_ordered root added)).mpr ⟨directory,listed',alike.symm,?_⟩
  exact (unitsIn_components_congr same alike).symm

/-- Paths with the same components make the same tree, but for the spellings. -/
theorem shape_congr (same : ∀ c, c ∈ others.map Path.components ↔ c ∈ added.map Path.components) :
    (ofUnits root others).shape = (ofUnits root added).shape := by
  have strict := shape_strict (ofUnits_ordered root others)
  have strict' := shape_strict (ofUnits_ordered root added)
  apply Sorted.ext strict strict'
  intro c
  apply Option.ext
  intro us
  rw [Sorted.find?_eq_some_iff strict, Sorted.find?_eq_some_iff strict']
  exact ⟨mem_shape_of_mem same,mem_shape_of_mem fun c => (same c).symm⟩

end Congruence

theorem unitsIn_ofUnits_concat (root : Path) (added : List Path) (unit : Path) :
    (ofUnits root (added ++ [unit])).unitsIn (unit.parent?.getD root) =
      Sorted.add unit ((ofUnits root added).unitsIn (unit.parent?.getD root)) := by
  rw [ofUnits_concat, unitsIn_add, root_ofUnits, if_pos Std.ReflOrd.compare_self]

/-- After any units were added to an empty tree, in any spelling: its directories differ in their components,
each has units, in order, and is the parent of these. The units are the added paths, each once and as it was
spelled first. Another order of adding changes spellings alone. -/
theorem tree_invariant (root : Path) (added : List Path) :
    (ofUnits root added).directories.Pairwise (fun d d' => d.components ≠ d'.components) ∧
    (∀ g ∈ (ofUnits root added).groupings, g.2 ≠ [] ∧ g.2.Pairwise (fun u v => compare u v = .lt) ∧
      ∀ u ∈ g.2, g.1.components = (u.parent?.getD root).components) ∧
    (∀ u, u ∈ (ofUnits root added).units ↔ First (fun v => v.components = u.components) added u) ∧
    (∀ c, c ∈ (ofUnits root added).units.map Path.components ↔ c ∈ added.map Path.components) ∧
    (ofUnits root added).units.Pairwise (fun u v => u.components ≠ v.components) ∧
    (ofUnits root added).unitCount = (added.map Path.components).dedup.length ∧
    (∀ unit, (∃ u ∈ (ofUnits root added).unitsIn (unit.parent?.getD root), u.components = unit.components) →
      (ofUnits root (added ++ [unit])).unitsIn (unit.parent?.getD root) =
        (ofUnits root added).unitsIn (unit.parent?.getD root)) ∧
    (∀ unit lower upper, (ofUnits root added).unitsIn (unit.parent?.getD root) = lower ++ upper →
      (∀ u ∈ lower, compare u unit = .lt) → (∀ u ∈ upper, compare unit u = .lt) →
      (ofUnits root (added ++ [unit])).unitsIn (unit.parent?.getD root) = lower ++ unit :: upper) ∧
    ∀ others : List Path, others.Perm added → (ofUnits root others).root = (ofUnits root added).root ∧
      (ofUnits root others).shape = (ofUnits root added).shape := by
  have ordered := ofUnits_ordered root added
  refine ⟨ordered.directories.imp components_ne_of_lt,?_,mem_units_ofUnits_iff root added,
    components_mem_iff root added,units_distinct root added,unitCount_ofUnits root added,?_,?_,?_⟩
  · intro g entry
    exact ⟨filled_ofUnits root added g entry,ordered.units g entry,grouping_placed root added g entry⟩
  · rintro unit ⟨u,there,same⟩
    rw [unitsIn_ofUnits_concat]
    exact Sorted.add_equal (unitsIn_strict ordered _) there (Path.compare_eq_iff.mpr same.symm)
  · intro unit lower upper units below above
    rw [unitsIn_ofUnits_concat, units]
    exact Sorted.add_between below above
  · intro others perm
    refine ⟨?_,shape_congr fun c => (perm.map _).mem_iff⟩
    rw [root_ofUnits, root_ofUnits]

def respelled : List Path := [⟨"a//b"⟩,⟨""⟩,⟨"./a"⟩,⟨"a/b/"⟩]

/-- A third spelling is found, another path without a parent has its place, and the other order of adding
keeps the other spelling. -/
theorem tree_invariant_respelled :
    (ofUnits ⟨"r"⟩ respelled).groupings =
      [(⟨"."⟩,[⟨"./a"⟩]),(⟨"a"⟩,[⟨"a//b"⟩]),(⟨"r"⟩,[⟨""⟩])] ∧
    (ofUnits ⟨"r"⟩ (respelled ++ [⟨"a/./b"⟩])).unitsIn ⟨"a"⟩ = [⟨"a//b"⟩] ∧
    (ofUnits ⟨"r"⟩ (respelled ++ [⟨"/"⟩])).unitsIn ⟨"r"⟩ = [⟨""⟩,⟨"/"⟩] ∧
    respelled.reverse.Perm respelled ∧
    (ofUnits ⟨"r"⟩ respelled.reverse).shape = (ofUnits ⟨"r"⟩ respelled).shape ∧
    (ofUnits ⟨"r"⟩ respelled.reverse).unitsIn ⟨"a"⟩ = [⟨"a/b/"⟩] := by
  have perm : respelled.reverse.Perm respelled := List.reverse_perm respelled
  obtain ⟨-,-,-,-,-,-,found,between,orders⟩ := tree_invariant ⟨"r"⟩ respelled
  refine ⟨by decide +kernel,?_,?_,perm,(orders _ perm).2,by decide +kernel⟩
  · exact found ⟨"a/./b"⟩ ⟨⟨"a//b"⟩,by decide +kernel,by decide +kernel⟩
  · exact between ⟨"/"⟩ [⟨""⟩] [] (by decide +kernel) (by decide +kernel) (by simp)

end Coupling.SourceTree
