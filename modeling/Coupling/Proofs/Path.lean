import Coupling.FileSystem
import Coupling.Proofs.Order
import Coupling.Proofs.Text

/-! Where a path leads is said by its components other than `.`, in whichever way they are written. -/
namespace Coupling

/-- A text that can be the name of an entry in a directory. -/
def isEntryName (name : String) : Bool :=
  !name.isEmpty && name != "." && name != ".." && !name.toList.contains '/'

def Component.name? : Component → Option String
  | .normal name => some name
  | _ => none

namespace Path

/-! ## Parts -/

/-- Paths are split as any list is at a separator. -/
theorem splitChars_eq (cs : List Char) : splitChars cs = cs.splitOn '/' := by
  induction cs with
  | nil => rfl
  | cons c rest ih =>
    obtain ⟨part,parts,found⟩ := List.exists_cons_of_ne_nil (List.splitOn_ne_nil '/' rest)
    rw [splitChars, List.splitOn_cons_eq_if_modifyHead, ih, found]
    rfl

theorem splitChars_ne_nil (cs : List Char) : splitChars cs ≠ [] := by
  rw [splitChars_eq]
  exact List.splitOn_ne_nil '/' cs

theorem splitChars_append (front back : List Char) :
    splitChars (front ++ '/' :: back) = splitChars front ++ splitChars back := by
  simp only [splitChars_eq,List.splitOn_append_cons_self]

theorem splitChars_of_not_mem {cs : List Char} (free : '/' ∉ cs) : splitChars cs = [cs] := by
  rw [splitChars_eq, List.splitOn_eq_singleton free]

theorem not_mem_of_mem_splitChars {cs part : List Char} (member : part ∈ splitChars cs) :
    '/' ∉ part := by
  rw [splitChars_eq, List.splitOn_eq_splitOnP] at member
  intro separator
  simpa using Text.forall_not_of_mem_splitOnP member '/' separator

theorem splitChars_eq_empty_iff {cs : List Char} : splitChars cs = [[]] ↔ cs = [] := by
  cases cs with
  | nil => simp [splitChars]
  | cons c rest =>
    obtain ⟨part,parts,found⟩ := List.exists_cons_of_ne_nil (splitChars_ne_nil rest)
    simp only [splitChars,found]
    split <;> simp

theorem parts_ne_nil (p : Path) : p.parts ≠ [] := by
  simpa [parts] using splitChars_ne_nil p.text.toList

theorem parts_eq_empty_iff {p : Path} : p.parts = [""] ↔ p.text = "" := by
  have empty (part : List Char) : String.ofList part = "" ↔ part = [] := by
    rw [← String.toList_inj]
    simp
  simp only [parts,List.map_eq_singleton_iff,empty,exists_eq_right,splitChars_eq_empty_iff]
  rw [← String.toList_inj]
  rfl

theorem parts_append (front back : String) :
    parts ⟨front ++ "/" ++ back⟩ = parts ⟨front⟩ ++ parts ⟨back⟩ := by
  simp [parts,splitChars_append]

theorem parts_of_not_mem {text : String} (free : '/' ∉ text.toList) : parts ⟨text⟩ = [text] := by
  simp [parts,splitChars_of_not_mem free]

theorem not_mem_of_mem_parts {p : Path} {part : String} (member : part ∈ p.parts) :
    '/' ∉ part.toList := by
  obtain ⟨cs,inside,rfl⟩ := List.mem_map.mp member
  simpa using not_mem_of_mem_splitChars inside

theorem parts_ofParts {first : String} {rest : List String}
    (free : ∀ part ∈ first :: rest, '/' ∉ part.toList) :
    (ofParts (first :: rest)).parts = first :: rest := by
  induction rest generalizing first with
  | nil => simpa [ofParts] using parts_of_not_mem (free first (by simp))
  | cons second rest ih =>
    have later := ih fun part member => free part (List.mem_cons_of_mem _ member)
    rw [ofParts, String.intercalate_cons_cons, parts_append, parts_of_not_mem (free first (by simp))]
    exact congrArg (first :: ·) later

/-! ## Routes -/

/-- The components that lead somewhere. -/
def route (p : Path) : List Component := p.components.filter (· != .current)

def partSteps (part : String) : List Component :=
  if part.isEmpty then [] else if part == "." then [.current] else [componentOf part]

/-- The steps for the parts of a path, which is absolute if the first of them is empty. -/
def stepsOf : List String → List Component
  | [] => []
  | first :: rest => (if first.isEmpty then [.root] else partSteps first) ++ rest.flatMap partSteps

theorem componentOf_ne_current (part : String) : componentOf part ≠ .current := by
  unfold componentOf
  split <;> simp

theorem filter_partSteps (part : String) : (partSteps part).filter (· != .current) =
    if isVoid part then [] else [componentOf part] := by
  by_cases empty : part.isEmpty
  · simp [partSteps,isVoid,empty]
  · by_cases dot : part = "."
    · simp [partSteps,isVoid,dot]
    · simp [partSteps,isVoid,empty,dot,componentOf_ne_current]

theorem filter_flatMap_partSteps (parts : List String) :
    (parts.flatMap partSteps).filter (· != .current) =
      (parts.filter (!isVoid ·)).map componentOf := by
  induction parts with
  | nil => rfl
  | cons part rest ih =>
    rw [List.flatMap_cons, List.filter_append, ih, filter_partSteps]
    by_cases void : isVoid part <;> simp [void]

theorem stepsOf_append {front : List String} (some : front ≠ []) (back : List String) :
    stepsOf (front ++ back) = stepsOf front ++ back.flatMap partSteps := by
  obtain ⟨first,rest,rfl⟩ := List.exists_cons_of_ne_nil some
  simp [stepsOf]

theorem filter_map_componentOf (parts : List String) :
    (parts.map componentOf).filter (· != .current) = parts.map componentOf := by
  refine List.filter_eq_self.mpr ?_
  intro c member
  obtain ⟨part,-,rfl⟩ := List.mem_map.mp member
  simpa using componentOf_ne_current part

theorem route_of_parts {p : Path} (written : p.text ≠ "") :
    p.route = (stepsOf p.parts).filter (· != .current) := by
  obtain ⟨first,rest,parts⟩ := List.exists_cons_of_ne_nil p.parts_ne_nil
  have others := filter_map_componentOf (rest.filter (!isVoid ·))
  rw [parts, stepsOf, List.filter_append, filter_flatMap_partSteps]
  simp only [route,components,parts]
  generalize (rest.filter (!isVoid ·)).map componentOf = others at *
  by_cases absolute : first = ""
  · have more : rest ≠ [] := fun none => written (parts_eq_empty_iff.mp (by simp [parts,absolute,none]))
    simp [absolute,more,others]
  · by_cases dot : first = "."
    · simp [dot,partSteps,others]
    · simp [absolute,dot,partSteps,componentOf_ne_current,others]

theorem steps_of_parts {p : Path} {first : String} {rest : List String} (parts : p.parts = first :: rest)
    (written : p.text ≠ "") : p.steps = stepsOf (first :: rest) ++
      (if rest.getLast? = some "" then [.current] else []) := by
  have more : first = "" → rest ≠ [] := by
    rintro rfl rfl
    exact written (parts_eq_empty_iff.mp parts)
  have steps : p.steps = (if first.isEmpty && !rest.isEmpty then [.root] else partSteps first) ++
      rest.flatMap partSteps ++ (if rest.getLast? == some "" then [.current] else []) := by
    simp only [Path.steps,parts]
    rfl
  rw [steps, stepsOf]
  by_cases absolute : first = ""
  · simp [absolute,more absolute]
  · simp [absolute]

/-- Looking a path up takes the steps of its route, besides those that stay where they are. -/
theorem filter_steps (p : Path) : p.steps.filter (· != .current) = p.route := by
  by_cases written : p.text = ""
  · cases p
    subst written
    rfl
  · obtain ⟨first,rest,parts⟩ := List.exists_cons_of_ne_nil p.parts_ne_nil
    rw [steps_of_parts parts written, route_of_parts written, parts, List.filter_append]
    split <;> simp

theorem components_tail {p : Path} : ∀ c ∈ p.components.tail, c ≠ .current := by
  obtain ⟨first,rest,parts⟩ := List.exists_cons_of_ne_nil p.parts_ne_nil
  have others : ∀ c ∈ (rest.filter (!isVoid ·)).map componentOf, c ≠ .current := by
    intro c member
    obtain ⟨part,-,rfl⟩ := List.mem_map.mp member
    exact componentOf_ne_current part
  simp only [components,parts]
  split
  · split
    · simp
    · exact others
  · split <;> exact others

/-- A path ends in a name exactly if its route does. -/
theorem fileName?_eq_some_iff {p : Path} {name : String} :
    p.fileName? = some name ↔ p.route.getLast? = some (.normal name) := by
  have last : p.fileName? = some name ↔ p.components.getLast? = some (.normal name) := by
    unfold fileName?
    split
    · rename_i found
      simp [found]
    · rename_i none
      simp only [reduceCtorEq,false_iff]
      exact none name
  rw [last, route]
  have tail := p.components_tail
  cases found : p.components with
  | nil => simp
  | cons c rest =>
    rw [found] at tail
    have same : rest.filter (· != .current) = rest := List.filter_eq_self.mpr (by simpa using tail)
    by_cases dot : c = .current
    · subst dot
      rw [List.filter_cons_of_neg (by simp), same]
      cases rest <;> simp
    · rw [List.filter_cons_of_pos (by simpa using dot), same]

theorem names_eq (p : Path) : p.names = p.route.filterMap Component.name? := by
  have names : p.names = p.components.filterMap Component.name? := rfl
  rw [names, route, List.filterMap_filter]
  congr 1
  funext c
  cases c <;> rfl

/-- A file has the names of every directory that stands where its own does, and then its name. -/
theorem names_of_above {d p : Path} {name : String} (above : d.route = p.route.dropLast)
    (file : p.fileName? = some name) : p.names = d.names ++ [name] := by
  obtain ⟨front,route⟩ := List.getLast?_eq_some_iff.mp (fileName?_eq_some_iff.mp file)
  rw [names_eq, names_eq, above, route]
  simp [Component.name?]

def componentsOf : List String → List Component
  | [] => []
  | first :: rest =>
    (if first.isEmpty then .root else if first == "." then .current else componentOf first) ::
      (rest.filter (!isVoid ·)).map componentOf

theorem componentsOf_append {front : List String} (some : front ≠ []) (back : List String) :
    componentsOf (front ++ back) = componentsOf front ++ (back.filter (!isVoid ·)).map componentOf := by
  obtain ⟨first,rest,rfl⟩ := List.exists_cons_of_ne_nil some
  simp [componentsOf]

theorem components_of_parts {p : Path} (written : p.text ≠ "") : p.components = componentsOf p.parts := by
  obtain ⟨first,rest,parts⟩ := List.exists_cons_of_ne_nil p.parts_ne_nil
  have more : first = "" → rest ≠ [] := by
    rintro rfl rfl
    exact written (parts_eq_empty_iff.mp parts)
  simp only [components,parts,componentsOf]
  by_cases absolute : first = ""
  · simp [absolute,more absolute]
  · by_cases dot : first = "." <;> simp [absolute,dot]

/-! ## Joined paths -/

section EntryName

variable {name : String}

theorem not_mem_of_isEntryName (named : isEntryName name) : '/' ∉ name.toList := by
  simp only [isEntryName,Bool.and_eq_true] at named
  simpa using named.2

theorem ne_empty_of_isEntryName (named : isEntryName name) : name ≠ "" := by
  rintro rfl
  cases named

theorem isVoid_of_isEntryName (named : isEntryName name) : isVoid name = false := by
  simp only [isEntryName,Bool.and_eq_true] at named
  simp_all [isVoid]

theorem componentOf_of_isEntryName (named : isEntryName name) : componentOf name = .normal name := by
  simp only [isEntryName,Bool.and_eq_true] at named
  simp_all [componentOf]

theorem partSteps_of_isEntryName (named : isEntryName name) : partSteps name = [.normal name] := by
  simp only [isEntryName,Bool.and_eq_true] at named
  simp_all [partSteps,componentOf]

def body (p : Path) : List String :=
  if p.text.isEmpty then [] else if Text.endsWith p.text "/" then p.parts.dropLast else p.parts

theorem parts_of_endsWith {p : Path} (ends : Text.endsWith p.text "/") :
    ∃ front, p.text = front ++ "/" ∧ p.parts = parts ⟨front⟩ ++ [""] := by
  obtain ⟨front,written⟩ := Text.eq_append_of_endsWith ends
  refine ⟨front,written,?_⟩
  have split := parts_append front ""
  rw [String.append_empty, ← written] at split
  exact split

/-- What is joined to a path is written behind its body. -/
theorem parts_join_relative (d : Path) {p : Path} (relative : p.isAbsolute = false) :
    (d.join p).parts = d.body ++ p.parts := by
  simp only [join,relative,body]
  by_cases empty : d.text = ""
  · simp [empty]
  · by_cases ends : Text.endsWith d.text "/"
    · obtain ⟨front,text,parts⟩ := parts_of_endsWith ends
      rw [text] at ends
      simp [text,ends,parts,parts_append]
    · simp [empty,ends,parts_append]

theorem isAbsolute_of_not_mem {name : String} (free : '/' ∉ name.toList) :
    isAbsolute ⟨name⟩ = false := by
  rw [isAbsolute, Text.startsWith, Bool.eq_false_iff]
  intro starts
  exact free ((List.isPrefixOf_iff_prefix.mp starts).subset (List.mem_cons_self ..))

theorem parts_join (p : Path) (named : isEntryName name) : (p.join ⟨name⟩).parts = p.body ++ [name] := by
  have free := not_mem_of_isEntryName named
  rw [parts_join_relative p (isAbsolute_of_not_mem free), parts_of_not_mem free]

theorem filter_stepsOf_body (p : Path) : (stepsOf p.body).filter (· != .current) = p.route := by
  by_cases empty : p.text = ""
  · cases p
    subst empty
    rfl
  · rw [route_of_parts empty]
    by_cases ends : Text.endsWith p.text "/"
    · obtain ⟨front,-,parts⟩ := parts_of_endsWith ends
      simp [body,empty,ends,parts,stepsOf_append (parts_ne_nil ⟨front⟩),partSteps]
    · simp [body,empty,ends]

theorem body_ne_nil {p : Path} (written : p.text ≠ "") : p.body ≠ [] := by
  by_cases ends : Text.endsWith p.text "/"
  · obtain ⟨front,-,parts⟩ := parts_of_endsWith ends
    simp [body,written,ends,parts,parts_ne_nil]
  · simp [body,written,ends,parts_ne_nil]

theorem not_mem_of_mem_body {p : Path} {part : String} (member : part ∈ p.body) : '/' ∉ part.toList := by
  apply not_mem_of_mem_parts (p := p)
  unfold body at member
  split at member
  · cases member
  · split at member
    · exact (List.dropLast_sublist _).mem member
    · exact member

theorem components_body (p : Path) : p.components = componentsOf p.body := by
  by_cases empty : p.text = ""
  · cases p
    subst empty
    rfl
  · rw [components_of_parts empty]
    by_cases ends : Text.endsWith p.text "/"
    · obtain ⟨front,-,parts⟩ := parts_of_endsWith ends
      simp [body,empty,ends,parts,componentsOf_append (parts_ne_nil ⟨front⟩),isVoid]
    · simp [body,empty,ends]

theorem text_join_ne (p : Path) (named : isEntryName name) : (p.join ⟨name⟩).text ≠ "" := by
  intro empty
  have some := ne_empty_of_isEntryName named
  have parts := parts_eq_empty_iff.mpr empty
  rw [parts_join p named] at parts
  cases body : p.body <;> simp_all

theorem steps_join (p : Path) (named : isEntryName name) :
    (p.join ⟨name⟩).steps = stepsOf p.body ++ [.normal name] := by
  have parts := parts_join p named
  have written := text_join_ne p named
  have step := partSteps_of_isEntryName named
  have some := ne_empty_of_isEntryName named
  cases body : p.body with
  | nil =>
    rw [body] at parts
    simp [steps_of_parts parts written,stepsOf,some,step]
  | cons first rest =>
    rw [body] at parts
    rw [steps_of_parts parts written]
    simp [stepsOf,some,step]

/-- A path begins with an empty part only if it is absolute. -/
theorem first_ne_of_relative {p : Path} (relative : p.isAbsolute = false) (written : p.text ≠ "")
    {first : String} {rest : List String} (parts : p.parts = first :: rest) : first ≠ "" := by
  obtain ⟨c,cs,text⟩ : ∃ c cs, p.text.toList = c :: cs := by
    apply List.exists_cons_of_ne_nil
    exact fun none => written (String.toList_eq_nil_iff.mp none)
  obtain ⟨part,others,found⟩ := List.exists_cons_of_ne_nil (splitChars_ne_nil cs)
  have separator : c ≠ '/' := by
    rintro rfl
    simp [isAbsolute,Text.startsWith,text] at relative
  simp only [Path.parts,text,splitChars,found] at parts
  rw [if_neg (by simpa using separator)] at parts
  obtain ⟨rfl,-⟩ := List.cons.inj parts
  simp [← String.toList_inj]

theorem route_of_relative {p : Path} (relative : p.isAbsolute = false) :
    p.route = (p.parts.filter (!isVoid ·)).map componentOf := by
  by_cases written : p.text = ""
  · cases p
    subst written
    rfl
  · obtain ⟨first,rest,parts⟩ := List.exists_cons_of_ne_nil p.parts_ne_nil
    have some := first_ne_of_relative relative written parts
    rw [← filter_flatMap_partSteps, route_of_parts written, parts, stepsOf, List.flatMap_cons,
      if_neg (by simpa using some)]

/-- The route of a relative path goes on behind that of the directory. -/
theorem route_join_relative (d : Path) {p : Path} (relative : p.isAbsolute = false) :
    (d.join p).route = d.route ++ p.route := by
  by_cases empty : d.text = ""
  · have same : d.join p = p := by simp [join,relative,empty]
    cases d
    subst empty
    rw [same]
    rfl
  · have written : (d.join p).text ≠ "" := by
      simp only [join,relative,Bool.false_eq_true,if_false]
      split <;> simp [empty]
    rw [route_of_parts written, parts_join_relative d relative, stepsOf_append (body_ne_nil empty),
      List.filter_append, filter_stepsOf_body, filter_flatMap_partSteps, route_of_relative relative]

theorem route_join (p : Path) (named : isEntryName name) :
    (p.join ⟨name⟩).route = p.route ++ [.normal name] := by
  have free := not_mem_of_isEntryName named
  rw [route_join_relative p (isAbsolute_of_not_mem free), route_of_relative (isAbsolute_of_not_mem free),
    parts_of_not_mem free]
  simp [isVoid_of_isEntryName named,componentOf_of_isEntryName named]

theorem components_join (p : Path) (named : isEntryName name) :
    (p.join ⟨name⟩).components = p.components ++ [.normal name] := by
  have void := isVoid_of_isEntryName named
  have component := componentOf_of_isEntryName named
  rw [components_of_parts (text_join_ne p named), parts_join p named, components_body]
  cases p.body with
  | nil =>
    have dot : name ≠ "." := fun same => by simp [same,isVoid] at void
    simp [componentsOf,ne_empty_of_isEntryName named,dot,component]
  | cons first rest => simp [componentsOf,void,component]

theorem fileName?_join (p : Path) (named : isEntryName name) :
    (p.join ⟨name⟩).fileName? = some name := by
  simp [fileName?_eq_some_iff,route_join p named]

theorem names_join (p : Path) (named : isEntryName name) :
    (p.join ⟨name⟩).names = p.names ++ [name] := by
  simp [names_eq,route_join p named,Component.name?]

end EntryName

/-! ## Parents -/

/-- Parts up to the void ones at their end, which do not count for the route. -/
theorem eq_append_voids (parts : List String) : ∃ voids : List String,
    parts = (parts.reverse.dropWhile isVoid).reverse ++ voids ∧ voids.filter (!isVoid ·) = [] := by
  refine ⟨(parts.reverse.takeWhile isVoid).reverse,?_,?_⟩
  · rw [← List.reverse_append, List.takeWhile_append_dropWhile, List.reverse_reverse]
  · have all := List.all_eq_true.mp (List.all_takeWhile (p := isVoid) (l := parts.reverse))
    refine List.filter_eq_nil_iff.mpr ?_
    intro part member
    simp [all part (List.mem_reverse.mp member)]

section OfParts

variable {first : String} {rest : List String}

theorem text_ofParts_ne (some : ¬(first = "" ∧ rest = []))
    (free : ∀ part ∈ first :: rest, '/' ∉ part.toList) : (ofParts (first :: rest)).text ≠ "" := by
  intro empty
  cases (parts_ofParts free).symm.trans (parts_eq_empty_iff.mpr empty)
  exact some ⟨rfl,rfl⟩

theorem components_ofParts (some : ¬(first = "" ∧ rest = []))
    (free : ∀ part ∈ first :: rest, '/' ∉ part.toList) :
    (ofParts (first :: rest)).components = componentsOf (first :: rest) := by
  rw [components_of_parts (text_ofParts_ne some free), parts_ofParts free]

end OfParts

theorem componentsOf_stripped (first : String) (rest : List String) :
    componentsOf (first :: (rest.reverse.dropWhile isVoid).reverse) = componentsOf (first :: rest) := by
  obtain ⟨voids,split,none⟩ := eq_append_voids rest
  generalize (rest.reverse.dropWhile isVoid).reverse = kept at split
  rw [split, ← List.cons_append, componentsOf_append (by simp), none, List.map_nil, List.append_nil]

/-- Whatever is joined to a path has the same parent, which has the components of the path. -/
theorem parent?_join (p : Path) : ∃ d : Path, d.components = p.components ∧
    ∀ name, isEntryName name → (p.join ⟨name⟩).parent? = some d := by
  rw [components_body]
  cases body : p.body with
  | nil =>
    refine ⟨⟨""⟩,rfl,?_⟩
    intro name named
    simp [parent?,parts_join p named,body,ne_empty_of_isEntryName named]
  | cons first rest =>
    let kept := (rest.reverse.dropWhile isVoid).reverse
    refine ⟨if first.isEmpty && kept.isEmpty then ⟨"/"⟩ else ofParts (first :: kept),?_,?_⟩
    · rw [← componentsOf_stripped first rest]
      have free : ∀ part ∈ first :: kept, '/' ∉ part.toList := by
        intro part member
        apply not_mem_of_mem_body (p := p)
        rw [body]
        refine List.cons_subset_cons first ?_ member
        intro part inside
        exact List.mem_reverse.mp ((List.dropWhile_sublist isVoid).mem (List.mem_reverse.mp inside))
      split
      · rename_i top
        obtain ⟨absolute,bare⟩ : first = "" ∧ kept = [] := by simpa using top
        change _ = componentsOf (first :: kept)
        rw [absolute, bare]
        rfl
      · rename_i solid
        exact components_ofParts (by simpa using solid) free
    · intro name named
      have last : (rest ++ [name]).reverse.dropWhile isVoid = name :: rest.reverse := by
        simp [isVoid_of_isEntryName named]
      simp only [parent?,parts_join p named,body,List.cons_append,last]
      rw [apply_ite some]

/-- The last part that counts ends the components. -/
theorem componentsOf_append_last {front inner voids : List String} {last : String} (some : front ≠ [])
    (innerNone : inner.filter (!isVoid ·) = []) (counts : isVoid last = false)
    (none : voids.filter (!isVoid ·) = []) :
    componentsOf (front ++ (inner ++ last :: voids)) = componentsOf front ++ [componentOf last] := by
  rw [componentsOf_append some]
  simp [innerNone,none,counts]

/-- The components of a parent, which the root and the empty path do not have. -/
def upward : List Component → Option (List Component)
  | [] => none
  | [.root] => none
  | cs => some cs.dropLast

theorem upward_concat {front : List Component} (some : front ≠ []) (last : Component) :
    upward (front ++ [last]) = .some front := by
  obtain ⟨first,rest,rfl⟩ := List.exists_cons_of_ne_nil some
  rw [upward, List.dropLast_concat]
  · simp
  · simp

/-- The parent is decided by the components of a path, in whichever way these are written. -/
theorem parent?_map_components (p : Path) : p.parent?.map components = upward p.components := by
  by_cases written : p.text = ""
  · cases p
    subst written
    rfl
  · obtain ⟨first,rest,parts⟩ := List.exists_cons_of_ne_nil p.parts_ne_nil
    obtain ⟨voids,split,none⟩ := eq_append_voids rest
    rw [components_of_parts written, parts]
    simp only [parent?,parts]
    cases solid : rest.reverse.dropWhile isVoid with
    | nil =>
      rw [solid, List.reverse_nil, List.nil_append] at split
      rw [componentsOf, split, none]
      by_cases absolute : first = ""
      · simp [absolute,upward]
      · by_cases dot : first = "."
        · simp [dot,upward]
          rfl
        · have bare : upward [componentOf first] = some [] := by
            unfold componentOf
            split <;> rfl
          simp [absolute,dot,bare]
          rfl
    | cons last front =>
      rw [solid] at split
      have counts : isVoid last = false := by
        simpa [solid] using List.head?_dropWhile_not isVoid rest.reverse
      obtain ⟨inner,frontSplit,innerNone⟩ := eq_append_voids front.reverse
      rw [List.reverse_reverse] at frontSplit
      dsimp only
      generalize (front.dropWhile isVoid).reverse = kept at frontSplit ⊢
      have whole : first :: rest = (first :: kept) ++ (inner ++ last :: voids) := by
        rw [split, List.reverse_cons, frontSplit]
        simp
      rw [whole, componentsOf_append_last (by simp) innerNone counts none, upward_concat (by simp [componentsOf])]
      by_cases top : first = "" ∧ kept = []
      · obtain ⟨rfl,rfl⟩ := top
        rfl
      · have free : ∀ part ∈ first :: kept, '/' ∉ part.toList := by
          intro part member
          apply not_mem_of_mem_parts (p := p)
          rw [parts, whole]
          exact List.mem_append_left _ member
        rw [if_neg (by simpa using top), Option.map_some, components_ofParts top free]

theorem eq_dropLast_of_upward {cs above : List Component} (up : upward cs = some above) :
    above = cs.dropLast := by
  unfold upward at up
  split at up
  · cases up
  · cases up
  · exact (Option.some.inj up).symm

/-- The parent has all of the route but its end. -/
theorem route_parent? {p d : Path} (up : p.parent? = some d) : d.route = p.route.dropLast := by
  have above := p.parent?_map_components
  rw [up, Option.map_some] at above
  have tail := p.components_tail
  rw [route, route, eq_dropLast_of_upward above.symm]
  cases found : p.components with
  | nil => rfl
  | cons c rest =>
    rw [found, List.tail_cons] at tail
    have kept : rest.filter (· != .current) = rest := List.filter_eq_self.mpr (by simpa using tail)
    by_cases single : rest = []
    · by_cases dot : c = .current <;> simp [single,dot]
    · have others : rest.dropLast.filter (· != .current) = rest.dropLast :=
        List.filter_eq_self.mpr (by simpa using fun c member => tail c ((List.dropLast_sublist rest).mem member))
      rw [List.dropLast_cons_of_ne_nil single]
      by_cases dot : c = .current
      · simp [dot,kept,others]
      · simp [dot,kept,others,List.dropLast_cons_of_ne_nil single]

theorem route_of_parent?_eq_none {p : Path} (top : p.parent? = none) : p.route.dropLast = [] := by
  have above := p.parent?_map_components
  rw [top, Option.map_none] at above
  unfold upward at above
  split at above
  · rename_i none
    simp [route,none]
  · rename_i root
    simp [route,root]
  · cases above

/-- Paths with the same components have the same directory, if they have any. -/
theorem components_parent?_congr {p q : Path} (same : p.components = q.components) (top : Path) :
    (p.parent?.getD top).components = (q.parent?.getD top).components := by
  have parents : p.parent?.map components = q.parent?.map components := by
    rw [parent?_map_components, parent?_map_components, same]
  rw [← Option.getD_map components, ← Option.getD_map components, parents]

end Path

end Coupling
