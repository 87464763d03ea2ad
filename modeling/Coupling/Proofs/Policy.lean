import Coupling.Command.Arguments
import Coupling.Proofs.Classification

/-! What a change of policy does to a report. A further prefix takes edges out of it, whichever way it is
given, and imports put edges of their own kind into it; all other edges stay as they are. -/
namespace Coupling

namespace Text

theorem startsWith_iff {s start : String} : startsWith s start = true ↔ start.toList <+: s.toList :=
  List.isPrefixOf_iff_prefix

end Text

/-! ## Prefixes -/

namespace Policy

variable {p q : Policy} {s start : String}

theorem exclude_empty (p : Policy) : p.exclude "" = p := rfl

theorem exclude_of_ne (p : Policy) (nonempty : s ≠ "") :
    p.exclude s = { p with prefixes := Sorted.add s p.prefixes } := by
  have filled : s.isEmpty = false := by simpa using nonempty
  simp [exclude,filled]

@[simp] theorem exclude_includeImports (p : Policy) (s : String) :
    (p.exclude s).includeImports = p.includeImports := by
  unfold exclude
  split <;> rfl

theorem mem_exclude : start ∈ (p.exclude s).prefixes ↔ (start = s ∧ s ≠ "") ∨ start ∈ p.prefixes := by
  by_cases nonempty : s = ""
  · subst nonempty
    simp [exclude_empty]
  · simp [exclude_of_ne p nonempty,nonempty]

theorem exclude_strict (strict : Sorted.Strict p.prefixes) (s : String) :
    Sorted.Strict (p.exclude s).prefixes := by
  unfold exclude
  split
  · exact strict
  · exact Sorted.add_strict strict

/-- A further prefix is a further reason to leave a target out, and the only one. -/
theorem admits_exclude (p : Policy) (nonempty : s ≠ "") (target unitName : String) :
    (p.exclude s).admits target unitName = true ↔
      p.admits target unitName = true ∧ ¬s.toList <+: target.toList := by
  have any : (p.exclude s).prefixes.any (Text.startsWith target) =
      (Text.startsWith target s || p.prefixes.any (Text.startsWith target)) := by
    rw [Bool.eq_iff_iff]
    simp only [List.any_eq_true,Bool.or_eq_true,mem_exclude,or_and_right,exists_or,and_assoc]
    simp [nonempty]
  rw [← Text.startsWith_iff, Bool.not_eq_true]
  simp only [admits,any,Bool.and_eq_true,Bool.not_eq_true',Bool.or_eq_false_iff]
  constructor
  · rintro ⟨⟨type,free,others⟩,foreign⟩
    exact ⟨⟨⟨type,others⟩,foreign⟩,free⟩
  · rintro ⟨⟨⟨type,others⟩,foreign⟩,free⟩
    exact ⟨⟨type,free,others⟩,foreign⟩

/-! ## Lists of prefixes -/

theorem ofPrefixes_concat (starts : List String) (s : String) (imports : Bool) :
    ofPrefixes (starts ++ [s]) imports = (ofPrefixes starts imports).exclude s := by
  simp [ofPrefixes]

section

variable (starts : List String) (imports : Bool)

@[simp] theorem ofPrefixes_includeImports : (ofPrefixes starts imports).includeImports = imports := by
  have kept : ∀ p : Policy, (starts.foldl exclude p).includeImports = p.includeImports := by
    induction starts with
    | nil => exact fun p => rfl
    | cons s rest ih => exact fun p => (ih (p.exclude s)).trans (exclude_includeImports p s)
  exact kept _

theorem ofPrefixes_strict : Sorted.Strict (ofPrefixes starts imports).prefixes := by
  have kept : ∀ p : Policy, Sorted.Strict p.prefixes → Sorted.Strict (starts.foldl exclude p).prefixes := by
    induction starts with
    | nil => exact fun p strict => strict
    | cons s rest ih => exact fun p strict => ih (p.exclude s) (exclude_strict strict s)
  exact kept _ .nil

theorem mem_ofPrefixes : start ∈ (ofPrefixes starts imports).prefixes ↔ start ∈ starts ∧ start ≠ "" := by
  have grown : ∀ p : Policy, start ∈ (starts.foldl exclude p).prefixes ↔
      (start ∈ starts ∧ start ≠ "") ∨ start ∈ p.prefixes := by
    induction starts with
    | nil => exact fun p => by simp
    | cons s rest ih =>
      intro p
      rw [List.foldl_cons, ih, mem_exclude, List.mem_cons]
      constructor
      · rintro (⟨later,nonempty⟩ | ⟨rfl,nonempty⟩ | old)
        · exact .inl ⟨.inr later,nonempty⟩
        · exact .inl ⟨.inl rfl,nonempty⟩
        · exact .inr old
      · rintro (⟨rfl | later,nonempty⟩ | old)
        · exact .inr (.inl ⟨rfl,nonempty⟩)
        · exact .inl ⟨later,nonempty⟩
        · exact .inr (.inr old)
  exact (grown _).trans (by simp)

end

/-- A policy is its prefixes and whether imports count. -/
theorem eq_of_strict (left : Sorted.Strict p.prefixes) (right : Sorted.Strict q.prefixes)
    (same : ∀ start, start ∈ p.prefixes ↔ start ∈ q.prefixes)
    (imports : p.includeImports = q.includeImports) : p = q := by
  obtain ⟨prefixes,includeImports⟩ := p
  obtain ⟨prefixes',includeImports'⟩ := q
  cases imports
  cases left.eq_of_mem_iff right same
  rfl

/-- Neither the order of prefixes nor how often one is given matters, and empty ones do not count. -/
theorem ofPrefixes_congr {starts starts' : List String}
    (same : ∀ start ≠ "", start ∈ starts ↔ start ∈ starts') (imports : Bool) :
    ofPrefixes starts imports = ofPrefixes starts' imports := by
  refine eq_of_strict (ofPrefixes_strict ..) (ofPrefixes_strict ..) (fun start => ?_) (by simp)
  rw [mem_ofPrefixes, mem_ofPrefixes]
  exact and_congr_left fun nonempty => same start nonempty

theorem ofPrefixes_insert (before after : List String) (s : String) (imports : Bool) :
    ofPrefixes (before ++ s :: after) imports = (ofPrefixes (before ++ after) imports).exclude s := by
  rw [← ofPrefixes_concat]
  refine ofPrefixes_congr (fun start _ => ?_) imports
  simp only [List.mem_append,List.mem_cons,List.not_mem_nil,or_false]
  constructor
  · rintro (inFront | rfl | behind)
    · exact .inl (.inl inFront)
    · exact .inr rfl
    · exact .inl (.inr behind)
  · rintro ((inFront | behind) | rfl)
    · exact .inl inFront
    · exact .inr (.inr behind)
    · exact .inr (.inl rfl)

theorem ofPrefixes_withImports (starts : List String) (imports imports' : Bool) :
    ofPrefixes starts imports' = { ofPrefixes starts imports with includeImports := imports' } := by
  refine eq_of_strict (ofPrefixes_strict ..) (ofPrefixes_strict starts imports) (fun start => ?_) (by simp)
  simp only [mem_ofPrefixes]

end Policy

/-! ## Ways to give a prefix -/

theorem Config.policy_insert (c : Config) (before after : List String) (s : String) :
    Config.policy { c with excludedPrefixes := before ++ s :: after } =
      (Config.policy { c with excludedPrefixes := before ++ after }).exclude s :=
  Policy.ofPrefixes_insert ..

namespace Overrides

/-- Prefixes have no part in what makes a configuration valid. -/
theorem validated_policy {c c' : Config} (same : c.fault? = c'.fault?) {f : Config → Policy}
    (policy : c.policy = f c') : c.validated.map Config.policy = c'.validated.map f := by
  simp only [Config.validated,Config.validate,same]
  cases c'.fault? with
  | none => simpa [Except.map] using policy
  | some reason => rfl

/-- What holds of the policies of all configurations holds of those that are resolved; and the errors are
the same. -/
theorem resolve_policy {o o' : Overrides} (file : o.config = o'.config) {f : Config → Policy}
    (same : ∀ c, (o.apply c).fault? = (o'.apply c).fault?)
    (policy : ∀ c, (o.apply c).policy = f (o'.apply c)) (files : FileSystem) :
    (o.resolve files).map Config.policy = (o'.resolve files).map f := by
  unfold resolve
  rw [file]
  cases o'.config with
  | none => exact validated_policy (same _) (policy _)
  | some path =>
    simp only
    cases Config.ofFile files path with
    | error e => rfl
    | ok c => exact validated_policy (same c) (policy c)

theorem resolve_insert (files : FileSystem) (o : Overrides) (before after : List String) (s : String) :
    (resolve files { o with exclude := before ++ s :: after }).map Config.policy =
      (resolve files { o with exclude := before ++ after }).map fun c => c.policy.exclude s := by
  apply resolve_policy
  · rfl
  · intro c
    rfl
  · intro c
    simp only [apply,← List.append_assoc]
    exact Policy.ofPrefixes_insert ..

theorem resolve_imports (files : FileSystem) (o : Overrides) :
    (resolve files { o with includeImports := true }).map Config.policy =
      (resolve files { o with includeImports := false }).map fun c =>
        { c.policy with includeImports := true } := by
  apply resolve_policy
  · rfl
  · intro c
    rfl
  · intro c
    exact Policy.ofPrefixes_withImports ..

end Overrides

def Invocation.excluding (s : String) : Invocation → Invocation
  | .analyze target format overrides =>
    .analyze target format { overrides with exclude := s :: overrides.exclude }
  | .version => .version
  | .help => .help

namespace Given

def excluding (s : String) (g : Given) : Given :=
  { g with overrides := { g.overrides with exclude := s :: g.overrides.exclude } }

variable (s : String) (g : Given)

theorem addPath_excluding (text : String) :
    (g.excluding s).addPath text = (g.addPath text).map (excluding s) := by
  simp only [addPath,apply_ite (Option.map (excluding s)),Option.map_map]
  rfl

theorem addPaths_excluding (texts : List String) :
    (g.excluding s).addPaths texts = (g.addPaths texts).map (excluding s) := by
  induction texts generalizing g with
  | nil => rfl
  | cons text rest ih =>
    simp only [addPaths,addPath_excluding]
    cases g.addPath text with
    | none => rfl
    | some g => exact ih g

theorem addFlag_excluding (switch : Switch) :
    (g.excluding s).addFlag switch = (g.addFlag switch).map (excluding s) := by
  cases switch <;> simp only [addFlag,apply_ite (Option.map (excluding s))] <;> rfl

theorem addValue_excluding (value : String) (switch : Switch) :
    (g.excluding s).addValue value switch = (g.addValue value switch).map (excluding s) := by
  cases switch <;> simp only [addValue,apply_ite (Option.map (excluding s)),Option.map_map] <;> rfl

/-- A prefix that is there before the arguments are read stays in front of those that they give. -/
theorem addAll_excluding (args : List String) :
    (g.excluding s).addAll args = (g.addAll args).map (excluding s) := by
  fun_induction addAll g args with
  | case1 g => rfl
  | case2 g arg rest written =>
    simp only [addAll,written]
    exact addPaths_excluding s g rest
  | case3 g arg rest text written ih =>
    simp only [addAll,written,addPath_excluding,Option.bind_map,Option.map_bind,Function.comp_def,ih]
  | case4 g arg rest letters written help =>
    simp only [addAll,written,help,if_true]
    rfl
  | case5 g arg rest letters written other => simp [addAll,written,other]
  | case6 g arg rest name value written unknown => simp [addAll,written,unknown]
  | case7 g arg name switch known rest flag written ih =>
    simp only [addAll,written,known,flag,addFlag_excluding,Option.bind_map,Option.map_bind,Function.comp_def,
      ih,apply_ite (Option.map (excluding s))]
    rfl
  | case8 g arg rest name switch known value flag written => simp [addAll,written,known,flag]
  | case9 g arg name switch known value rest takes written ih =>
    simp only [addAll,written,known,takes,addValue_excluding,Option.bind_map,Option.map_bind,
      Function.comp_def,ih]
  | case10 g arg name switch known takes written => simp [addAll,written,known,takes]
  | case11 g arg name switch known value rest takes text plain written ih =>
    simp only [addAll,written,known,takes,plain,addValue_excluding,Option.bind_map,Option.map_bind,
      Function.comp_def,ih]
  | case12 g arg name switch known value rest takes notPlain written =>
    simp [addAll,written,known,takes]

end Given

theorem ofText_exclude (s : String) : Argument.ofText ("--exclude=" ++ s) = .long "exclude" (some s) := by
  have characters : ("--exclude=" ++ s).toList =
      ['-','-','e','x','c','l','u','d','e','='] ++ s.toList := String.toList_append
  unfold Argument.ofText
  rw [characters]
  simp [splitValue]

/-- The option behind the command puts its prefix in front of all others, and has no other effect. -/
theorem Invocation.ofArguments?_exclude (first s : String) (rest : List String) :
    ofArguments? (first :: ("--exclude=" ++ s) :: rest) =
      (ofArguments? (first :: rest)).map (excluding s) := by
  have given : Given.nothing.addAll (("--exclude=" ++ s) :: rest) =
      (Given.nothing.addAll rest).map (Given.excluding s) := by
    rw [← Given.addAll_excluding]
    simp only [Given.addAll,ofText_exclude]
    rfl
  have command (target : Path → Target) : ofCommand target (("--exclude=" ++ s) :: rest) =
      (ofCommand target rest).map (excluding s) := by
    rw [ofCommand, ofCommand, given, Option.bind_map, Option.map_bind]
    congr 1
    funext g
    simp only [Function.comp,apply_ite (Option.map (excluding s)),Option.map_map]
    rfl
  simp only [ofArguments?,command]
  split
  case h_6 => simp only [Option.map_bind,Function.comp_def]
  all_goals rfl

/-! ## The report under another policy -/

section Report

variable {resolve : Resolver} {policy : Policy} {o : Outline} {unitName : String}

theorem emits_exclude {s : String} (nonempty : s ≠ "") {bound : List String} {m : Mention} {e : Edge} :
    Emits resolve (policy.exclude s) unitName bound m e ↔
      Emits resolve policy unitName bound m e ∧ ¬s.toList <+: e.target.toList := by
  constructor
  · rintro ⟨named,free,admitted,rfl⟩
    obtain ⟨admitted,other⟩ := (Policy.admits_exclude policy nonempty ..).mp admitted
    exact ⟨⟨named,free,admitted,rfl⟩,other⟩
  · rintro ⟨⟨named,free,admitted,rfl⟩,other⟩
    exact ⟨named,free,(Policy.admits_exclude policy nonempty ..).mpr ⟨admitted,other⟩,rfl⟩

/-- The same mentions are met under both policies, so an edge is missing only if its target is excluded. -/
theorem edges_exclude {s : String} (nonempty : s ≠ "") :
    (classify resolve (policy.exclude s) o unitName).edges =
      (classify resolve policy o unitName).edges.filter fun e => ¬s.toList <+: e.target.toList := by
  refine (edges_strict ..).eq_of_mem_iff ((edges_strict ..).filter _) fun e => ?_
  simp only [List.mem_filter,mem_edges_iff,emits_exclude nonempty,Policy.exclude_includeImports,
    decide_eq_true_eq,exists_and_right,← and_assoc]

theorem edges_exclude_comm (s s' : String) :
    (classify resolve ((policy.exclude s).exclude s') o unitName).edges =
      (classify resolve ((policy.exclude s').exclude s) o unitName).edges := by
  by_cases first : s = ""
  · rw [first, Policy.exclude_empty, Policy.exclude_empty]
  · by_cases second : s' = ""
    · rw [second, Policy.exclude_empty, Policy.exclude_empty]
    · simp only [edges_exclude first,edges_exclude second,List.filter_filter,Bool.and_comm]

theorem edges_exclude_self (s : String) :
    (classify resolve ((policy.exclude s).exclude s) o unitName).edges =
      (classify resolve (policy.exclude s) o unitName).edges := by
  by_cases empty : s = ""
  · rw [empty, Policy.exclude_empty]
  · simp only [edges_exclude empty,List.filter_filter,Bool.and_self]

theorem mem_edges_imports_iff {e : Edge} (imports : Bool) :
    e ∈ (classify resolve { policy with includeImports := imports } o unitName).edges ↔
      (imports = true ∧ ∃ m ∈ o.importMentions, Emits resolve policy unitName [] m e) ∨
        ∃ bound m, Found o.declarations bound m ∧ Emits resolve policy unitName bound m e := by
  rw [mem_edges_iff]
  constructor
  · rintro ⟨bound,m,⟨rfl,included,member⟩ | found,emits⟩
    · exact .inl ⟨included,m,member,emits⟩
    · exact .inr ⟨bound,m,found,emits⟩
  · rintro (⟨included,m,member,emits⟩ | ⟨bound,m,found,emits⟩)
    · exact ⟨[],m,.inl ⟨rfl,included,member⟩,emits⟩
    · exact ⟨bound,m,.inr found,emits⟩

/-- Only imports make edges of their kind, and they make no others. -/
theorem edges_imports :
    (classify resolve { policy with includeImports := false } o unitName).edges =
      (classify resolve { policy with includeImports := true } o unitName).edges.filter
        fun e => e.kind ≠ .importation := by
  refine (edges_strict ..).eq_of_mem_iff ((edges_strict ..).filter _) fun e => ?_
  simp only [List.mem_filter,mem_edges_imports_iff,decide_eq_true_eq]
  constructor
  · rintro (⟨off,-⟩ | ⟨bound,m,found,emits⟩)
    · cases off
    · exact ⟨.inr ⟨bound,m,found,emits⟩,emits.kind ▸ found.kind_ne⟩
  · rintro ⟨⟨-,m,member,emits⟩ | declared,other⟩
    · obtain ⟨i,-,-,-,rfl⟩ := mem_importMentions.mp member
      exact absurd emits.kind other
    · exact .inr declared

end Report

/-- However a prefix is given, it takes those edges out of a report whose targets begin with it and leaves
the others. An empty one has no effect, and neither has the order of prefixes or the repetition of one. With
imports a report has further edges of that kind and no other difference. -/
theorem policy_changes_filter (resolve : Resolver) (policy : Policy) (o : Outline) (unitName : String) :
    let edges := fun policy => (classify resolve policy o unitName).edges
    (∀ s ≠ "", edges (policy.exclude s) =
      (edges policy).filter fun e => ¬s.toList <+: e.target.toList) ∧
    policy.exclude "" = policy ∧
    (∀ s s', edges ((policy.exclude s).exclude s') = edges ((policy.exclude s').exclude s)) ∧
    (∀ s, edges ((policy.exclude s).exclude s) = edges (policy.exclude s)) ∧
    edges { policy with includeImports := false } =
      (edges { policy with includeImports := true }).filter (fun e => e.kind ≠ .importation) ∧
    (∀ starts starts' imports, (∀ s ≠ "", s ∈ starts ↔ s ∈ starts') →
      Policy.ofPrefixes starts imports = Policy.ofPrefixes starts' imports) ∧
    (∀ (c : Config) before s after,
      Config.policy { c with excludedPrefixes := before ++ s :: after } =
        (Config.policy { c with excludedPrefixes := before ++ after }).exclude s) ∧
    (∀ (c : Config) imports,
      Config.policy { c with includeImports := imports } = { c.policy with includeImports := imports }) ∧
    (∀ files (given : Overrides) before s after,
      (Overrides.resolve files { given with exclude := before ++ s :: after }).map Config.policy =
        (Overrides.resolve files { given with exclude := before ++ after }).map fun c => c.policy.exclude s) ∧
    (∀ files (given : Overrides),
      (Overrides.resolve files { given with includeImports := true }).map Config.policy =
        (Overrides.resolve files { given with includeImports := false }).map fun c =>
          { c.policy with includeImports := true }) ∧
    ∀ command s args,
      Invocation.ofArguments? (command :: ("--exclude=" ++ s) :: args) =
        (Invocation.ofArguments? (command :: args)).map (Invocation.excluding s) := by
  refine ⟨fun s nonempty => edges_exclude nonempty,policy.exclude_empty,edges_exclude_comm,
    edges_exclude_self,edges_imports,fun starts starts' imports same => Policy.ofPrefixes_congr same imports,
    fun c before s after => c.policy_insert before after s,
    fun c imports => Policy.ofPrefixes_withImports ..,
    fun files given before s after => given.resolve_insert files before after s,
    fun files given => given.resolve_imports files,Invocation.ofArguments?_exclude⟩

def twoFields : Outline :=
  ⟨some "p",[⟨"org.junit.Test",false,false,some 2⟩],
    [.type ⟨.ordinary,"A",some 3,[],[],[]⟩
      [.field ⟨"org.junit.Rule",some 4⟩ [⟨"r",some 4⟩],.field ⟨"q.B",some 5⟩ [⟨"b",some 5⟩]]]⟩

theorem policy_changes_filter_twoFields :
    let edges := fun policy => (classify (fun _ => none) policy twoFields "p.A").edges
    let policy : Policy := ⟨["java."],true⟩
    edges policy =
      [⟨"p.A","org.junit.Rule",.field,"org.junit.Rule r",some 4⟩,
        ⟨"p.A","org.junit.Test",.importation,"import org.junit.Test",some 2⟩,
        ⟨"p.A","q.B",.field,"q.B b",some 5⟩] ∧
    edges (policy.exclude "org.") = [⟨"p.A","q.B",.field,"q.B b",some 5⟩] ∧
    Policy.ofPrefixes ["org.","","java.","org."] true = Policy.ofPrefixes ["java.","org."] true := by
  obtain ⟨filtered,-,-,-,-,lists,-⟩ := policy_changes_filter (fun _ => none) ⟨["java."],true⟩ twoFields "p.A"
  refine ⟨rfl,(filtered "org." (by decide)).trans rfl,?_⟩
  refine lists _ _ true fun s nonempty => ?_
  simp only [List.mem_cons,List.not_mem_nil,or_false,nonempty,false_or]
  exact ⟨fun given => given.elim .inr id,.inr⟩

end Coupling
