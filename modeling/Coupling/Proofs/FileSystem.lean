import Coupling.Proofs.Path

/-! Looking paths up. A directory is found under every path with the same route, and an entry of it under
its name joined to any of them. -/
namespace Coupling

/-! ## Names of entries -/

mutual

/-- Whether the entries of all directories in the tree have names that can stand in a path. -/
def FileTree.wellNamed : FileTree → Bool
  | .file _ _ => true
  | .link _ _ => true
  | .directory _ es => wellNamedAll es

def wellNamedAll : List FileTree → Bool
  | [] => true
  | e :: es => isEntryName e.name && e.wellNamed && wellNamedAll es

end

namespace FileTree

theorem wellNamedAll_mem {es : List FileTree} (named : wellNamedAll es) {e : FileTree}
    (member : e ∈ es) : isEntryName e.name ∧ e.wellNamed := by
  induction es with
  | nil => cases member
  | cons first rest ih =>
    simp only [wellNamedAll,Bool.and_eq_true] at named
    rcases List.mem_cons.mp member with rfl | later
    · exact named.1
    · exact ih named.2 later

theorem wellNamed_entry {t e : FileTree} (named : t.wellNamed) (member : e ∈ t.entries) :
    isEntryName e.name ∧ e.wellNamed := by
  cases t with
  | file _ _ => cases member
  | link _ _ => cases member
  | directory _ es =>
    have all : wellNamedAll es := by simpa [wellNamed] using named
    exact wellNamedAll_mem all member

theorem wellNamed_at? {t u : FileTree} {place : List String} (named : t.wellNamed)
    (found : t.at? place = some u) : u.wellNamed := by
  induction place generalizing t with
  | nil =>
    cases found
    exact named
  | cons name rest ih =>
    obtain ⟨child,entry,below⟩ := Option.bind_eq_some_iff.mp found
    exact ih (wellNamed_entry named (List.mem_of_find?_eq_some entry)).2 below

end FileTree

namespace FileSystem

/-! ## Walks -/

section Walk

variable {root : FileTree} {expand : List String → Path → Except FileError (List String)}

theorem walk_append (place : List String) (front back : List Component) :
    walk root expand place (front ++ back) =
      (walk root expand place front).bind fun middle => walk root expand middle back := by
  induction front generalizing place with
  | nil => rfl
  | cons step rest ih =>
    simp only [List.cons_append,walk]
    split
    · cases step with
      | root => exact ih _
      | current => exact ih _
      | parent => exact ih _
      | normal name =>
        dsimp only
        split
        · rfl
        · split
          · rfl
          · exact ih _
        · exact ih _
    · rfl
    · rfl

def DirectoryAt (root : FileTree) (place : List String) : Prop :=
  ∃ name entries, root.at? place = some (.directory name entries)

theorem DirectoryAt.of_walk {place target : List String} {steps : List Component}
    (directory : DirectoryAt root target) (walked : walk root expand place steps = .ok target) :
    DirectoryAt root place := by
  cases steps with
  | nil =>
    cases walked
    exact directory
  | cons step rest =>
    rw [walk] at walked
    split at walked
    · exact ⟨_,_,‹_›⟩
    · cases walked
    · cases walked

/-- On the way to a directory it does not count where the walk stays for a step. -/
theorem walk_filter {place target : List String} {steps : List Component}
    (directory : DirectoryAt root target) :
    walk root expand place (steps.filter (· != .current)) = .ok target ↔
      walk root expand place steps = .ok target := by
  induction steps generalizing place with
  | nil => rfl
  | cons step rest ih =>
    by_cases stays : step = .current
    · subst stays
      rw [List.filter_cons_of_neg (by simp), ih, walk]
      constructor
      · intro walked
        obtain ⟨name,entries,found⟩ := directory.of_walk walked
        rw [found]
        exact walked
      · intro walked
        split at walked
        · exact walked
        · cases walked
        · cases walked
    · have first (steps : List Component) : walk root expand place (step :: steps) =
          (walk root expand place [step]).bind fun middle => walk root expand middle steps :=
        walk_append place [step] steps
      rw [List.filter_cons_of_pos (by simpa using stays), first rest, first (rest.filter _)]
      cases walk root expand place [step] with
      | error e => rfl
      | ok middle => exact ih

end Walk

theorem follow_eq_walk (root : FileTree) (depth : Nat) : ∃ expand, follow root depth = walk root expand := by
  cases depth with
  | zero => exact ⟨_,rfl⟩
  | succ depth => exact ⟨_,rfl⟩

/-! ## Places -/

variable {fs : FileSystem} {p q : Path} {place : List String}

theorem locate_eq_ok_iff (written : p.text ≠ "") (directory : DirectoryAt fs.root place) :
    fs.locate p = .ok place ↔ follow fs.root maxLinkDepth fs.working p.route = .ok place := by
  obtain ⟨expand,follow⟩ := follow_eq_walk fs.root maxLinkDepth
  rw [locate, if_neg (by simpa using written), follow, ← walk_filter directory, Path.filter_steps]

theorem written_of_locate (located : fs.locate p = .ok place) : p.text ≠ "" := by
  intro empty
  simp [locate,empty] at located

/-- A directory is found under every path with the same route. -/
theorem locate_of_route (written : q.text ≠ "") (route : q.route = p.route)
    (located : fs.locate p = .ok place) (directory : DirectoryAt fs.root place) :
    fs.locate q = .ok place := by
  rw [locate_eq_ok_iff written directory, route]
  exact (locate_eq_ok_iff (written_of_locate located) directory).mp located

/-- Where an entry of a directory leads does not depend on how the path of the directory is written. -/
theorem locate_join {name : String} (named : isEntryName name) (located : fs.locate p = .ok place)
    (directory : DirectoryAt fs.root place) :
    fs.locate (p.join ⟨name⟩) = follow fs.root maxLinkDepth place [.normal name] := by
  have reached := (locate_eq_ok_iff (written_of_locate located) directory).mp located
  have written := Path.text_join_ne p named
  obtain ⟨expand,follow⟩ := follow_eq_walk fs.root maxLinkDepth
  rw [follow, ← Path.filter_stepsOf_body, walk_filter directory] at reached
  rw [locate, if_neg (by simpa using written), follow, Path.steps_join p named, walk_append, reached]
  rfl

end FileSystem

end Coupling
