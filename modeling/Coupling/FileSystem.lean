import Coupling.Path
import Coupling.Text.Utf8

/-! A file system is a tree of directories, files and symbolic links, with a working directory from
which relative paths start. Looking a path up follows the links in it. -/
namespace Coupling

inductive FileTree
  | file (name : String) (content : List UInt8)
  | link (name : String) (target : Path)
  | directory (name : String) (entries : List FileTree)
  deriving Repr

namespace FileTree

def name : FileTree → String
  | file n _ => n
  | link n _ => n
  | directory n _ => n

def entries : FileTree → List FileTree
  | directory _ es => es
  | _ => []

def isDirectory : FileTree → Bool
  | directory _ _ => true
  | _ => false

def isFile : FileTree → Bool
  | file _ _ => true
  | _ => false

def child? (t : FileTree) (name : String) : Option FileTree := t.entries.find? (·.name == name)

def at? : List String → FileTree → Option FileTree
  | [], t => some t
  | n :: ns, t => (t.child? n).bind (at? ns)

def setEntry (new : FileTree) : List FileTree → List FileTree
  | [] => [new]
  | e :: es => if e.name == new.name then new :: es else e :: setEntry new es

def put (t : FileTree) : List String → FileTree → FileTree
  | [], new => new
  | n :: ns, new =>
    directory t.name (setEntry (put ((t.child? n).getD (directory n [])) ns new) t.entries)

end FileTree

inductive FileError
  | notFound
  | notDirectory
  | isDirectory
  | tooManyLinks
  deriving DecidableEq, Repr

def FileError.message : FileError → String
  | notFound => "No such file or directory (os error 2)"
  | notDirectory => "Not a directory (os error 20)"
  | isDirectory => "Is a directory (os error 21)"
  | tooManyLinks => "Too many levels of symbolic links (os error 40)"

/-- The steps that looking a path up takes: those of its components, and `.` wherever it is written or a
separator ends the path, since only a directory can be there. -/
def Path.steps (p : Path) : List Component :=
  match p.parts with
  | [] => []
  | first :: rest =>
    let step (part : String) : List Component :=
      if part.isEmpty then [] else if part == "." then [.current] else [componentOf part]
    (if first.isEmpty && !rest.isEmpty then [.root] else step first) ++ rest.flatMap step ++
      (if rest.getLast? == some "" then [.current] else [])

structure FileSystem where
  root : FileTree
  working : List String
  deriving Repr

namespace FileSystem

/-- Takes steps from a place. A link is left to `expand`, which is given the place that it stands in. -/
def walk (root : FileTree) (expand : List String → Path → Except FileError (List String)) :
    List String → List Component → Except FileError (List String)
  | place, [] => .ok place
  | place, step :: steps =>
    match root.at? place with
    | some (.directory n es) =>
      match step with
      | .root => walk root expand [] steps
      | .current => walk root expand place steps
      | .parent => walk root expand place.dropLast steps
      | .normal name =>
        match (FileTree.directory n es).child? name with
        | none => .error .notFound
        | some (.link _ target) =>
          match expand place target with
          | .error e => .error e
          | .ok place => walk root expand place steps
        | some _ => walk root expand (place ++ [name]) steps
    | some _ => .error .notDirectory
    | none => .error .notFound

/-- Takes steps from a place, through links that are nested no deeper than `depth`. -/
def follow (root : FileTree) : Nat → List String → List Component → Except FileError (List String)
  | 0 => walk root fun _ _ => .error .tooManyLinks
  | depth + 1 => walk root fun place target => follow root depth place target.steps

def maxLinkDepth : Nat := 40

def locate (fs : FileSystem) (p : Path) : Except FileError (List String) :=
  if p.text.isEmpty then .error .notFound
  else follow fs.root maxLinkDepth fs.working p.steps

def lookup (fs : FileSystem) (p : Path) : Except FileError FileTree :=
  match fs.locate p with
  | .error e => .error e
  | .ok place =>
    match fs.root.at? place with
    | some t => .ok t
    | none => .error .notFound

def contains (fs : FileSystem) (p : Path) : Bool := (fs.lookup p).toOption.isSome

def isDirectory (fs : FileSystem) (p : Path) : Bool := (fs.lookup p).toOption.any FileTree.isDirectory

def isFile (fs : FileSystem) (p : Path) : Bool := (fs.lookup p).toOption.any FileTree.isFile

def read (fs : FileSystem) (p : Path) : Except FileError (List UInt8) :=
  match fs.lookup p with
  | .error e => .error e
  | .ok (.file _ content) => .ok content
  | .ok (.directory _ _) => .error .isDirectory
  | .ok (.link _ _) => .error .notFound

/-- The path of a place that a path leads to, without links. -/
def canonical? (fs : FileSystem) (p : Path) : Option Path :=
  (fs.locate p).toOption.map fun place => ⟨"/" ++ "/".intercalate place⟩

/-- The directory at a path, made together with those above it where it is missing. -/
def makeDirectory (fs : FileSystem) (place : List String) : List Component → FileSystem × List String
  | [] => (fs, place)
  | step :: steps =>
    match step with
    | .normal name =>
      match follow fs.root maxLinkDepth place [.normal name] with
      | .ok inner => makeDirectory fs inner steps
      | .error _ =>
        let inner := place ++ [name]
        makeDirectory { fs with root := fs.root.put inner (.directory name []) } inner steps
    | .parent => makeDirectory fs place.dropLast steps
    | .current => makeDirectory fs place steps
    | .root => makeDirectory fs [] steps

/-- Puts a new entry at a path of the working directory; `make` is given its name. -/
def add (fs : FileSystem) (p : Path) (make : String → FileTree) : FileSystem :=
  match p.fileName? with
  | none => fs
  | some name =>
    let (fs, place) := fs.makeDirectory fs.working p.components.dropLast
    { fs with root := fs.root.put (place ++ [name]) (make name) }

def empty (working : List String) : FileSystem :=
  match working with
  | [] => ⟨.directory "" [],[]⟩
  | _ => ⟨FileTree.put (.directory "" []) working (.directory (working.getLast?.getD "") []),working⟩

end FileSystem

end Coupling
