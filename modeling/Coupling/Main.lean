import Coupling.Command

/-! Looks at the part of the file system that the arguments name, reads the units found there, and
leaves all else to the command. -/
namespace Coupling.Snapshot

def absolute (place : List String) : String := "/" ++ "/".intercalate place

def realPlace (path : String) : IO (List String) := do
  let real ← IO.FS.realPath (System.mkFilePath [path])
  return (Path.mk real.toString).names

/-- What stands at a path, without the contents of files. A link leads straight to its last target. -/
partial def structureAt (path name : String) : IO (Option FileTree) := do
  try
    let file := System.mkFilePath [path]
    match (← file.symlinkMetadata).type with
    | .file => return some (.file name [])
    | .symlink => return some (.link name ⟨absolute (← realPlace path)⟩)
    | .dir =>
      let mut entries := #[]
      for e in ← file.readDir do
        if let some entry ← structureAt (path ++ "/" ++ e.fileName) e.fileName then
          entries := entries.push entry
      return some (.directory name entries.toList)
    | .other => return none
  catch _ => return none

partial def targets : FileTree → List Path
  | .file _ _ => []
  | .link _ target => [target]
  | .directory _ entries => entries.flatMap targets

def withDirectory (root : FileTree) (place : List String) : FileTree :=
  if (root.at? place).isSome then root else root.put place (.directory (place.getLast?.getD "") [])

/-- Puts what a path leads to into the file system, together with the links on the way. -/
def load (fs : FileSystem) (p : Path) : IO FileSystem := do
  let mut root := fs.root
  let mut place := fs.working
  for step in p.steps do
    match step with
    | .root => place := []
    | .current => pure ()
    | .parent => place := place.dropLast
    | .normal name =>
      let here := place ++ [name]
      match ← structureAt (absolute here) name with
      | some (.link _ target) =>
        root := withDirectory (root.put here (.link name target)) target.names
        place := target.names
      | some _ =>
        root := withDirectory root here
        place := here
      | none => return { fs with root := root }
  if let some entry ← structureAt (absolute place) (place.getLast?.getD "") then
    root := root.put place entry
    for target in targets entry do
      if (root.at? target.names).isNone then
        let name := target.names.getLast?.getD ""
        if ← (System.mkFilePath [target.text]).isDir then
          root := root.put target.names (.directory name [])
        else root := root.put target.names (.file name [])
  return { fs with root := root }

def readFile (fs : FileSystem) (p : Path) : IO FileSystem := do
  match fs.locate p with
  | .error _ => return fs
  | .ok place =>
    try
      let bytes ← IO.FS.readBinFile (System.mkFilePath [absolute place])
      return { fs with root := fs.root.put place (.file (place.getLast?.getD "") bytes.toList) }
    catch _ => return fs

def targetPaths : Target → List Path
  | .tree root => [root]
  | .grouping directory => [directory]
  | .unit file => [unitDirectory file, file]

/-- Everything that an invocation can ask of the file system. -/
def take (target : Target) (overrides : Overrides) : IO FileSystem := do
  let mut fs := FileSystem.empty (← realPlace ".")
  for p in overrides.config.toList ++ targetPaths target do
    fs ← load fs p
  for p in overrides.config.toList do
    fs ← readFile fs p
  match overrides.resolve fs with
  | .error _ => return fs
  | .ok config =>
    match Command.scope (Environment.ofFiles fs config) target with
    | .error _ => return fs
    | .ok scope =>
      for unit in scope.tree.units do
        fs ← readFile fs unit
      return fs

end Coupling.Snapshot

open Coupling in
def main (args : List String) : IO UInt32 := do
  let files ← match Invocation.ofArguments? args with
    | some (.analyze target _ overrides) => Snapshot.take target overrides
    | _ => pure (FileSystem.empty [])
  let output := Command.run files args
  (← IO.getStdout).putStr output.stdout
  (← IO.getStderr).putStr output.stderr
  return output.code.toUInt32
