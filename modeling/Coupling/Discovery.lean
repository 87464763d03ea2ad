import Coupling.Error
import Coupling.FileSystem
import Coupling.SourceTree

/-! The units below a root are the regular files with an allowed extension that are reached through
directories alone: links below the root are not followed. The units of a single directory are found by
asking each of its entries whether it leads to a file, so a link to a file counts there. -/
namespace Coupling

def containsChars (needle : List Char) : List Char → Bool
  | [] => needle.isEmpty
  | c :: cs => needle.isPrefixOf (c :: cs) || containsChars needle cs

/-- How a path goes into the directories of test sources, from the root or from any directory. -/
def testDirectories : List String := ["src/test/", "test/"]

/-- Test sources by their path from the root: they stand below such a directory, or their name ends in
one of the usual ways. -/
def isTestSource (path : String) : Bool :=
  (testDirectories.any fun d =>
    containsChars ("/" ++ d).toList path.toList || Text.startsWith path d) ||
    (let name := ((Path.mk path).parts.getLast?).getD ""
    Text.endsWith name "Test.java" || Text.endsWith name "Tests.java")

structure DiscoveryOptions where
  extensions : List String
  includeTests : Bool
  deriving DecidableEq, Repr

namespace DiscoveryOptions

def lowerAscii (s : String) : List Char :=
  s.toList.map fun c => if 'A' ≤ c && c ≤ 'Z' then Char.ofNat (c.toNat + 32) else c

/-- Whether the extension of a path is allowed; capitals of ASCII count as small letters. -/
def allows (o : DiscoveryOptions) (p : Path) : Bool :=
  match p.extension? with
  | some ending => o.extensions.any fun allowed => lowerAscii allowed == lowerAscii ending
  | none => false

end DiscoveryOptions

namespace FileSystem

def checkRoot (fs : FileSystem) (root : Path) : Except AnalysisError Unit :=
  if !fs.contains root then .error (.invalidRoot root "does not exist")
  else if !fs.isDirectory root then .error (.invalidRoot root "not a directory")
  else .ok ()

end FileSystem

mutual

def FileTree.files (path : Path) : FileTree → List Path
  | .file _ _ => [path]
  | .link _ _ => []
  | .directory _ es => filesOf path es

def filesOf (path : Path) : List FileTree → List Path
  | [] => []
  | e :: es => e.files (path.join ⟨e.name⟩) ++ filesOf path es

end

def relativeText (root p : Path) : String :=
  "/".intercalate (((root.componentsBelow? p).getD p.components).map Component.text)

/-- Whether a regular file below `root` is a unit. Its path from the root decides whether it is a test. -/
def DiscoveryOptions.selects (o : DiscoveryOptions) (root p : Path) : Bool :=
  o.allows p && (o.includeTests || !isTestSource (relativeText root p))

def discover (fs : FileSystem) (root : Path) (o : DiscoveryOptions) : Except AnalysisError SourceTree :=
  match fs.checkRoot root with
  | .error e => .error e
  | .ok () =>
    let files := filesOf root ((fs.lookup root).toOption.map FileTree.entries |>.getD [])
    .ok (SourceTree.ofUnits root (files.filter (o.selects root)))

def discoverGrouping (fs : FileSystem) (directory : Path) (o : DiscoveryOptions) :
    Except AnalysisError SourceTree :=
  match fs.checkRoot directory with
  | .error e => .error e
  | .ok () =>
    let entries := (fs.lookup directory).toOption.map FileTree.entries |>.getD []
    let paths := entries.map fun e => directory.join ⟨e.name⟩
    .ok (SourceTree.ofUnits directory (paths.filter fun p =>
      fs.isFile p && o.allows p && (o.includeTests || !isTestSource (p.fileName?.getD ""))))

end Coupling
