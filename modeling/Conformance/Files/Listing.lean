import Conformance.Files.World
import Conformance.Sorting

/-!
# Test files below a directory

`tests` lists the paths of the test files in a tree of directories: entries that are no
directories and whose name ends in `.js`. A name that begins with a dot hides what it names, and
links are listed as what they are, never followed. The directories that are gone through on the way
are the `subdirectories`; each is looked up anew, by a path that grows with it and can become too
long to be looked up.
-/

namespace Conformance.Files

def testExtension : List Char := "js".toList

def isHidden (name : String) : Bool :=
  name.toList.head? == some '.'

def isTestName (name : String) : Bool :=
  extension? name.toList == some testExtension

mutual

/-- The test files among the entries of `dir`, in the order of the entries. -/
def tests (dir : String) : List (String × Entry) → List String
  | [] => []
  | (name, entry) :: rest =>
    (if isHidden name then [] else testsAt (below dir name) (isTestName name) entry) ++
      tests dir rest

/-- The entry itself if it is a test file, or those below it. -/
def testsAt (path : String) (named : Bool) : Entry → List String
  | .directory entries => tests path entries
  | _ => if named then [path] else []

end

mutual

/-- The directories among the entries of `dir` and below, each one in front of those below it. -/
def subdirectories (dir : String) : List (String × Entry) → List String
  | [] => []
  | (name, entry) :: rest =>
    (if isHidden name then [] else subdirectoriesAt (below dir name) entry) ++
      subdirectories dir rest

/-- The entry itself if it is a directory, and those below it. -/
def subdirectoriesAt (path : String) : Entry → List String
  | .directory entries => path :: subdirectories path entries
  | _ => []

end

/-- A directory that cannot be listed: the path under which it was looked up, and why. -/
structure Refusal where
  path : String
  cause : AccessFault
  deriving DecidableEq, Repr

namespace World

/-- The entries of a directory below a root. -/
def listBelow (world : World) (root dir : String) : Except Refusal (List (String × Entry)) :=
  (world.list (join root dir)).mapError (Refusal.mk (join root dir))

/-- The test files below a directory, in ascending order, unless one of the directories cannot be
listed. -/
def tests (world : World) (root dir : String) : Except Refusal (List String) := do
  let entries ← world.listBelow root dir
  (subdirectories dir entries).forM fun path => discard (world.listBelow root path)
  pure (Sorting.sort (fun a b => a ≤ b) (Files.tests dir entries))

end World

end Conformance.Files
