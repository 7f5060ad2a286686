import Conformance.Files.Entry

/-!
# Looking up paths

What a path stands for in a file tree. A look-up goes through the path name by name; where it
meets a link it goes on with the link's target. The number of links it follows is limited, so that
it ends on trees whose links lead in circles.
-/

namespace Conformance.Files

/-- A place in a tree: an entry and the directories above it, the nearest first. -/
structure Place where
  above : List Entry
  here : Entry
  deriving Inhabited

/-- How far a path leads without following a link. -/
inductive Arrival where
  | reached (place : Place)
  | diverted (directory : Place) (target : List Char) (rest : List String)

/-- The longest name of an entry and the longest path, in bytes. -/
def longestName : Nat := 255

def longestPath : Nat := 4095

/-- How many links a look-up follows. -/
def linkLimit : Nat := 40

namespace Place

/-- Goes from a place through names up to the first link. -/
def advance (place : Place) : List String → Except AccessFault Arrival
  | [] => .ok (.reached place)
  | name :: rest =>
    match place.here with
    | .directory entries =>
      if name = "." then place.advance rest
      else if name = ".." then
        match place.above with
        | [] => place.advance rest
        | parent :: above => (Place.mk above parent).advance rest
      else if longestName < name.utf8ByteSize then .error .nameTooLong
      else match entries.lookup name with
        | none => .error .notFound
        | some (.link target) => .ok (.diverted place target.toList rest)
        | some entry => (Place.mk (place.here :: place.above) entry).advance rest
    | _ => .error .notDirectory

/-- The place that a path leads to, links followed. -/
def follow (root : Entry) : (links : Nat) → Place → List String → Except AccessFault Place
  | links, place, names => do
    match ← place.advance names with
    | .reached place => pure place
    | .diverted directory target rest =>
      match links with
      | 0 => throw .tooManyLinks
      | links + 1 =>
        let start := if isAbsolute target then ⟨[], root⟩ else directory
        follow root links start (steps target ++ rest)

end Place

/-- A file tree and the directory in it from which relative paths lead. -/
structure World where
  root : Entry
  working : Place
  deriving Inhabited

namespace World

/-- The world of a tree in which one looks from a directory. -/
def ofTree (root : Entry) (directory : String) : World where
  root
  working :=
    match (Place.mk [] root).advance (steps directory.toList) with
    | .ok (.reached place) => place
    | _ => ⟨[], root⟩

/-- The place that a path stands for. -/
def find (world : World) (path : String) : Except AccessFault Place :=
  let chars := path.toList
  if chars.contains '\x00' then .error .nulInPath
  else if chars = [] then .error .notFound
  else if longestPath < path.utf8ByteSize then .error .nameTooLong
  else
    let start := if isAbsolute chars then ⟨[], world.root⟩ else world.working
    start.follow world.root linkLimit (steps chars)

/-- The text of a file. -/
def read (world : World) (path : String) : Except AccessFault String := do
  match (← world.find path).here with
  | .file (.ok text) => pure text
  | .file (.error cause) => throw cause
  | .directory _ => throw .isDirectory
  | .link _ => throw .notFound

/-- The entries of a directory. -/
def list (world : World) (path : String) : Except AccessFault (List (String × Entry)) := do
  match (← world.find path).here with
  | .directory entries => pure entries
  | _ => throw .notDirectory

end World

end Conformance.Files
