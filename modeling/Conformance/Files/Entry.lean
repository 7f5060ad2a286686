import Conformance.Files.Path

/-!
# File trees

A tree of directories, files and links, and the ways in which an entry can refuse to be used.
-/

namespace Conformance.Files

/-- Why an entry cannot be used. -/
inductive AccessFault where
  | notFound
  | notDirectory
  | isDirectory
  | tooManyLinks
  | nameTooLong
  | nulInPath
  | notText
  /-- A cause that is known by its description alone. -/
  | described (text : String)
  deriving DecidableEq, Repr

def AccessFault.message : AccessFault → String
  | .notFound => "No such file or directory (os error 2)"
  | .notDirectory => "Not a directory (os error 20)"
  | .isDirectory => "Is a directory (os error 21)"
  | .tooManyLinks => "Too many levels of symbolic links (os error 40)"
  | .nameTooLong => "File name too long (os error 36)"
  | .nulInPath => "file name contained an unexpected NUL byte"
  | .notText => "stream did not contain valid UTF-8"
  | .described text => text

/-- What a tree has at a place. Names are texts and so valid UTF-8: of other names a walk would show
a lossy reading, and there is no such entry here. -/
inductive Entry where
  /-- A file and what reading it gives. -/
  | file (text : Except AccessFault String)
  | directory (entries : List (String × Entry))
  | link (target : String)
  deriving Inhabited

namespace Entry

/-- The entries with that name standing for another entry. -/
def set (name : String) (entry : Entry) (entries : List (String × Entry)) :
    List (String × Entry) :=
  if (entries.lookup name).isSome then
    entries.map fun (known, old) => (known, if known = name then entry else old)
  else entries ++ [(name, entry)]

/-- A tree with an entry at the end of a way, the directories on it made where they are missing.
A new directory leaves one that is there as it is. -/
def put (entry : Entry) : (way : List String) → (tree : Entry) → Entry
  | [], tree =>
    match entry, tree with
    | .directory [], .directory entries => .directory entries
    | _, _ => entry
  | name :: way, tree =>
    let entries := match tree with
      | .directory entries => entries
      | _ => []
    let below := (entries.lookup name).getD (.directory [])
    .directory (set name (put entry way below) entries)

end Entry

end Conformance.Files
