import Conformance.CommandLine.Response

/-!
# The program

Looks at those parts of the file system that a command line is about, and prints the response.
-/

namespace Conformance

open Files

/-- What reading a file gives. -/
def readText (path : String) : IO (Except AccessFault String) := do
  match ← (IO.FS.readBinFile path).toBaseIO with
  | .error cause => pure (.error (.described (toString cause)))
  | .ok bytes =>
    pure (match String.fromUTF8? bytes with
      | some text => .ok text
      | none => .error .notText)

/-- A link that leads nowhere: no entry has this name. -/
def danglingLink : Entry := .link "\x00"

/-- A tree with one more entry at a real path. -/
def record (tree : Entry) (path : String) (entry : Entry) : Entry :=
  entry.put (steps path.toList) tree

/-- Adds everything below a directory, given by its real path. Links are not gone into. -/
partial def observeBelow (directory : String) (tree : Entry) : IO Entry := do
  let entries ← (← IO.FS.realPath directory).readDir
  entries.foldlM
    (fun tree entry => do
      let path := join directory entry.fileName
      match (← entry.path.symlinkMetadata).type with
      | .dir => observeBelow path (record tree path (.directory []))
      | .symlink =>
        match ← (IO.FS.realPath entry.path).toBaseIO with
        | .error _ => pure (record tree path danglingLink)
        | .ok real =>
          if ← real.isDir then
            pure (record (record tree real.toString (.directory [])) path (.link real.toString))
          else pure (record tree path (.file (← readText path)))
      | _ => pure (record tree path (.file (← readText path))))
    tree

/-- Adds what lies on the way from a directory, given by its real path, and at its end. -/
partial def observe (directory : String) (tree : Entry) : List String → IO Entry
  | [] => observeBelow directory tree
  | name :: rest => do
    let path := join directory name
    let entry : IO.FS.DirEntry := { root := directory, fileName := name }
    match ← entry.path.symlinkMetadata.toBaseIO with
    | .error _ => pure tree
    | .ok { type := .symlink, .. } =>
      match ← (IO.FS.realPath entry.path).toBaseIO with
      | .error _ => pure (record tree path danglingLink)
      | .ok real =>
        observe "/" (record tree path (.link real.toString)) (steps real.toString.toList ++ rest)
    | .ok { type := .dir, .. } =>
      let real ← IO.FS.realPath entry.path
      observe real.toString (record tree real.toString (.directory [])) rest
    | .ok _ => pure (record tree path (.file (← readText path)))

/-- The paths that a command line is about. -/
def pathsOf (arguments : List String) : List String :=
  match CommandLine.Request.read arguments with
  | .error _ => []
  | .ok (.frontMatter file) => [file]
  | .ok (.plan settings _) => settings.directories.map (join settings.root)

/-- The world as far as a command line looks at it. -/
def worldFor (arguments : List String) : IO World := do
  let working := (← IO.FS.realPath ".").toString
  let start := (Entry.directory []).put (steps working.toList) (.directory [])
  let tree ← (pathsOf arguments).foldlM
    (fun tree path =>
      let directory := if isAbsolute path.toList then "/" else working
      observe directory tree (steps path.toList))
    start
  pure (.ofTree tree working)

end Conformance

def main (arguments : List String) : IO UInt32 := do
  let response := Conformance.CommandLine.run (← Conformance.worldFor arguments) arguments
  IO.print response.output
  IO.eprint response.errors
  pure response.exitCode.toUInt32
