/-!
# Tests that are never run

A skip list gives the reason for each path on it. The tests of `standard` depend on the
environment: on the representation of strings, the time zone or the order of properties.
-/

namespace Conformance

/-- Paths and reasons, each path at most once. -/
structure SkipList where
  entries : List (String × String)
  deriving Inhabited

namespace SkipList

def empty : SkipList := ⟨[]⟩

/-- Gives a path a reason; the last reason given counts. -/
def insert (list : SkipList) (path reason : String) : SkipList :=
  ⟨(path, reason) :: list.entries.filter (·.1 ≠ path)⟩

def insertAll (list : SkipList) (entries : List (String × String)) : SkipList :=
  entries.foldl (fun list (path, reason) => list.insert path reason) list

def reason? (list : SkipList) (path : String) : Option String :=
  list.entries.lookup path

def size (list : SkipList) : Nat :=
  list.entries.length

def isEmpty (list : SkipList) : Bool :=
  list.entries.isEmpty

def standard : SkipList :=
  empty.insertAll [
    ("test/language/literals/regexp/S7.8.5_A1.1_T2.js", "UTF-16"),
    ("test/language/literals/regexp/S7.8.5_A1.4_T2.js", "UTF-16"),
    ("test/language/literals/regexp/S7.8.5_A2.1_T2.js", "UTF-16"),
    ("test/language/literals/regexp/S7.8.5_A2.4_T2.js", "UTF-16"),
    ("test/built-ins/Date/prototype/toISOString/15.9.5.43-0-9.js", "timezone"),
    ("test/built-ins/Date/prototype/toISOString/15.9.5.43-0-10.js", "timezone"),
    ("test/built-ins/Object/getOwnPropertyNames/15.2.3.4-4-44.js", "property order")]

end SkipList

end Conformance
