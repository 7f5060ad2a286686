import Conformance.Files.World

/-!
# Where paths lead

A place in a tree lies at the end of a way, the names from the root down to it. A look-up can keep
the way that it has gone instead of the entries above it: `Entry.locate` does so, and comes to the
way of the place that `World.find` comes to, or to the same fault (`World.find_locate`). Two
spellings denote one file when they lead to one way, whatever links they lead through.
-/

namespace Conformance.Files

/-- How far a path leads without following a link, by the way. -/
inductive Trail where
  | reached (way : List String)
  | diverted (way : List String) (target : List Char) (rest : List String)
  deriving DecidableEq, Repr

namespace Entry

variable (root : Entry)

/-- The entry at the end of a way. -/
def at? : (way : List String) → Entry → Option Entry
  | [], entry => some entry
  | name :: way, .directory entries => (entries.lookup name).bind (at? way)
  | _ :: _, _ => none

theorem at?_append (way later : List String) (entry : Entry) :
    entry.at? (way ++ later) = (entry.at? way).bind (at? later) := by
  induction way generalizing entry with
  | nil => rfl
  | cons name way ih =>
    cases entry with
    | directory entries =>
      simp only [List.cons_append, at?]
      cases entries.lookup name with
      | none => rfl
      | some below => exact ih below
    | file text => rfl
    | link target => rfl

/-- Goes on from a way through names up to the first link. -/
def trail (way : List String) : List String → Except AccessFault Trail
  | [] => .ok (.reached way)
  | name :: rest =>
    match root.at? way with
    | some (.directory entries) =>
      if name = "." then trail way rest
      else if name = ".." then trail way.dropLast rest
      else if longestName < name.utf8ByteSize then .error .nameTooLong
      else match entries.lookup name with
        | none => .error .notFound
        | some (.link target) => .ok (.diverted way target.toList rest)
        | some _ => trail (way ++ [name]) rest
    | _ => .error .notDirectory

/-- The way that names lead to from a way, links followed. -/
def pursue : (links : Nat) → (way names : List String) → Except AccessFault (List String)
  | links, way, names => do
    match ← root.trail way names with
    | .reached way => pure way
    | .diverted way target rest =>
      match links with
      | 0 => throw .tooManyLinks
      | links + 1 => pursue links (if isAbsolute target then [] else way) (steps target ++ rest)

/-- The way of the directory from which relative paths lead. -/
def workingWay (directory : String) : List String :=
  match root.trail [] (steps directory.toList) with
  | .ok (.reached way) => way
  | _ => []

/-- The way that a path leads to, as seen from a directory. -/
def locate (directory path : String) : Except AccessFault (List String) :=
  let chars := path.toList
  if chars.contains '\x00' then .error .nulInPath
  else if chars = [] then .error .notFound
  else if longestPath < path.utf8ByteSize then .error .nameTooLong
  else root.pursue linkLimit (if isAbsolute chars then [] else root.workingWay directory)
    (steps chars)

/-- The text of the file at the end of a way. -/
def textAt (way : List String) : Except AccessFault String :=
  match root.at? way with
  | some (.file text) => text
  | some (.directory _) => .error .isDirectory
  | _ => .error .notFound

/-- The entries of the directory at the end of a way. -/
def listAt (way : List String) : Except AccessFault (List (String × Entry)) :=
  match root.at? way with
  | some (.directory entries) => .ok entries
  | _ => .error .notDirectory

end Entry

/-- A place lies at the end of a way. -/
inductive Place.IsAt (root : Entry) : Place → List String → Prop where
  | top : IsAt root ⟨[], root⟩ []
  | inside {above : List Entry} {entries : List (String × Entry)} {name : String} {entry : Entry}
      {way : List String} : IsAt root ⟨above, .directory entries⟩ way →
    entries.lookup name = some entry →
    IsAt root ⟨.directory entries :: above, entry⟩ (way ++ [name])

/-- Two look-ups come to the same: to things that belong together, or to one fault. -/
inductive Corresponds {α β : Type} (belongs : α → β → Prop) :
    Except AccessFault α → Except AccessFault β → Prop where
  | ok {a : α} {b : β} : belongs a b → Corresponds belongs (.ok a) (.ok b)
  | error (cause : AccessFault) : Corresponds belongs (.error cause) (.error cause)

namespace Corresponds

variable {α β γ δ : Type} {belongs : α → β → Prop} {x : Except AccessFault α}
  {y : Except AccessFault β}

theorem bind (h : Corresponds belongs x y) {later : γ → δ → Prop} {f : α → Except AccessFault γ}
    {g : β → Except AccessFault δ} (hfg : ∀ a b, belongs a b → Corresponds later (f a) (g b)) :
    Corresponds later (x >>= f) (y >>= g) := by
  cases h with
  | ok hbelongs => exact hfg _ _ hbelongs
  | error cause => exact .error cause

theorem bind_eq (h : Corresponds belongs x y) {f : α → Except AccessFault γ}
    {g : β → Except AccessFault γ} (hfg : ∀ a b, belongs a b → f a = g b) :
    x >>= f = y >>= g := by
  cases h with
  | ok hbelongs => exact hfg _ _ hbelongs
  | error cause => rfl

end Corresponds

/-- A look-up and its way have come equally far. -/
inductive Arrival.IsAt (root : Entry) : Arrival → Trail → Prop where
  | reached {place : Place} {way : List String} : place.IsAt root way →
    IsAt root (.reached place) (.reached way)
  | diverted {place : Place} {way : List String} (target : List Char) (rest : List String) :
    place.IsAt root way → IsAt root (.diverted place target rest) (.diverted way target rest)

namespace Place.IsAt

variable {root : Entry} {place : Place} {way : List String}

theorem at?_eq (h : place.IsAt root way) : root.at? way = some place.here := by
  induction h with
  | top => rfl
  | inside hplace hlookup ih => simp [Entry.at?_append, ih, Entry.at?, hlookup]

theorem parent {parent here : Entry} {above : List Entry}
    (h : Place.IsAt root ⟨parent :: above, here⟩ way) :
    Place.IsAt root ⟨above, parent⟩ way.dropLast := by
  cases h with
  | inside hplace hlookup => simpa using hplace

theorem eq_nil {here : Entry} (h : Place.IsAt root ⟨[], here⟩ way) : way = [] := by
  cases h
  rfl

theorem advance (h : place.IsAt root way) (names : List String) :
    Corresponds (Arrival.IsAt root) (place.advance names) (root.trail way names) := by
  induction names generalizing place way with
  | nil => exact .ok (.reached h)
  | cons name rest ih =>
    obtain ⟨above, here⟩ := place
    have hat := h.at?_eq
    cases here with
    | file text =>
      simp only [Place.advance, Entry.trail, hat]
      exact .error _
    | link target =>
      simp only [Place.advance, Entry.trail, hat]
      exact .error _
    | directory entries =>
      simp only [Place.advance, Entry.trail, hat]
      split
      · exact ih h
      · split
        · cases above with
          | nil =>
            obtain rfl := h.eq_nil
            exact ih h
          | cons parent above => exact ih h.parent
        · split
          · exact .error _
          · cases hlookup : entries.lookup name with
            | none => exact .error _
            | some entry =>
              cases entry with
              | link target => exact .ok (.diverted _ _ h)
              | file text => exact ih (h.inside hlookup)
              | directory below => exact ih (h.inside hlookup)

theorem follow (h : place.IsAt root way) (links : Nat) (names : List String) :
    Corresponds (Place.IsAt root) (place.follow root links names)
      (root.pursue links way names) := by
  -- each link that is followed starts a new trail with one link less to spare
  induction links generalizing place way names with
  | zero =>
    unfold Place.follow Entry.pursue
    refine (h.advance names).bind ?_
    intro arrival trail hat
    cases hat with
    | reached hplace => exact .ok hplace
    | diverted target rest hplace => exact .error _
  | succ links ih =>
    unfold Place.follow Entry.pursue
    refine (h.advance names).bind ?_
    intro arrival trail hat
    cases hat with
    | reached hplace => exact .ok hplace
    | diverted target rest hplace =>
      refine ih ?_ _
      split
      · exact .top
      · exact hplace

end Place.IsAt

namespace World

variable (root : Entry) (directory path : String)

theorem working_isAt : (ofTree root directory).working.IsAt root (root.workingWay directory) := by
  have htop : Place.IsAt root ⟨[], root⟩ [] := .top
  have hadvance := htop.advance (steps directory.toList)
  unfold ofTree Entry.workingWay
  generalize (Place.mk [] root).advance (steps directory.toList) = arrival at hadvance ⊢
  generalize root.trail [] (steps directory.toList) = trail at hadvance ⊢
  cases hadvance with
  | error cause => exact htop
  | ok hat =>
    cases hat with
    | reached hplace => exact hplace
    | diverted target rest hplace => exact htop

/-- A look-up comes to the place at the end of the way that is located, or to the same fault. -/
theorem find_locate : Corresponds (Place.IsAt root) ((ofTree root directory).find path)
    (root.locate directory path) := by
  unfold find Entry.locate
  dsimp only
  split
  · exact .error _
  · split
    · exact .error _
    · split
      · exact .error _
      · refine Place.IsAt.follow ?_ _ _
        split
        · exact .top
        · exact working_isAt root directory

theorem read_eq : (ofTree root directory).read path =
    root.locate directory path >>= root.textAt := by
  refine (find_locate root directory path).bind_eq ?_
  intro place way hplace
  simp only [Entry.textAt, hplace.at?_eq]
  cases place.here with
  | file text => cases text <;> rfl
  | directory entries => rfl
  | link target => rfl

theorem list_eq : (ofTree root directory).list path =
    root.locate directory path >>= root.listAt := by
  refine (find_locate root directory path).bind_eq ?_
  intro place way hplace
  simp only [Entry.listAt, hplace.at?_eq]
  cases place.here <;> rfl

end World

end Conformance.Files
