import Conformance.Files.Listing
import Conformance.Proofs.Location

/-!
# Trees that differ in one file

Two trees may be alike but for what one file gives when it is read. Every path then leads to the
same place in both, or to the same fault, the same tests are found below every directory, and every
path that does not lead to that file reads the same: `DifferAt.locate_eq`, `DifferAt.tests_eq`,
`DifferAt.read_eq`.
-/

namespace Conformance.Files

namespace Entry

theorem lookup_middle {name : String} {before : List (String × Entry)}
    (hbefore : before.lookup name = none) (entry : Entry) (after : List (String × Entry))
    (other : String) : (before ++ (name, entry) :: after).lookup other =
      if other = name then some entry else (before ++ after).lookup other := by
  by_cases hother : other = name
  · subst hother
    simp [List.lookup_append, hbefore]
  · have hne : (other == name) = false := by simpa using hother
    simp [List.lookup_append, List.lookup_cons, hne, hother]

/-- Two trees that are alike but for the text of the file at the end of a way. -/
inductive DifferAt : (way : List String) → Entry → Entry → Prop where
  | file (text changed : Except AccessFault String) : DifferAt [] (.file text) (.file changed)
  | inside {name : String} {way : List String} {a b : Entry} {before : List (String × Entry)}
      (after : List (String × Entry)) : before.lookup name = none → DifferAt way a b →
    DifferAt (name :: way) (.directory (before ++ (name, a) :: after))
      (.directory (before ++ (name, b) :: after))

namespace DifferAt

variable {way : List String} {a b : Entry}

/-- At the end of every way there is the same, or there are two trees that differ further on. -/
theorem at? (h : DifferAt way a b) (other : List String) :
    a.at? other = b.at? other ∨ ∃ rest x y, way = other ++ rest ∧ a.at? other = some x ∧
      b.at? other = some y ∧ DifferAt rest x y := by
  -- another way follows the one to the file for a while, and then leaves it or ends on it
  induction h generalizing other with
  | file text changed =>
    cases other with
    | nil => exact .inr ⟨[], _, _, rfl, rfl, rfl, .file text changed⟩
    | cons name other => exact .inl rfl
  | @inside name way a b before after hbefore hdiffer ih =>
    cases other with
    | nil => exact .inr ⟨_, _, _, rfl, rfl, rfl, .inside after hbefore hdiffer⟩
    | cons first other =>
      simp only [Entry.at?, lookup_middle hbefore]
      by_cases hfirst : first = name
      · subst hfirst
        rw [if_pos rfl, if_pos rfl]
        rcases ih other with hsame | ⟨rest, x, y, rfl, hx, hy, hrest⟩
        · exact .inl hsame
        · exact .inr ⟨rest, x, y, rfl, hx, hy, hrest⟩
      · rw [if_neg hfirst, if_neg hfirst]
        exact .inl rfl

variable (h : DifferAt way a b)

include h

/-- The file that differs stops every trail in the same way. -/
theorem trail_eq (start names : List String) : a.trail start names = b.trail start names := by
  induction names generalizing start with
  | nil => rfl
  | cons name rest ih =>
    rcases h.at? start with hsame | ⟨below, x, y, -, hx, hy, hdiffer⟩
    · simp only [trail, hsame, ih]
    · simp only [trail, hx, hy]
      cases hdiffer with
      | file text changed => rfl
      | @inside first way x y before after hbefore hdiffer =>
        simp only [lookup_middle hbefore, ih]
        by_cases hname : name = first
        · -- what differs is no link, so the trail goes on into it in both trees
          simp only [if_pos hname]
          cases hdiffer <;> rfl
        · simp only [if_neg hname]

theorem pursue_eq (links : Nat) (start names : List String) :
    a.pursue links start names = b.pursue links start names := by
  induction links generalizing start names with
  | zero =>
    unfold pursue
    rw [h.trail_eq]
  | succ links ih =>
    unfold pursue
    rw [h.trail_eq]
    simp only [ih]

/-- Every path leads to the same place in both trees. -/
theorem locate_eq (directory path : String) :
    a.locate directory path = b.locate directory path := by
  simp only [locate, workingWay, h.trail_eq, h.pursue_eq]

end DifferAt

end Entry

theorem tests_append (dir : String) (entries later : List (String × Entry)) :
    tests dir (entries ++ later) = tests dir entries ++ tests dir later := by
  induction entries with
  | nil => simp [tests]
  | cons entry rest ih => simp [tests, ih]

theorem subdirectories_append (dir : String) (entries later : List (String × Entry)) :
    subdirectories dir (entries ++ later) =
      subdirectories dir entries ++ subdirectories dir later := by
  induction entries with
  | nil => simp [subdirectories]
  | cons entry rest ih => simp [subdirectories, ih]

namespace Entry.DifferAt

variable {way : List String} {a b : Entry} (h : DifferAt way a b)

include h

theorem testsAt_eq (path : String) (named : Bool) :
    testsAt path named a = testsAt path named b := by
  induction h generalizing path named with
  | file text changed => simp only [testsAt]
  | inside after hbefore hdiffer ih => simp only [testsAt, tests_append, tests, ih]

theorem subdirectoriesAt_eq (path : String) :
    subdirectoriesAt path a = subdirectoriesAt path b := by
  induction h generalizing path with
  | file text changed => simp only [subdirectoriesAt]
  | inside after hbefore hdiffer ih =>
    simp only [subdirectoriesAt, subdirectories_append, subdirectories, ih]

/-- A directory is listed in both trees or in none, and then it is the same or the file lies
below it. -/
theorem listBelow_cases (directory root dir : String) :
    (World.ofTree a directory).listBelow root dir =
        (World.ofTree b directory).listBelow root dir ∨
      ∃ entries others rest, (World.ofTree a directory).listBelow root dir = .ok entries ∧
        (World.ofTree b directory).listBelow root dir = .ok others ∧
        DifferAt rest (.directory entries) (.directory others) := by
  unfold World.listBelow
  rw [World.list_eq, World.list_eq, h.locate_eq]
  cases b.locate directory (join root dir) with
  | error cause => exact .inl rfl
  | ok start =>
    rcases h.at? start with hsame | ⟨rest, x, y, -, hx, hy, hdiffer⟩
    · left
      change (a.listAt start).mapError _ = (b.listAt start).mapError _
      simp only [listAt, hsame]
    · change (a.listAt start).mapError _ = (b.listAt start).mapError _ ∨
        ∃ entries others rest, (a.listAt start).mapError _ = _ ∧
          (b.listAt start).mapError _ = _ ∧ _
      simp only [listAt, hx, hy]
      cases hdiffer with
      | file text changed => exact .inl rfl
      | inside after hbefore hdiffer =>
        exact .inr ⟨_, _, _, rfl, rfl, .inside after hbefore hdiffer⟩

/-- The same tests are found below every directory. -/
theorem tests_eq (directory root dir : String) :
    (World.ofTree a directory).tests root dir = (World.ofTree b directory).tests root dir := by
  have hlisted : ∀ path, discard ((World.ofTree a directory).listBelow root path) =
      discard ((World.ofTree b directory).listBelow root path) := by
    intro path
    rcases h.listBelow_cases directory root path with hsame | ⟨_, _, _, hx, hy, -⟩
    · rw [hsame]
    · rw [hx, hy]
      rfl
  unfold World.tests
  simp only [hlisted]
  rcases h.listBelow_cases directory root dir with hsame | ⟨entries, others, rest, hx, hy, hdiffer⟩
  · rw [hsame]
  · have hfound := hdiffer.testsAt_eq dir true
    have hbelow := hdiffer.subdirectoriesAt_eq dir
    simp only [testsAt] at hfound
    simp only [subdirectoriesAt, List.cons.injEq, true_and] at hbelow
    simp only [hx, hy, bind, Except.bind, hfound, hbelow]

/-- A path that does not lead to the file reads the same. -/
theorem read_eq (directory path : String) (hpath : a.locate directory path ≠ .ok way) :
    (World.ofTree a directory).read path = (World.ofTree b directory).read path := by
  rw [World.read_eq, World.read_eq, ← h.locate_eq]
  cases hlocate : a.locate directory path with
  | error cause => rfl
  | ok start =>
    change a.textAt start = b.textAt start
    rcases h.at? start with hsame | ⟨rest, x, y, hway, hx, hy, hdiffer⟩
    · simp only [textAt, hsame]
    · cases hdiffer with
      | file text changed =>
        rw [List.append_nil] at hway
        exact absurd (hway ▸ hlocate) hpath
      | inside after hbefore hdiffer => simp only [textAt, hx, hy]

end Entry.DifferAt

end Conformance.Files
