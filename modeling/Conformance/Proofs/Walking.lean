import Mathlib.Data.List.Nodup
import Conformance.Files.Listing
import Conformance.Proofs.Location
import Conformance.Proofs.Paths

/-!
# Where the listed tests lie

`testWays` are the ways from a directory down to the test files below it, and listing these files
spells the ways below the directory (`tests_eq`). In a tree whose names can be had, each of them
once in its directory, no two of these ways are equal, so no path is listed twice
(`World.tests_nodup`).
-/

namespace Conformance.Files

theorem bind_eq_ok_iff {α β ε : Type} {x : Except ε α} {f : α → Except ε β} {b : β} :
    x >>= f = .ok b ↔ ∃ a, x = .ok a ∧ f a = .ok b := by
  cases x <;> simp [bind, Except.bind]

/-- A name that an entry of a directory can have. -/
def IsName (name : String) : Prop :=
  IsStep name ∧ name ≠ ".." ∧ '\x00' ∉ name.toList

instance (name : String) : Decidable (IsName name) :=
  inferInstanceAs (Decidable (_ ∧ _ ∧ _))

namespace Entry

mutual

/-- Whether all names below an entry can be had, and each of them once in its directory. -/
def isWellNamed : Entry → Bool
  | .directory entries => areWellNamed entries
  | _ => true

def areWellNamed : List (String × Entry) → Bool
  | [] => true
  | (name, entry) :: rest =>
    decide (IsName name) && (rest.lookup name).isNone && entry.isWellNamed && areWellNamed rest

end

theorem areWellNamed_cons {name : String} {entry : Entry} {rest : List (String × Entry)} :
    areWellNamed ((name, entry) :: rest) = true ↔ IsName name ∧ rest.lookup name = none ∧
      entry.isWellNamed = true ∧ areWellNamed rest = true := by
  simp [areWellNamed, and_assoc]

section Lookup

variable {name : String} {entry : Entry} {entries : List (String × Entry)}

theorem lookup_eq_none_iff_not_mem :
    entries.lookup name = none ↔ name ∉ entries.map (·.1) := by
  rw [List.lookup_eq_none_iff]
  constructor
  · intro h hmem
    obtain ⟨known, hknown, rfl⟩ := List.mem_map.1 hmem
    simpa using h known hknown
  · intro h known hknown
    rw [bne_iff_ne]
    intro heq
    exact h (List.mem_map.2 ⟨known, hknown, heq.symm⟩)

theorem areWellNamed_iff : areWellNamed entries = true ↔
    (entries.map (·.1)).Nodup ∧ ∀ known ∈ entries, IsName known.1 ∧ known.2.isWellNamed = true := by
  induction entries with
  | nil => simp [areWellNamed]
  | cons first rest ih =>
    rw [areWellNamed_cons, ih, List.map_cons, List.nodup_cons, List.forall_mem_cons,
      lookup_eq_none_iff_not_mem]
    constructor
    · rintro ⟨hname, hnew, hentry, hnodup, hrest⟩
      exact ⟨⟨hnew, hnodup⟩, ⟨hname, hentry⟩, hrest⟩
    · rintro ⟨⟨hnew, hnodup⟩, ⟨hname, hentry⟩, hrest⟩
      exact ⟨hname, hnew, hentry, hnodup, hrest⟩

theorem mem_of_lookup (h : entries.lookup name = some entry) : (name, entry) ∈ entries := by
  obtain ⟨before, after, rfl, -⟩ := List.lookup_eq_some_iff.1 h
  simp

end Lookup

/-- What passes from every directory to its entries passes from a tree to what is found in it. -/
theorem of_at? (P : Entry → Prop)
    (hentries : ∀ entries, P (.directory entries) → ∀ known ∈ entries, P known.2)
    {root entry : Entry} (h : P root) {way : List String} (hat : root.at? way = some entry) :
    P entry := by
  induction way generalizing root with
  | nil => exact Option.some.inj hat ▸ h
  | cons name way ih =>
    cases root with
    | file text => cases hat
    | link target => cases hat
    | directory entries =>
      obtain ⟨below, hlookup, hbelow⟩ := Option.bind_eq_some_iff.1 hat
      exact ih (hentries entries h _ (mem_of_lookup hlookup)) hbelow

theorem isWellNamed_at? {root entry : Entry} (h : root.isWellNamed = true) {way : List String}
    (hat : root.at? way = some entry) : entry.isWellNamed = true := by
  refine of_at? (fun entry => entry.isWellNamed = true) ?_ h hat
  intro entries hentries known hknown
  exact ((areWellNamed_iff.1 hentries).2 known hknown).2

theorem areWellNamed_of_listAt {root : Entry} (h : root.isWellNamed = true) {way : List String}
    {entries : List (String × Entry)} (hlist : root.listAt way = .ok entries) :
    areWellNamed entries = true := by
  unfold listAt at hlist
  split at hlist
  · rename_i found hat
    exact Except.ok.inj hlist ▸ isWellNamed_at? h hat
  · cases hlist

end Entry

/-! ### Ways -/

mutual

/-- The ways of the test files among entries, in the order of the entries. -/
def testWays : List (String × Entry) → List (List String)
  | [] => []
  | (name, entry) :: rest =>
    (if isHidden name then [] else (testWaysAt (isTestName name) entry).map (name :: ·)) ++
      testWays rest

/-- The way that ends at the entry itself if it is a test file, or those that go on below it. -/
def testWaysAt (named : Bool) : Entry → List (List String)
  | .directory entries => testWays entries
  | _ => if named then [[]] else []

end

mutual

theorem tests_eq (dir : String) (entries : List (String × Entry)) :
    tests dir entries = (testWays entries).map (·.foldl below dir) := by
  cases entries with
  | nil => rfl
  | cons first rest =>
    obtain ⟨name, entry⟩ := first
    have hentry := testsAt_eq (below dir name) (isTestName name) entry
    have hrest := tests_eq dir rest
    rw [tests, testWays, List.map_append, hentry, hrest]
    split
    · rfl
    · rw [List.map_map]
      rfl

theorem testsAt_eq (path : String) (named : Bool) (entry : Entry) :
    testsAt path named entry = (testWaysAt named entry).map (·.foldl below path) := by
  cases entry with
  | directory entries => exact tests_eq path entries
  | file text => cases named <;> rfl
  | link target => cases named <;> rfl

end

variable {entries rest : List (String × Entry)} {way : List String}

theorem mem_testWays_cons {name : String} {entry : Entry} :
    way ∈ testWays ((name, entry) :: rest) ↔
      (isHidden name = false ∧
        ∃ later ∈ testWaysAt (isTestName name) entry, name :: later = way) ∨
      way ∈ testWays rest := by
  rw [testWays, List.mem_append]
  split
  · rename_i hhidden
    simp [hhidden]
  · rename_i hshown
    simp [hshown]

theorem exists_cons_of_mem_testWays (h : way ∈ testWays entries) :
    ∃ name later, way = name :: later ∧ (entries.lookup name).isSome := by
  induction entries with
  | nil => cases h
  | cons first rest ih =>
    obtain ⟨name, entry⟩ := first
    rcases mem_testWays_cons.1 h with ⟨-, later, -, rfl⟩ | hrest
    · exact ⟨name, later, rfl, by simp⟩
    · obtain ⟨other, later, rfl, hlookup⟩ := ih hrest
      refine ⟨other, later, rfl, ?_⟩
      rw [List.lookup_cons]
      split
      · rfl
      · exact hlookup

theorem ne_nil_of_mem_testWays (h : way ∈ testWays entries) : way ≠ [] := by
  obtain ⟨name, later, rfl, -⟩ := exists_cons_of_mem_testWays h
  exact List.cons_ne_nil _ _

mutual

theorem isName_of_mem_testWays {entries : List (String × Entry)}
    (h : Entry.areWellNamed entries = true) {way : List String} (hway : way ∈ testWays entries) :
    ∀ name ∈ way, IsName name := by
  cases entries with
  | nil => cases hway
  | cons first rest =>
    obtain ⟨name, entry⟩ := first
    obtain ⟨hname, -, hentry, hrest⟩ := Entry.areWellNamed_cons.1 h
    rcases mem_testWays_cons.1 hway with ⟨-, later, hlater, rfl⟩ | hmem
    · intro other hother
      rcases List.mem_cons.1 hother with rfl | hother
      · exact hname
      · exact isName_of_mem_testWaysAt hentry hlater other hother
    · exact isName_of_mem_testWays hrest hmem

theorem isName_of_mem_testWaysAt {entry : Entry} (h : entry.isWellNamed = true) {named : Bool}
    {way : List String} (hway : way ∈ testWaysAt named entry) : ∀ name ∈ way, IsName name := by
  cases entry with
  | directory entries => exact isName_of_mem_testWays h hway
  | file text =>
    cases named with
    | false => cases hway
    | true => simp [List.mem_singleton.1 hway]
  | link target =>
    cases named with
    | false => cases hway
    | true => simp [List.mem_singleton.1 hway]

end

mutual

theorem nodup_testWays {entries : List (String × Entry)} (h : Entry.areWellNamed entries = true) :
    (testWays entries).Nodup := by
  cases entries with
  | nil => exact List.nodup_nil
  | cons first rest =>
    obtain ⟨name, entry⟩ := first
    obtain ⟨-, hfresh, hentry, hrest⟩ := Entry.areWellNamed_cons.1 h
    rw [testWays, List.nodup_append]
    refine ⟨?_, nodup_testWays hrest, ?_⟩
    · split
      · exact List.nodup_nil
      · exact (nodup_testWaysAt hentry (isTestName name)).map (List.cons_injective)
    · -- a way among the others begins with a name that is not this one
      intro way hway other hother heq
      obtain ⟨next, later, rfl, hlookup⟩ := exists_cons_of_mem_testWays hother
      split at hway
      · cases hway
      · obtain ⟨rest', -, rfl⟩ := List.mem_map.1 hway
        obtain ⟨rfl, -⟩ := List.cons.inj heq
        simp [hfresh] at hlookup

theorem nodup_testWaysAt {entry : Entry} (h : entry.isWellNamed = true) (named : Bool) :
    (testWaysAt named entry).Nodup := by
  cases entry with
  | directory entries => exact nodup_testWays h
  | file text => cases named <;> simp [testWaysAt]
  | link target => cases named <;> simp [testWaysAt]

end

namespace World

section Listing

variable {world : World} {root dir : String} {refusal : Refusal}

theorem listBelow_eq_ok_iff {entries : List (String × Entry)} :
    world.listBelow root dir = .ok entries ↔ world.list (join root dir) = .ok entries := by
  unfold listBelow
  cases world.list (join root dir) <;> simp [Except.mapError]

theorem listBelow_eq_error_iff : world.listBelow root dir = .error refusal ↔
    refusal.path = join root dir ∧ world.list (join root dir) = .error refusal.cause := by
  obtain ⟨path, cause⟩ := refusal
  unfold listBelow
  cases world.list (join root dir) <;> simp [Except.mapError, eq_comm]

theorem forM_listBelow_cons (dirs : List String) :
    ((dir :: dirs).forM fun path => discard (world.listBelow root path)) =
      match world.listBelow root dir with
      | .ok _ => dirs.forM fun path => discard (world.listBelow root path)
      | .error refusal => .error refusal := by
  rw [List.forM]
  cases world.listBelow root dir <;> rfl

theorem forM_listBelow_eq_ok_iff {dirs : List String} :
    (dirs.forM fun path => discard (world.listBelow root path)) = .ok () ↔
      ∀ path ∈ dirs, ∃ entries, world.list (join root path) = .ok entries := by
  induction dirs with
  | nil => exact iff_of_true rfl (by simp)
  | cons dir dirs ih =>
    rw [forM_listBelow_cons, List.forall_mem_cons, ← ih]
    simp only [← listBelow_eq_ok_iff]
    cases world.listBelow root dir <;> simp

theorem forM_listBelow_eq_error_iff {dirs : List String} :
    (dirs.forM fun path => discard (world.listBelow root path)) = .error refusal ↔
      ∃ before path after, dirs = before ++ path :: after ∧
        (∀ other ∈ before, ∃ entries, world.list (join root other) = .ok entries) ∧
        world.listBelow root path = .error refusal := by
  induction dirs with
  | nil => exact iff_of_false (by rintro ⟨⟩) (by simp)
  | cons dir dirs ih =>
    rw [forM_listBelow_cons]
    cases hdir : world.listBelow root dir with
    | ok entries =>
      simp only [ih]
      constructor
      · rintro ⟨before, path, after, rfl, hbefore, hpath⟩
        refine ⟨dir :: before, path, after, rfl, ?_, hpath⟩
        exact List.forall_mem_cons.2 ⟨⟨entries, listBelow_eq_ok_iff.1 hdir⟩, hbefore⟩
      · rintro ⟨before, path, after, heq, hbefore, hpath⟩
        cases before with
        | nil =>
          obtain ⟨rfl, -⟩ := List.cons.inj heq
          rw [hdir] at hpath
          cases hpath
        | cons first before =>
          obtain ⟨rfl, rfl⟩ := List.cons.inj heq
          exact ⟨before, path, after, rfl, (List.forall_mem_cons.1 hbefore).2, hpath⟩
    | error other =>
      simp only [Except.error.injEq]
      constructor
      · rintro rfl
        exact ⟨[], dir, dirs, rfl, by simp, hdir⟩
      · rintro ⟨before, path, after, heq, hbefore, hpath⟩
        cases before with
        | nil =>
          obtain ⟨rfl, -⟩ := List.cons.inj heq
          exact Except.error.inj (hdir.symm.trans hpath)
        | cons first before =>
          obtain ⟨rfl, -⟩ := List.cons.inj heq
          obtain ⟨entries, hentries⟩ := hbefore dir List.mem_cons_self
          rw [listBelow_eq_ok_iff.2 hentries] at hdir
          cases hdir

theorem tests_eq_ok_iff {files : List String} : world.tests root dir = .ok files ↔
    ∃ entries, world.list (join root dir) = .ok entries ∧
      (∀ path ∈ subdirectories dir entries, ∃ below, world.list (join root path) = .ok below) ∧
      Sorting.sort (fun a b => a ≤ b) (Files.tests dir entries) = files := by
  unfold World.tests
  simp only [bind_eq_ok_iff, listBelow_eq_ok_iff, ← forM_listBelow_eq_ok_iff]
  constructor
  · rintro ⟨entries, hentries, ⟨⟩, hbelow, hfiles⟩
    exact ⟨entries, hentries, hbelow, Except.ok.inj hfiles⟩
  · rintro ⟨entries, hentries, hbelow, rfl⟩
    exact ⟨entries, hentries, (), hbelow, rfl⟩

/-- There are no tests where a directory cannot be listed, the given one or the first below it. -/
theorem tests_eq_error_iff : world.tests root dir = .error refusal ↔
    world.listBelow root dir = .error refusal ∨
    ∃ entries, world.list (join root dir) = .ok entries ∧
      ((subdirectories dir entries).forM fun path => discard (world.listBelow root path)) =
        .error refusal := by
  unfold World.tests
  simp only [← listBelow_eq_ok_iff]
  cases world.listBelow root dir with
  | error cause => simp [bind, Except.bind]
  | ok entries =>
    simp only [bind, Except.bind, Except.ok.injEq, exists_eq_left', reduceCtorEq, false_or]
    cases (subdirectories dir entries).forM fun path => discard (world.listBelow root path) with
    | error cause => simp only [Except.error.injEq]
    | ok done => exact iff_of_false (by rintro ⟨⟩) (by rintro ⟨⟩)

end Listing

variable {tree : Entry} {directory root dir : String} {files : List String}

theorem exists_ways_of_tests (htree : tree.isWellNamed = true)
    (h : (ofTree tree directory).tests root dir = .ok files) :
    ∃ ways : List (List String), ways.Nodup ∧ files.Perm (ways.map (·.foldl below dir)) ∧
      ∀ way ∈ ways, way ≠ [] ∧ ∀ name ∈ way, IsName name := by
  obtain ⟨entries, hlist, -, hsorted⟩ := tests_eq_ok_iff.1 h
  rw [list_eq] at hlist
  obtain ⟨way, -, hlistAt⟩ := bind_eq_ok_iff.1 hlist
  have hentries := Entry.areWellNamed_of_listAt htree hlistAt
  refine ⟨testWays entries, nodup_testWays hentries, ?_, ?_⟩
  · rw [← hsorted, ← tests_eq]
    exact Sorting.sort_perm _ _
  · intro way hway
    exact ⟨ne_nil_of_mem_testWays hway, isName_of_mem_testWays hentries hway⟩

/-- No path is listed twice. -/
theorem tests_nodup (htree : tree.isWellNamed = true)
    (h : (ofTree tree directory).tests root dir = .ok files) : files.Nodup := by
  obtain ⟨ways, hnodup, hperm, hways⟩ := exists_ways_of_tests htree h
  rw [hperm.nodup_iff]
  refine hnodup.map_on ?_
  intro way hway other hother heq
  obtain ⟨hne, hnames⟩ := hways way hway
  obtain ⟨hother, hothers⟩ := hways other hother
  exact eq_of_foldl_below_eq hne hother (fun name hname => (hnames name hname).1)
    (fun name hname => (hothers name hname).1) heq

end World

end Conformance.Files
