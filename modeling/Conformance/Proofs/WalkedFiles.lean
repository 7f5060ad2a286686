import Conformance.Proofs.Enumeration
import Conformance.Proofs.Planning

/-!
# What listed tests lead to

A directory lists each entry that is no directory and is named as a test, links among them, and
whether a link leads to a file is not asked before it is read. A listed path leads to a file unless
it is that of a link or too long to be looked up, and a test is planned as one that cannot be opened
exactly if its path does not lead to a file: `Files.World.listed_tests_lead`.
-/

namespace Conformance

namespace Files

namespace Entry

def isFile : Entry → Bool
  | .file _ => true
  | _ => false

mutual

/-- Whether a file that cannot be read is one that is no text, here and further below. -/
def isLegible : Entry → Bool
  | .file (.ok _) => true
  | .file (.error cause) => cause = .notText
  | .directory entries => areLegible entries
  | .link _ => true

def areLegible : List (String × Entry) → Bool
  | [] => true
  | (_, entry) :: rest => entry.isLegible && areLegible rest

end

theorem areLegible_iff {entries : List (String × Entry)} :
    areLegible entries = true ↔ ∀ known ∈ entries, known.2.isLegible = true := by
  induction entries with
  | nil => simp [areLegible]
  | cons first rest ih => simp [areLegible, ih]

theorem isLegible_at? {root entry : Entry} (h : root.isLegible = true) {way : List String}
    (hat : root.at? way = some entry) : entry.isLegible = true := by
  refine of_at? (fun entry => entry.isLegible = true) ?_ h hat
  intro entries hentries
  exact areLegible_iff.1 hentries

end Entry

/-! ### Looking up and reading -/

namespace Place

variable {place : Place} {names : List String} {cause : AccessFault}

theorem ne_notText_of_advance (h : place.advance names = .error cause) : cause ≠ .notText := by
  induction names generalizing place with
  | nil => cases h
  | cons name rest ih =>
    obtain ⟨above, here⟩ := place
    unfold advance at h
    cases here with
    | file text => exact Except.error.inj h ▸ by decide
    | link target => exact Except.error.inj h ▸ by decide
    | directory entries =>
      dsimp only at h
      by_cases hdot : name = "."
      · rw [if_pos hdot] at h
        exact ih h
      rw [if_neg hdot] at h
      by_cases hparent : name = ".."
      · rw [if_pos hparent] at h
        cases above with
        | nil => exact ih h
        | cons parent above => exact ih h
      rw [if_neg hparent] at h
      by_cases hlong : longestName < name.utf8ByteSize
      · rw [if_pos hlong] at h
        exact Except.error.inj h ▸ by decide
      rw [if_neg hlong] at h
      cases hlookup : entries.lookup name with
      | none =>
        rw [hlookup] at h
        exact Except.error.inj h ▸ by decide
      | some entry =>
        rw [hlookup] at h
        cases entry with
        | link target => cases h
        | file text => exact ih h
        | directory below => exact ih h

theorem ne_notText_of_follow {root : Entry} {links : Nat} {place : Place} {names : List String}
    (h : place.follow root links names = .error cause) : cause ≠ .notText := by
  unfold follow at h
  rcases hadvance : place.advance names with fault | place | ⟨directory, target, rest⟩ <;>
    rw [hadvance] at h
  · exact Except.error.inj h ▸ ne_notText_of_advance hadvance
  · cases h
  · cases links with
    | zero => exact Except.error.inj h ▸ by decide
    | succ links =>
      have hlater : follow root links (if isAbsolute target then ⟨[], root⟩ else directory)
          (steps target ++ rest) = .error cause := h
      exact ne_notText_of_follow hlater
termination_by links

end Place

namespace World

variable {world : World} {path : String}

/-- Whether a path stands for a file, links followed. -/
def leadsToFile (world : World) (path : String) : Bool :=
  match world.find path with
  | .ok place => place.here.isFile
  | .error _ => false

theorem ne_notText_of_find {cause : AccessFault} (h : world.find path = .error cause) :
    cause ≠ .notText := by
  unfold find at h
  dsimp only at h
  split at h
  · exact Except.error.inj h ▸ by decide
  · split at h
    · exact Except.error.inj h ▸ by decide
    · split at h
      · exact Except.error.inj h ▸ by decide
      · exact Place.ne_notText_of_follow h

variable {tree : Entry} {directory : String}

theorem isLegible_of_find (htree : tree.isLegible = true) {place : Place}
    (h : (ofTree tree directory).find path = .ok place) : place.here.isLegible = true := by
  have hlocate := find_locate tree directory path
  rw [h] at hlocate
  generalize tree.locate directory path = located at hlocate
  cases hlocate with
  | ok hplace => exact Entry.isLegible_at? htree hplace.at?_eq

theorem leadsToFile_iff_locate : (ofTree tree directory).leadsToFile path = true ↔
    ∃ way text, tree.locate directory path = .ok way ∧ tree.at? way = some (.file text) := by
  have hlocate := find_locate tree directory path
  unfold leadsToFile
  generalize (ofTree tree directory).find path = found at hlocate ⊢
  generalize tree.locate directory path = located at hlocate ⊢
  cases hlocate with
  | error cause => simp
  | @ok place way hplace =>
    have hat := hplace.at?_eq
    obtain ⟨above, here⟩ := place
    constructor
    · intro hfile
      cases here with
      | file text => exact ⟨way, text, rfl, hat⟩
      | directory entries => cases hfile
      | link target => cases hfile
    · rintro ⟨_, text, ⟨⟩, htext⟩
      obtain rfl : here = .file text := Option.some.inj (hat.symm.trans htext)
      rfl

/-- All that can keep the file that a path leads to from being read is that it is no text, and what
a path leads to that is no file cannot be read for another cause. -/
theorem leadsToFile_iff (htree : tree.isLegible = true) :
    (ofTree tree directory).leadsToFile path = true ↔
      ∀ cause, (ofTree tree directory).read path = .error cause → cause = .notText := by
  unfold leadsToFile read
  cases hfind : (ofTree tree directory).find path with
  | error cause =>
    have hne := ne_notText_of_find hfind
    exact iff_of_false Bool.false_ne_true fun h => hne (h cause rfl)
  | ok place =>
    have hhere := isLegible_of_find htree hfind
    obtain ⟨above, here⟩ := place
    cases here with
    | file text =>
      refine iff_of_true rfl fun cause h => ?_
      cases text with
      | ok text => cases h
      | error fault =>
        obtain rfl : fault = cause := Except.error.inj h
        simpa [Entry.isLegible] using hhere
    | directory entries => exact iff_of_false Bool.false_ne_true fun h => nomatch h _ rfl
    | link target => exact iff_of_false Bool.false_ne_true fun h => nomatch h _ rfl

/-! ### Listed tests -/

variable {root dir : String} {start way : List String} {entries : List (String × Entry)}
  {files : List String}

theorem exists_start_of_list
    (hlist : (ofTree tree directory).list (join root dir) = .ok entries) :
    ∃ start, tree.locate directory (join root dir) = .ok start ∧
      tree.at? start = some (.directory entries) := by
  rw [list_eq] at hlist
  obtain ⟨start, hstart, hlistAt⟩ := bind_eq_ok_iff.1 hlist
  refine ⟨start, hstart, ?_⟩
  unfold Entry.listAt at hlistAt
  split at hlistAt
  · rename_i found hfound
    rw [hfound, Except.ok.inj hlistAt]
  · cases hlistAt

theorem mem_tests_iff (htree : tree.isWellNamed = true)
    (hlist : (ofTree tree directory).list (join root dir) = .ok entries)
    (h : (ofTree tree directory).tests root dir = .ok files) : path ∈ files ↔
      ∃ way entry, IsShown entries way entry ∧ IsTestAt way entry ∧ path = pathBelow dir way := by
  obtain ⟨found, hfound, -, rfl⟩ := tests_eq_ok_iff.1 h
  obtain rfl : found = entries := Except.ok.inj (hfound.symm.trans hlist)
  rw [(Sorting.sort_perm _ _).mem_iff, mem_files_iff (areWellNamed_of_list htree hlist)]

theorem leadsToFile_pathBelow_iff {text : Except AccessFault String}
    (hstart : tree.locate directory (join root dir) = .ok start) (hne : way ≠ [])
    (hnames : ∀ name ∈ way, IsName name) (hat : tree.at? (start ++ way) = some (.file text)) :
    (ofTree tree directory).leadsToFile (join root (pathBelow dir way)) = true ↔
      (join root (pathBelow dir way)).utf8ByteSize ≤ longestPath ∧
        ∀ name ∈ way, name.utf8ByteSize ≤ longestName := by
  have hlocate := Entry.locate_foldl_below hstart (by simp) hne hnames hat
  rw [foldl_below_eq hne fun name hname => (hnames name hname).1] at hlocate
  rw [leadsToFile_iff_locate, hlocate]
  constructor
  · rintro ⟨place, text, hplace, -⟩
    by_contra hlong
    rw [if_neg hlong] at hplace
    cases hplace
  · intro hshort
    rw [if_pos hshort]
    exact ⟨_, text, rfl, hat⟩

end World

end Files

theorem FrontMatter.extract_ne_access {source path : String} {cause : Files.AccessFault} :
    extract source ≠ .error (.access path cause) := by
  unfold extract
  rcases FrontMatter.read source.toList with fault | matter
  · cases fault <;> simp [Except.mapError, Problem.ofReadFault]
  · simp [Except.mapError]

namespace Plan

open Files

variable {world : World} {settings : Settings} {path : String} {cause : AccessFault}

theorem ofFile_eq_access_iff (hreason : settings.skipList.reason? path = none) :
    ofFile world settings path = .invalid (.access (join settings.root path) cause) ↔
      world.read (join settings.root path) = .error cause := by
  rw [ofFile_eq_iff]
  constructor
  · intro h
    cases h with
    | unreadable _ hread => exact hread
    | read _ _ hplanned =>
      cases hplanned with
      | malformed _ hextract => exact absurd hextract FrontMatter.extract_ne_access
  · exact fun hread => .unreadable hreason hread

/-- Files that are no text apart, the tests that cannot be opened are those that lead to no file. -/
theorem exists_access_iff {tree : Entry} {directory : String} (htree : tree.isLegible = true)
    (hreason : settings.skipList.reason? path = none) :
    (∃ cause, cause ≠ .notText ∧ ofFile (.ofTree tree directory) settings path =
        .invalid (.access (join settings.root path) cause)) ↔
      (World.ofTree tree directory).leadsToFile (join settings.root path) = false := by
  rw [← Bool.not_eq_true, World.leadsToFile_iff htree]
  simp only [ofFile_eq_access_iff hreason]
  push Not
  exact exists_congr fun cause => and_comm

end Plan

namespace Files.World

variable {tree : Entry} {directory root dir : String} {files : List String}

/-- What the paths lead to that are listed below a directory. Each is the path of a link or of a
file, and links are listed whatever they lead to. The path of a file leads to it unless it is too
long; and any path that is listed is planned as one that cannot be opened, for another cause than
that it is no text, just if it leads to no file. -/
theorem listed_tests_lead (htree : tree.isWellNamed = true) (hlegible : tree.isLegible = true)
    (h : (ofTree tree directory).tests root dir = .ok files) :
    ∃ start entries, tree.locate directory (join root dir) = .ok start ∧
      tree.at? start = some (.directory entries) ∧
      (∀ way target, IsShown entries way (.link target) → IsTestAt way (.link target) →
        pathBelow dir way ∈ files) ∧
      ∀ path ∈ files,
        (∃ way, path = pathBelow dir way ∧
          ((∃ target, tree.at? (start ++ way) = some (.link target)) ∨
            (∃ text, tree.at? (start ++ way) = some (.file text)) ∧
              ((ofTree tree directory).leadsToFile (join root path) = true ↔
                (join root path).utf8ByteSize ≤ longestPath ∧
                  ∀ name ∈ way, name.utf8ByteSize ≤ longestName))) ∧
        ∀ settings : Settings, settings.root = root → settings.skipList.reason? path = none →
          ((∃ cause, cause ≠ .notText ∧ Plan.ofFile (ofTree tree directory) settings path =
              .invalid (.access (join root path) cause)) ↔
            (ofTree tree directory).leadsToFile (join root path) = false) := by
  obtain ⟨entries, hlist, -, -⟩ := tests_eq_ok_iff.1 h
  obtain ⟨start, hstart, hentries⟩ := exists_start_of_list hlist
  have hmem : ∀ path, path ∈ files ↔ _ := fun path => mem_tests_iff htree hlist h
  refine ⟨start, entries, hstart, hentries, ?_, fun path hpath => ⟨?_, ?_⟩⟩
  · intro way target hshown htest
    exact (hmem _).2 ⟨way, _, hshown, htest, rfl⟩
  · obtain ⟨way, entry, hshown, htest, rfl⟩ := (hmem path).1 hpath
    have hnames := hshown.isName (areWellNamed_of_list htree hlist)
    have hat : tree.at? (start ++ way) = some entry := by
      rw [Entry.at?_append, hentries]
      exact hshown.at_eq
    refine ⟨way, rfl, ?_⟩
    cases entry with
    | directory inner => exact absurd rfl (htest.ne_directory inner)
    | link target => exact .inl ⟨target, hat⟩
    | file text =>
      exact .inr ⟨⟨text, hat⟩, leadsToFile_pathBelow_iff hstart hshown.ne_nil hnames hat⟩
  · rintro settings rfl hreason
    exact Plan.exists_access_iff hlegible hreason

/-- A directory of a test and of links to nothing, to themselves and to a directory. -/
def strayTree : Entry :=
  .directory [("corpus", .directory [("test", .directory [
    ("a.js", .file (.ok "")),
    ("gone.js", .link "nowhere"),
    ("loop.js", .link "loop.js"),
    ("up.js", .link "..")])])]

def straySettings : Settings :=
  { Settings.standard with root := "/corpus" }

theorem listed_tests_lead_stray :
    strayTree.isWellNamed = true ∧ strayTree.isLegible = true ∧
    (ofTree strayTree "/").tests "/corpus" "test" =
      .ok ["test/a.js", "test/gone.js", "test/loop.js", "test/up.js"] ∧
    straySettings.skipList.reason? "test/up.js" = none ∧
    ∃ cause, cause ≠ .notText ∧ Plan.ofFile (ofTree strayTree "/") straySettings "test/up.js" =
      .invalid (.access "/corpus/test/up.js" cause) := by
  have htree : strayTree.isWellNamed = true := by decide +kernel
  have hlegible : strayTree.isLegible = true := by decide +kernel
  have htests : (ofTree strayTree "/").tests "/corpus" "test" =
      .ok ["test/a.js", "test/gone.js", "test/loop.js", "test/up.js"] := by decide +kernel
  have hreason : straySettings.skipList.reason? "test/up.js" = none := by decide +kernel
  have hleads : (ofTree strayTree "/").leadsToFile (join "/corpus" "test/up.js") = false := by
    decide +kernel
  obtain ⟨start, entries, -, -, -, hpaths⟩ := listed_tests_lead htree hlegible htests
  obtain ⟨-, hplan⟩ := hpaths "test/up.js" (by simp)
  exact ⟨htree, hlegible, htests, hreason, (hplan straySettings rfl hreason).2 hleads⟩

/-- Links that lead to no file are listed and cannot be opened. -/
theorem links_are_listed :
    (ofTree strayTree "/").tests "/corpus" "test" =
      .ok ["test/a.js", "test/gone.js", "test/loop.js", "test/up.js"] ∧
    (ofTree strayTree "/").leadsToFile "/corpus/test/gone.js" = false ∧
    (ofTree strayTree "/").leadsToFile "/corpus/test/loop.js" = false ∧
    (ofTree strayTree "/").leadsToFile "/corpus/test/up.js" = false ∧
    Plan.ofFile (ofTree strayTree "/") straySettings "test/gone.js" =
      .invalid (.access "/corpus/test/gone.js" .notFound) ∧
    Plan.ofFile (ofTree strayTree "/") straySettings "test/loop.js" =
      .invalid (.access "/corpus/test/loop.js" .tooManyLinks) ∧
    Plan.ofFile (ofTree strayTree "/") straySettings "test/up.js" =
      .invalid (.access "/corpus/test/up.js" .isDirectory) := by
  have hplan : ∀ path full cause, straySettings.skipList.reason? path = none →
      join "/corpus" path = full → (ofTree strayTree "/").read full = .error cause →
      Plan.ofFile (ofTree strayTree "/") straySettings path = .invalid (.access full cause) := by
    rintro path _ cause hreason rfl hread
    exact (Plan.ofFile_eq_access_iff hreason).2 hread
  refine ⟨by decide +kernel, by decide +kernel, by decide +kernel, by decide +kernel, ?_, ?_, ?_⟩
  · exact hplan _ _ _ (by decide +kernel) (by decide +kernel) (by decide +kernel)
  · exact hplan _ _ _ (by decide +kernel) (by decide +kernel) (by decide +kernel)
  · exact hplan _ _ _ (by decide +kernel) (by decide +kernel) (by decide +kernel)

end Files.World

end Conformance
