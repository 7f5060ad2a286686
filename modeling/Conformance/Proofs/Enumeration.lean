import Mathlib.Data.List.TakeDrop
import Mathlib.Data.List.TakeWhile
import Conformance.Proofs.ByteOrder
import Conformance.Proofs.Descent

/-!
# Which tests are listed

An entry below a directory is shown if no name on the way to it begins with a dot (`IsShown`); links
are entries like any other, so no way leads through them. The tests that are listed are the shown
entries that are no directories and whose name ends in `.js` (`mem_testWays_iff`), and the
directories that are gone through are the shown ones (`mem_subdirectories_iff`). Each of these is
looked up by its path below the given directory; where all of them can be entered the tests are
listed in the order of their bytes, and otherwise the first that cannot be is told of:
`World.tests_enumerate`.
-/

namespace Conformance.Files

/-! ### Names of tests -/

theorem ne_dot_of_mem_reverse {chars : List Char} (h : '.' ∉ chars) :
    ∀ c ∈ chars.reverse, decide (c ≠ '.') = true := by
  intro c hc
  have hne : c ≠ '.' := fun heq => h (heq ▸ List.mem_reverse.1 hc)
  simpa using hne

theorem extension?_append (stem : List Char) {ext : List Char} (h : '.' ∉ ext) :
    extension? (stem ++ '.' :: ext) = if stem = [] then none else some ext := by
  have hall := ne_dot_of_mem_reverse h
  have hspan : (stem ++ '.' :: ext).reverse.span (· ≠ '.') =
      (ext.reverse, '.' :: stem.reverse) := by
    rw [List.span_eq_takeWhile_dropWhile, List.reverse_append, List.reverse_cons,
      List.append_assoc, List.takeWhile_append_of_pos hall, List.dropWhile_append_of_pos hall]
    simp
  rw [extension?, hspan]
  cases hstem : stem.reverse with
  | nil => simp [List.reverse_eq_nil_iff.1 hstem]
  | cons c before =>
    have hne : stem ≠ [] := by
      rintro rfl
      cases hstem
    simp [hne]

theorem extension?_of_not_mem {name : List Char} (h : '.' ∉ name) : extension? name = none := by
  rw [extension?, List.span_eq_takeWhile_dropWhile,
    List.dropWhile_eq_nil_iff.2 (ne_dot_of_mem_reverse h)]

/-- The extension is what follows the last dot, where something stands in front of that dot. -/
theorem extension?_eq_some_iff {name ext : List Char} : extension? name = some ext ↔
    ∃ stem, stem ≠ [] ∧ name = stem ++ '.' :: ext ∧ '.' ∉ ext := by
  constructor
  · intro h
    by_cases hdot : '.' ∈ name
    · obtain ⟨after, before, hsplit, hafter⟩ :=
        List.eq_append_cons_of_mem (List.mem_reverse.2 hdot)
      have hname : name = before.reverse ++ '.' :: after.reverse := by
        simpa using congrArg List.reverse hsplit
      have hext : '.' ∉ after.reverse := by simpa using hafter
      rw [hname, extension?_append _ hext] at h
      split at h
      · cases h
      · rename_i hstem
        obtain rfl := Option.some.inj h
        exact ⟨before.reverse, hstem, hname, hext⟩
    · rw [extension?_of_not_mem hdot] at h
      cases h
  · rintro ⟨stem, hstem, rfl, hext⟩
    rw [extension?_append stem hext, if_neg hstem]

theorem isTestName_iff {name : String} :
    isTestName name = true ↔ ∃ stem, stem ≠ "" ∧ name = stem ++ ".js" := by
  have htext : ∀ stem : String, stem ++ ".js" = String.ofList (stem.toList ++ '.' :: ['j', 's']) := by
    intro stem
    rw [← String.toList_inj]
    simp
  unfold isTestName
  rw [beq_iff_eq, extension?_eq_some_iff]
  constructor
  · rintro ⟨stem, hstem, hname, -⟩
    refine ⟨String.ofList stem, ?_, ?_⟩
    · intro hempty
      rw [← String.toList_inj, String.toList_ofList] at hempty
      exact hstem hempty
    · rw [htext, String.toList_ofList, ← String.ofList_toList (s := name), hname]
      rfl
  · rintro ⟨stem, hstem, rfl⟩
    refine ⟨stem.toList, mt String.toList_eq_nil_iff.1 hstem, ?_, by decide⟩
    rw [htext, String.toList_ofList]
    rfl

/-! ### What is shown -/

/-- An entry at the end of a way on which no name is hidden. -/
structure IsShown (entries : List (String × Entry)) (way : List String) (entry : Entry) :
    Prop where
  ne_nil : way ≠ []
  shown : ∀ name ∈ way, name.toList.head? ≠ some '.'
  at_eq : (Entry.directory entries).at? way = some entry

theorem isHidden_eq_false_iff {name : String} :
    isHidden name = false ↔ name.toList.head? ≠ some '.' := by
  simp [isHidden]

theorem not_isShown_nil {way : List String} {entry : Entry} : ¬ IsShown [] way entry := by
  rintro ⟨hne, -, hat⟩
  cases way with
  | nil => exact hne rfl
  | cons name way => cases hat

variable {name : String} {here entry : Entry} {entries rest : List (String × Entry)}
  {way : List String}

theorem isShown_cons_iff (hnew : rest.lookup name = none) :
    IsShown ((name, here) :: rest) way entry ↔
      (isHidden name = false ∧ (way = [name] ∧ entry = here ∨
        ∃ inner later, here = .directory inner ∧ way = name :: later ∧ IsShown inner later entry)) ∨
      IsShown rest way entry := by
  rw [isHidden_eq_false_iff]
  constructor
  · rintro ⟨hne, hshown, hat⟩
    cases way with
    | nil => exact absurd rfl hne
    | cons first later =>
      simp only [Entry.at?, List.lookup_cons] at hat
      by_cases hfirst : first = name
      · subst hfirst
        rw [beq_self_eq_true] at hat
        refine .inl ⟨hshown first List.mem_cons_self, ?_⟩
        cases later with
        | nil => exact .inl ⟨rfl, (Option.some.inj hat).symm⟩
        | cons next later =>
          cases here with
          | file text => cases hat
          | link target => cases hat
          | directory inner =>
            exact .inr ⟨inner, _, rfl, rfl, List.cons_ne_nil _ _,
              fun other hother => hshown other (List.mem_cons_of_mem first hother), hat⟩
      · rw [beq_false_of_ne hfirst] at hat
        exact .inr ⟨hne, hshown, hat⟩
  · rintro (⟨hname, ⟨rfl, rfl⟩ | ⟨inner, later, rfl, rfl, hlater⟩⟩ | ⟨hne, hshown, hat⟩)
    · exact ⟨List.cons_ne_nil _ _, by simpa using hname, by simp [Entry.at?]⟩
    · refine ⟨List.cons_ne_nil _ _, List.forall_mem_cons.2 ⟨hname, hlater.shown⟩, ?_⟩
      simpa [Entry.at?] using hlater.at_eq
    · refine ⟨hne, hshown, ?_⟩
      cases way with
      | nil => exact absurd rfl hne
      | cons first later =>
        simp only [Entry.at?, List.lookup_cons] at hat ⊢
        by_cases hfirst : first = name
        · subst hfirst
          simp [hnew] at hat
        · rw [beq_false_of_ne hfirst]
          exact hat

/-- An entry that is a test by what it is and by the last name on the way to it. -/
structure IsTestAt (way : List String) (entry : Entry) : Prop where
  ne_directory : ∀ inner, entry ≠ .directory inner
  named : ∃ before stem, stem ≠ "" ∧ way = before ++ [stem ++ ".js"]

theorem isTestAt_singleton_iff :
    IsTestAt [name] entry ↔ (∀ inner, entry ≠ .directory inner) ∧ isTestName name = true := by
  rw [isTestName_iff]
  constructor
  · rintro ⟨hentry, before, stem, hstem, hway⟩
    rw [← List.nil_append [name]] at hway
    exact ⟨hentry, stem, hstem, List.singleton_inj.1 (List.append_inj' hway rfl).2⟩
  · rintro ⟨hentry, stem, hstem, rfl⟩
    exact ⟨hentry, [], stem, hstem, rfl⟩

theorem isTestAt_cons_iff (hne : way ≠ []) : IsTestAt (name :: way) entry ↔ IsTestAt way entry := by
  constructor
  · rintro ⟨hentry, before, stem, hstem, hway⟩
    cases before with
    | nil => exact absurd (List.cons.inj hway).2 hne
    | cons first before => exact ⟨hentry, before, stem, hstem, (List.cons.inj hway).2⟩
  · rintro ⟨hentry, before, stem, hstem, rfl⟩
    exact ⟨hentry, name :: before, stem, hstem, rfl⟩

mutual

/-- The listed tests are those that are shown. -/
theorem mem_testWays_iff {entries : List (String × Entry)} (h : Entry.areWellNamed entries = true)
    {way : List String} :
    way ∈ testWays entries ↔ ∃ entry, IsShown entries way entry ∧ IsTestAt way entry := by
  cases entries with
  | nil => simp [testWays, not_isShown_nil]
  | cons first rest =>
    obtain ⟨name, here⟩ := first
    obtain ⟨-, hnew, hhere, hrest⟩ := Entry.areWellNamed_cons.1 h
    rw [mem_testWays_cons, mem_testWays_iff hrest]
    simp only [mem_testWaysAt_iff hhere, isShown_cons_iff hnew]
    constructor
    · rintro (⟨hname, later, ⟨rfl, htest⟩ | ⟨inner, entry, rfl, hshown, htest⟩, rfl⟩ |
        ⟨entry, hshown, htest⟩)
      · exact ⟨here, .inl ⟨hname, .inl ⟨rfl, rfl⟩⟩, isTestAt_singleton_iff.2 htest⟩
      · exact ⟨entry, .inl ⟨hname, .inr ⟨inner, later, rfl, rfl, hshown⟩⟩,
          (isTestAt_cons_iff hshown.ne_nil).2 htest⟩
      · exact ⟨entry, .inr hshown, htest⟩
    · rintro ⟨entry, ⟨hname, ⟨rfl, rfl⟩ | ⟨inner, later, rfl, rfl, hshown⟩⟩ | hshown, htest⟩
      · exact .inl ⟨hname, [], .inl ⟨rfl, isTestAt_singleton_iff.1 htest⟩, rfl⟩
      · exact .inl ⟨hname, later, .inr ⟨inner, entry, rfl, hshown,
          (isTestAt_cons_iff hshown.ne_nil).1 htest⟩, rfl⟩
      · exact .inr ⟨entry, hshown, htest⟩

theorem mem_testWaysAt_iff {here : Entry} (h : here.isWellNamed = true) {named : Bool}
    {way : List String} : way ∈ testWaysAt named here ↔
      (way = [] ∧ (∀ inner, here ≠ .directory inner) ∧ named = true) ∨
      ∃ inner entry, here = .directory inner ∧ IsShown inner way entry ∧ IsTestAt way entry := by
  cases here with
  | directory entries =>
    rw [testWaysAt, mem_testWays_iff h]
    simp
  | file text => cases named <;> simp [testWaysAt]
  | link target => cases named <;> simp [testWaysAt]

end

theorem mem_subdirectories_cons {dir path : String} :
    path ∈ subdirectories dir ((name, entry) :: rest) ↔
      (isHidden name = false ∧ path ∈ subdirectoriesAt (below dir name) entry) ∨
      path ∈ subdirectories dir rest := by
  rw [subdirectories, List.mem_append]
  split
  · rename_i hhidden
    simp [hhidden]
  · rename_i hshown
    simp [hshown]

mutual

/-- The directories that are gone through are those that are shown. -/
theorem mem_subdirectories_iff {entries : List (String × Entry)}
    (h : Entry.areWellNamed entries = true) {dir path : String} :
    path ∈ subdirectories dir entries ↔
      ∃ way inner, IsShown entries way (.directory inner) ∧ way.foldl below dir = path := by
  cases entries with
  | nil => simp [subdirectories, not_isShown_nil]
  | cons first rest =>
    obtain ⟨name, here⟩ := first
    obtain ⟨-, hnew, hhere, hrest⟩ := Entry.areWellNamed_cons.1 h
    rw [mem_subdirectories_cons, mem_subdirectories_iff hrest, mem_subdirectoriesAt_iff hhere]
    simp only [isShown_cons_iff hnew]
    constructor
    · rintro (⟨hname, entries, rfl, rfl | ⟨way, inner, hshown, rfl⟩⟩ | ⟨way, inner, hshown, rfl⟩)
      · exact ⟨[name], entries, .inl ⟨hname, .inl ⟨rfl, rfl⟩⟩, rfl⟩
      · exact ⟨name :: way, inner, .inl ⟨hname, .inr ⟨entries, way, rfl, rfl, hshown⟩⟩, rfl⟩
      · exact ⟨way, inner, .inr hshown, rfl⟩
    · rintro ⟨way, inner, ⟨hname, ⟨rfl, rfl⟩ | ⟨entries, later, rfl, rfl, hshown⟩⟩ | hshown, rfl⟩
      · exact .inl ⟨hname, inner, rfl, .inl rfl⟩
      · exact .inl ⟨hname, entries, rfl, .inr ⟨later, inner, hshown, rfl⟩⟩
      · exact .inr ⟨way, inner, hshown, rfl⟩

theorem mem_subdirectoriesAt_iff {here : Entry} (h : here.isWellNamed = true)
    {dir path : String} : path ∈ subdirectoriesAt dir here ↔
      ∃ entries, here = .directory entries ∧ (path = dir ∨
        ∃ way inner, IsShown entries way (.directory inner) ∧ way.foldl below dir = path) := by
  cases here with
  | directory entries =>
    rw [subdirectoriesAt, List.mem_cons, mem_subdirectories_iff h]
    simp
  | file text => simp [subdirectoriesAt]
  | link target => simp [subdirectoriesAt]

end

/-! ### Enumeration -/

theorem isName_of_at? {root : Entry} (h : root.isWellNamed = true)
    (hat : root.at? way = some entry) : ∀ name ∈ way, IsName name := by
  induction way generalizing root with
  | nil => exact List.forall_mem_nil _
  | cons name way ih =>
    cases root with
    | file text => cases hat
    | link target => cases hat
    | directory entries =>
      obtain ⟨here, hlookup, hbelow⟩ := Option.bind_eq_some_iff.1 hat
      obtain ⟨-, hall⟩ := Entry.areWellNamed_iff.1 h
      obtain ⟨hname, hhere⟩ := hall _ (Entry.mem_of_lookup hlookup)
      exact List.forall_mem_cons.2 ⟨hname, ih hhere hbelow⟩

/-- The path under which the end of a way below a directory is listed. -/
def pathBelow (dir : String) (way : List String) : String :=
  String.ofList (lead dir) ++ spell way

theorem foldl_below_eq (hne : way ≠ []) (h : ∀ name ∈ way, IsStep name) (dir : String) :
    way.foldl below dir = pathBelow dir way := by
  rw [← String.toList_inj, toList_foldl_below hne h]
  simp [pathBelow]

theorem IsShown.isName (h : IsShown entries way entry)
    (hentries : Entry.areWellNamed entries = true) : ∀ name ∈ way, IsName name := by
  have hroot : (Entry.directory entries).isWellNamed = true := hentries
  exact isName_of_at? hroot h.at_eq

theorem IsShown.foldl_below_eq (h : IsShown entries way entry)
    (hentries : Entry.areWellNamed entries = true) (dir : String) :
    way.foldl below dir = pathBelow dir way :=
  Files.foldl_below_eq h.ne_nil (fun name hname => (h.isName hentries name hname).1) dir

namespace World

/-- The directories that are shown among entries can be listed under their paths. -/
def CanEnter (world : World) (root dir : String) (entries : List (String × Entry)) : Prop :=
  ∀ way inner, IsShown entries way (.directory inner) →
    ∃ found, world.list (join root (pathBelow dir way)) = .ok found

variable {tree : Entry} {directory root dir : String}

theorem areWellNamed_of_list (htree : tree.isWellNamed = true)
    (hlist : (ofTree tree directory).list (join root dir) = .ok entries) :
    Entry.areWellNamed entries = true := by
  rw [list_eq] at hlist
  obtain ⟨start, -, hstart⟩ := bind_eq_ok_iff.1 hlist
  exact Entry.areWellNamed_of_listAt htree hstart

theorem list_pathBelow (htree : tree.isWellNamed = true)
    (hlist : (ofTree tree directory).list (join root dir) = .ok entries)
    {inner : List (String × Entry)} (hshown : IsShown entries way (.directory inner)) :
    (ofTree tree directory).list (join root (pathBelow dir way)) =
      if (join root (pathBelow dir way)).utf8ByteSize ≤ longestPath ∧
          ∀ name ∈ way, name.utf8ByteSize ≤ longestName
        then .ok inner else .error .nameTooLong := by
  have hentries := areWellNamed_of_list htree hlist
  rw [list_eq] at hlist
  obtain ⟨start, hstart, hlistAt⟩ := bind_eq_ok_iff.1 hlist
  have hat : tree.at? (start ++ way) = some (.directory inner) := by
    unfold Entry.listAt at hlistAt
    split at hlistAt
    · rename_i found hfound
      rw [Entry.at?_append, hfound, Option.bind_some, Except.ok.inj hlistAt]
      exact hshown.at_eq
    · cases hlistAt
  rw [← hshown.foldl_below_eq hentries]
  exact list_foldl_below hstart hshown.ne_nil (hshown.isName hentries) hat

theorem forall_mem_subdirectories_iff (hentries : Entry.areWellNamed entries = true)
    (world : World) :
    (∀ path ∈ subdirectories dir entries, ∃ found, world.list (join root path) = .ok found) ↔
      world.CanEnter root dir entries := by
  constructor
  · intro h way inner hshown
    rw [← hshown.foldl_below_eq hentries]
    exact h _ ((mem_subdirectories_iff hentries).2 ⟨way, inner, hshown, rfl⟩)
  · intro h path hpath
    obtain ⟨way, inner, hshown, rfl⟩ := (mem_subdirectories_iff hentries).1 hpath
    rw [hshown.foldl_below_eq hentries]
    exact h way inner hshown

theorem mem_files_iff (hentries : Entry.areWellNamed entries = true) {path : String} :
    path ∈ Files.tests dir entries ↔
      ∃ way entry, IsShown entries way entry ∧ IsTestAt way entry ∧ path = pathBelow dir way := by
  rw [tests_eq, List.mem_map]
  simp only [mem_testWays_iff hentries]
  constructor
  · rintro ⟨way, ⟨entry, hshown, htest⟩, rfl⟩
    exact ⟨way, entry, hshown, htest, hshown.foldl_below_eq hentries dir⟩
  · rintro ⟨way, entry, hshown, htest, rfl⟩
    exact ⟨way, ⟨entry, hshown, htest⟩, hshown.foldl_below_eq hentries dir⟩

/-- Where each directory can be entered, the tests are those that are shown. -/
theorem exists_tests_eq_ok (htree : tree.isWellNamed = true)
    (hlist : (ofTree tree directory).list (join root dir) = .ok entries)
    (henter : (ofTree tree directory).CanEnter root dir entries) :
    ∃ files, (ofTree tree directory).tests root dir = .ok files ∧
      files.Pairwise (fun a b => Text.bytes a < Text.bytes b) ∧
      ∀ path, path ∈ files ↔
        ∃ way entry, IsShown entries way entry ∧ IsTestAt way entry ∧ path = pathBelow dir way := by
  have hentries := areWellNamed_of_list htree hlist
  have htests := tests_eq_ok_iff.2
    ⟨entries, hlist, (forall_mem_subdirectories_iff hentries _).2 henter, rfl⟩
  refine ⟨_, htests, ?_, ?_⟩
  · have hascending : Sorting.Ascending (fun a b : String => a ≤ b)
        (Sorting.sort (fun a b => a ≤ b) (Files.tests dir entries)) :=
      Sorting.pairwise_sort (by simpa using String.le_total)
        (by simpa using fun _ _ _ => String.le_trans) _
    refine (hascending.and (tests_nodup htree htests)).imp ?_
    rintro a b ⟨hle, hne⟩
    rw [Text.bytes_lt_iff]
    exact String.not_le.1 fun hge => hne (String.le_antisymm (by simpa using hle) hge)
  · intro path
    rw [(Sorting.sort_perm _ _).mem_iff]
    exact mem_files_iff hentries

/-- Where a directory cannot be entered, there is no list, but the first of them and the cause. -/
theorem exists_tests_eq_error (htree : tree.isWellNamed = true)
    (hlist : (ofTree tree directory).list (join root dir) = .ok entries)
    (henter : ¬ (ofTree tree directory).CanEnter root dir entries) :
    ∃ way inner cause, IsShown entries way (.directory inner) ∧
      (ofTree tree directory).list (join root (pathBelow dir way)) = .error cause ∧
      (ofTree tree directory).tests root dir = .error ⟨join root (pathBelow dir way), cause⟩ := by
  have hentries := areWellNamed_of_list htree hlist
  rw [← forall_mem_subdirectories_iff hentries, ← forM_listBelow_eq_ok_iff] at henter
  cases hdirs : (subdirectories dir entries).forM fun path =>
      discard ((ofTree tree directory).listBelow root path) with
  | ok done => exact absurd hdirs henter
  | error refusal =>
    obtain ⟨before, path, after, hsplit, -, hpath⟩ := forM_listBelow_eq_error_iff.1 hdirs
    have hmem : path ∈ subdirectories dir entries := by simp [hsplit]
    obtain ⟨way, inner, hshown, rfl⟩ := (mem_subdirectories_iff hentries).1 hmem
    obtain ⟨hname, hcause⟩ := listBelow_eq_error_iff.1 hpath
    rw [hshown.foldl_below_eq hentries] at hname hcause
    refine ⟨way, inner, refusal.cause, hshown, hcause, ?_⟩
    rw [← hname]
    exact tests_eq_error_iff.2 (.inr ⟨entries, hlist, hdirs⟩)

/-- What is listed below a directory, in every tree and however the directory is spelled. Where
there is no directory, that is told under its own path. Otherwise the tests are those that are shown,
each once and in ascending order, if the directories among what is shown can be entered under their
paths. That fails where such a path is too long to be looked up, and in no other case. -/
theorem tests_enumerate (htree : tree.isWellNamed = true) (directory root dir : String) :
    (∀ cause, (ofTree tree directory).list (join root dir) = .error cause →
      (ofTree tree directory).tests root dir = .error ⟨join root dir, cause⟩) ∧
    ∀ entries, (ofTree tree directory).list (join root dir) = .ok entries →
      (∀ way inner, IsShown entries way (.directory inner) →
        (ofTree tree directory).list (join root (pathBelow dir way)) =
          if (join root (pathBelow dir way)).utf8ByteSize ≤ longestPath ∧
              ∀ name ∈ way, name.utf8ByteSize ≤ longestName
            then .ok inner else .error .nameTooLong) ∧
      ((ofTree tree directory).CanEnter root dir entries →
        ∃ files, (ofTree tree directory).tests root dir = .ok files ∧
          files.Pairwise (fun a b => Text.bytes a < Text.bytes b) ∧
          ∀ path, path ∈ files ↔ ∃ way entry, IsShown entries way entry ∧ IsTestAt way entry ∧
            path = pathBelow dir way) ∧
      (¬ (ofTree tree directory).CanEnter root dir entries →
        ∃ way inner cause, IsShown entries way (.directory inner) ∧
          (ofTree tree directory).list (join root (pathBelow dir way)) = .error cause ∧
          (ofTree tree directory).tests root dir =
            .error ⟨join root (pathBelow dir way), cause⟩) := by
  refine ⟨?_, fun entries hlist => ⟨?_, exists_tests_eq_ok htree hlist,
    exists_tests_eq_error htree hlist⟩⟩
  · intro cause hcause
    exact tests_eq_error_iff.2 (.inl (listBelow_eq_error_iff.2 ⟨rfl, hcause⟩))
  · intro way inner hshown
    exact list_pathBelow htree hlist hshown

def linkedTests : List (String × Entry) := [
  ("sub.js", .directory [
    ("up.js", .link ".."),
    ("one.js", .file (.ok "")),
    ("notes.md", .file (.ok ""))]),
  (".git", .directory [("two.js", .file (.ok ""))]),
  (".hidden.js", .file (.ok "")),
  ("js", .file (.ok "")),
  ("gone.js", .link "nowhere"),
  ("a.js", .file (.error .notText))]

/-- A directory of tests and a link to it. Among the tests are a link to nothing and one that leads
back up. -/
def linkedTree : Entry :=
  .directory [("corpus", .directory [("t", .link "test"), ("test", .directory linkedTests)])]

theorem tests_enumerate_linkedTree :
    linkedTree.isWellNamed = true ∧
    (∃ files, (ofTree linkedTree "/").tests "/corpus" "t//" = .ok files ∧
      files.Pairwise (fun a b => Text.bytes a < Text.bytes b) ∧
      files = ["t/a.js", "t/gone.js", "t/sub.js/one.js", "t/sub.js/up.js"]) ∧
    (ofTree linkedTree "/").tests "/corpus" "t/js" = .error ⟨"/corpus/t/js", .notDirectory⟩ := by
  have htree : linkedTree.isWellNamed = true := by decide +kernel
  have hentries : Entry.areWellNamed linkedTests = true := by decide +kernel
  obtain ⟨-, hfound⟩ := tests_enumerate htree "/" "/corpus" "t//"
  obtain ⟨hfault, -⟩ := tests_enumerate htree "/" "/corpus" "t/js"
  refine ⟨htree, ?_, ?_⟩
  · have hlink : linkedTree.locate "/" (join "/corpus" "t//") = .ok ["corpus", "test"] := by
      decide +kernel
    have hlist : (ofTree linkedTree "/").list (join "/corpus" "t//") = .ok linkedTests := by
      rw [list_eq, hlink]
      rfl
    have henter : (ofTree linkedTree "/").CanEnter "/corpus" "t//" linkedTests := by
      rw [← forall_mem_subdirectories_iff hentries]
      have hdirs : subdirectories "t//" linkedTests = ["t/sub.js"] := by decide +kernel
      have hlocate : linkedTree.locate "/" (join "/corpus" "t/sub.js") =
          .ok ["corpus", "test", "sub.js"] := by decide +kernel
      rw [hdirs, List.forall_mem_singleton, list_eq, hlocate]
      exact ⟨_, rfl⟩
    obtain ⟨-, hall, -⟩ := hfound linkedTests hlist
    obtain ⟨files, hfiles, hascending, -⟩ := hall henter
    have hnames : (ofTree linkedTree "/").tests "/corpus" "t//" =
        .ok ["t/a.js", "t/gone.js", "t/sub.js/one.js", "t/sub.js/up.js"] := by decide +kernel
    exact ⟨files, hfiles, hascending, Except.ok.inj (hfiles.symm.trans hnames)⟩
  · have hfile : linkedTree.locate "/" (join "/corpus" "t/js") = .ok ["corpus", "test", "js"] := by
      decide +kernel
    apply hfault
    rw [list_eq, hfile]
    rfl

end World

end Conformance.Files
