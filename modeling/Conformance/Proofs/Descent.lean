import Conformance.Proofs.Walking

/-!
# Paths that lead below a directory

Where a path leads to a directory, putting names below the path leads to the entries below that
directory, links on the way to it notwithstanding: `Entry.locate_foldl_below`. What can stand in the
way is the length of a name or of the whole path and nothing else, so a directory below is listed
under its own path if that is short enough (`World.list_foldl_below`).
-/

namespace Conformance.Files

/-! ### Parts of a path -/

/-- The stretches between slashes that are not empty. -/
def parts (path : List Char) : List (List Char) :=
  (Text.fields '/' path).filter (· ≠ [])

theorem steps_eq (path : List Char) : steps path =
    (parts path).map String.ofList ++ if path.getLast? = some '/' then ["."] else [] := by
  unfold steps parts
  split <;> simp

theorem parts_append_cons (before after : List Char) :
    parts (before ++ '/' :: after) = parts before ++ parts after := by
  unfold parts
  rw [Text.fields_append_cons, List.filter_append]

theorem isAbsolute_joinChars (base path : List Char) :
    isAbsolute (joinChars base path) = (isAbsolute path || isAbsolute base) := by
  unfold joinChars
  cases hpath : isAbsolute path with
  | true => simpa using hpath
  | false =>
    cases base with
    | nil => simpa [isAbsolute] using hpath
    | cons c base =>
      simp only [Bool.false_eq_true, if_false, Bool.false_or]
      split <;> rfl

theorem parts_joinChars (base path : List Char) : parts (joinChars base path) =
    if isAbsolute path then parts path else parts base ++ parts path := by
  unfold joinChars
  split
  · rfl
  · split
    · rename_i hbase
      rcases hbase with rfl | hlast
      · rfl
      · obtain ⟨base, rfl⟩ := List.getLast?_eq_some_iff.1 hlast
        have hnone : parts [] = [] := rfl
        rw [List.append_assoc, List.singleton_append, parts_append_cons, parts_append_cons, hnone,
          List.append_nil]
    · exact parts_append_cons base path

theorem parts_trimTrailing (path : List Char) :
    parts (Text.trimTrailing '/' path) = parts path := by
  obtain ⟨count, hcount⟩ := Text.exists_eq_trimTrailing_append '/' path
  have hslashes := Text.filter_fields_append_replicate '/' (Text.trimTrailing '/' path) count
  rw [← hcount] at hslashes
  exact hslashes.symm

theorem parts_lead_append (dir : String) (later : List Char) :
    parts (lead dir ++ later) = parts dir.toList ++ parts later := by
  unfold lead
  split
  · rename_i hdir
    subst hdir
    rfl
  · rw [List.append_assoc, List.singleton_append, parts_append_cons, parts_trimTrailing]

theorem isAbsolute_lead_append (dir : String) {later : List Char}
    (hlater : isAbsolute later = false) :
    isAbsolute (lead dir ++ later) = isAbsolute dir.toList := by
  unfold lead
  split
  · rename_i hdir
    subst hdir
    exact hlater
  · rename_i hdir
    obtain ⟨count, hcount⟩ := Text.exists_eq_trimTrailing_append '/' dir.toList
    cases htrim : Text.trimTrailing '/' dir.toList with
    | nil =>
      rw [htrim, List.nil_append] at hcount
      cases count with
      | zero => exact absurd (String.toList_eq_nil_iff.1 hcount) hdir
      | succ count =>
        rw [hcount]
        rfl
    | cons c rest =>
      rw [hcount, htrim]
      rfl

variable {way : List String}

theorem parts_spell (hne : way ≠ []) (h : ∀ name ∈ way, IsStep name) :
    parts (spell way).toList = way.map String.toList := by
  rw [parts, fields_spell hne h, List.filter_eq_self]
  intro chars hchars
  obtain ⟨name, hname, rfl⟩ := List.mem_map.1 hchars
  simpa using (h name hname).1

theorem isAbsolute_spell (h : ∀ name ∈ way, IsStep name) :
    isAbsolute (spell way).toList = false := by
  cases way with
  | nil => rfl
  | cons name rest =>
    have hname := h name List.mem_cons_self
    obtain ⟨c, chars, hchars⟩ :=
      List.exists_cons_of_ne_nil (mt String.toList_eq_nil_iff.1 hname.1)
    have hc : c ≠ '/' := by
      rintro rfl
      exact hname.2.2 (hchars ▸ List.mem_cons_self)
    rw [toList_spell, List.map_cons, hchars]
    cases rest <;> simp [isAbsolute, List.intercalate_cons_cons, hc]

theorem toList_join (root path : String) :
    (join root path).toList = joinChars root.toList path.toList :=
  String.toList_ofList

theorem getLast?_joinChars (base : List Char) {path : List Char} (hpath : path ≠ []) :
    (joinChars base path).getLast? = path.getLast? := by
  unfold joinChars
  split
  · rfl
  · split <;> simp [List.getLast?_append, List.getLast?_cons, List.getLast?_eq_some_getLast hpath]

theorem getLast?_foldl_below (hne : way ≠ []) (h : ∀ name ∈ way, IsStep name) (dir : String) :
    (way.foldl below dir).toList ≠ [] ∧ (way.foldl below dir).toList.getLast? ≠ some '/' := by
  have hlast := h _ (List.getLast_mem hne)
  rw [← List.dropLast_concat_getLast hne, List.foldl_append, List.foldl_cons, List.foldl_nil]
  exact ⟨mt String.toList_eq_nil_iff.1 (below_ne_empty hlast _), getLast?_below hlast _⟩

section Below

variable (hne : way ≠ []) (h : ∀ name ∈ way, IsStep name) (root dir : String)

include hne h

theorem steps_foldl_below : steps (join root (way.foldl below dir)).toList =
    (parts (join root dir).toList).map String.ofList ++ way := by
  obtain ⟨hnonempty, hlast⟩ := getLast?_foldl_below hne h dir
  have hself : String.ofList ∘ String.toList = id := funext fun name => String.ofList_toList
  rw [steps_eq, toList_join, getLast?_joinChars _ hnonempty, if_neg hlast, List.append_nil,
    toList_join, parts_joinChars, parts_joinChars, toList_foldl_below hne h,
    isAbsolute_lead_append _ (isAbsolute_spell h), parts_lead_append, parts_spell hne h]
  split <;> simp [hself]

theorem isAbsolute_foldl_below : isAbsolute (join root (way.foldl below dir)).toList =
    isAbsolute (join root dir).toList := by
  rw [toList_join, toList_join, isAbsolute_joinChars, isAbsolute_joinChars,
    toList_foldl_below hne h, isAbsolute_lead_append _ (isAbsolute_spell h)]

end Below

theorem mem_joinChars {c : Char} (hc : c ≠ '/') (base path : List Char) :
    c ∈ joinChars base path ↔ c ∈ path ∨ isAbsolute path = false ∧ c ∈ base := by
  unfold joinChars
  split
  · rename_i hpath
    simp [hpath]
  · rename_i hpath
    split <;> simp [hpath, hc, or_comm]

theorem mem_of_mem_lead {c : Char} (hc : c ≠ '/') {dir : String} (h : c ∈ lead dir) :
    c ∈ dir.toList := by
  obtain ⟨count, hcount⟩ := Text.exists_eq_trimTrailing_append '/' dir.toList
  unfold lead at h
  split at h
  · cases h
  · rw [hcount]
    rcases List.mem_append.1 h with htrim | hslash
    · exact List.mem_append_left _ htrim
    · exact absurd (List.mem_singleton.1 hslash) hc

theorem exists_mem_of_mem_spell {c : Char} (hc : c ≠ '/') (h : c ∈ (spell way).toList) :
    ∃ name ∈ way, c ∈ name.toList := by
  rw [toList_spell] at h
  induction way with
  | nil => cases h
  | cons name rest ih =>
    cases rest with
    | nil => exact ⟨name, List.mem_singleton.2 rfl, by simpa using h⟩
    | cons next rest =>
      rw [List.map_cons, List.map_cons, List.intercalate_cons_cons, List.append_assoc,
        List.mem_append, List.singleton_append, List.mem_cons] at h
      rcases h with hname | hslash | hrest
      · exact ⟨name, List.mem_cons_self, hname⟩
      · exact absurd hslash hc
      · obtain ⟨other, hother, hmem⟩ := ih hrest
        exact ⟨other, List.mem_cons_of_mem name hother, hmem⟩

theorem mem_join_of_mem_foldl_below {c : Char} {root dir : String} (hc : c ≠ '/') (hne : way ≠ [])
    (h : ∀ name ∈ way, IsStep name) (hnames : ∀ name ∈ way, c ∉ name.toList)
    (hmem : c ∈ (join root (way.foldl below dir)).toList) : c ∈ (join root dir).toList := by
  rw [toList_join, toList_foldl_below hne h, mem_joinChars hc, List.mem_append,
    isAbsolute_lead_append _ (isAbsolute_spell h)] at hmem
  rw [toList_join, mem_joinChars hc]
  rcases hmem with (hlead | hspell) | hroot
  · exact .inl (mem_of_mem_lead hc hlead)
  · obtain ⟨name, hname, hin⟩ := exists_mem_of_mem_spell hc hspell
    exact absurd hin (hnames name hname)
  · exact .inr hroot

/-! ### Trails -/

namespace Entry

variable {root entry : Entry} {start : List String}

theorem trail_append (start names later : List String) : root.trail start (names ++ later) =
    match root.trail start names with
    | .ok (.reached place) => root.trail place later
    | .ok (.diverted place target rest) => .ok (.diverted place target (rest ++ later))
    | .error cause => .error cause := by
  induction names generalizing start with
  | nil => rfl
  | cons name names ih =>
    rw [List.cons_append, trail, trail]
    split
    · split
      · exact ih start
      · split
        · exact ih _
        · split
          · rfl
          · split
            · rfl
            · rfl
            · exact ih _
    · rfl

theorem ne_link_of_at? {below : Entry} {way : List String} (hlink : ∀ target, entry ≠ .link target)
    (hat : below.at? way = some entry) (target : String) : below ≠ .link target := by
  rintro rfl
  cases way with
  | nil => exact hlink target (Option.some.inj hat).symm
  | cons name way => cases hat

theorem trail_of_at? {way : List String} (hlink : ∀ target, entry ≠ .link target)
    (hnames : ∀ name ∈ way, IsName name) (hat : root.at? (start ++ way) = some entry) :
    root.trail start way = if ∀ name ∈ way, name.utf8ByteSize ≤ longestName
      then .ok (.reached (start ++ way)) else .error .nameTooLong := by
  induction way generalizing start with
  | nil => simp [trail]
  | cons name way ih =>
    have hnext : root.at? ((start ++ [name]) ++ way) = some entry := by simpa using hat
    rw [at?_append] at hat
    obtain ⟨here, hhere, hbelow⟩ := Option.bind_eq_some_iff.1 hat
    cases here with
    | file text => cases hbelow
    | link target => cases hbelow
    | directory entries =>
      obtain ⟨below, hlookup, hrest⟩ := Option.bind_eq_some_iff.1 hbelow
      obtain ⟨⟨-, hdot, -⟩, hparent, -⟩ := hnames name List.mem_cons_self
      have htrail := ih (fun other hother => hnames other (List.mem_cons_of_mem name hother)) hnext
      rw [trail, hhere]
      simp only [hdot, hparent, if_false, hlookup, List.forall_mem_cons]
      by_cases hsize : name.utf8ByteSize ≤ longestName
      · rw [if_neg (Nat.not_lt.2 hsize)]
        simp only [hsize, true_and]
        cases below with
        | link target => exact absurd rfl (ne_link_of_at? hlink hrest target)
        | file text => simpa using htrail
        | directory below => simpa using htrail
      · rw [if_pos (Nat.not_le.1 hsize)]
        simp [hsize]

theorem eq_of_trail_dot {place : List String} (h : root.trail start ["."] = .ok (.reached place)) :
    start = place := by
  rw [trail] at h
  split at h
  · simpa [trail] using h
  · cases h

theorem trail_dot_ne_diverted {way : List String} {target : List Char} {rest : List String} :
    root.trail start ["."] ≠ .ok (.diverted way target rest) := by
  rw [trail]
  split
  · simp [trail]
  · simp

theorem pursue_eq (links : Nat) (start names : List String) : root.pursue links start names =
    match root.trail start names, links with
    | .error cause, _ => .error cause
    | .ok (.reached place), _ => .ok place
    | .ok (.diverted _ _ _), 0 => .error .tooManyLinks
    | .ok (.diverted way target rest), links + 1 =>
      root.pursue links (if isAbsolute target then [] else way) (steps target ++ rest) := by
  conv_lhs => unfold pursue
  rcases root.trail start names with cause | place | ⟨way, target, rest⟩
  · rfl
  · rfl
  · cases links <;> rfl

/-- A look-up that comes to its end goes on from there. -/
theorem pursue_append {links : Nat} {start names place later : List String}
    (h : root.pursue links start names = .ok place) {result : Except AccessFault (List String)}
    (hlater : root.trail place later = result.map .reached) :
    root.pursue links start (names ++ later) = result := by
  rw [pursue_eq] at h ⊢
  rw [trail_append]
  rcases htrail : root.trail start names with cause | way | ⟨way, target, rest⟩
  · simp [htrail] at h
  · obtain rfl : way = place := by simpa [htrail] using h
    simp only [hlater]
    cases result <;> rfl
  · cases links with
    | zero => simp [htrail] at h
    | succ links =>
      simp only [htrail] at h ⊢
      rw [← List.append_assoc]
      exact pursue_append h hlater
termination_by links

theorem pursue_of_dot {links : Nat} {start names place : List String}
    (h : root.pursue links start (names ++ ["."]) = .ok place) :
    root.pursue links start names = .ok place := by
  rw [pursue_eq, trail_append] at h
  rw [pursue_eq]
  rcases htrail : root.trail start names with cause | way | ⟨way, target, rest⟩
  · simp [htrail] at h
  · rcases hdot : root.trail way ["."] with cause | other | ⟨other, target, rest⟩
    · simp [htrail, hdot] at h
    · obtain rfl := eq_of_trail_dot hdot
      simpa [htrail, hdot] using h
    · exact absurd hdot trail_dot_ne_diverted
  · cases links with
    | zero => simp [htrail] at h
    | succ links =>
      simp only [htrail, ← List.append_assoc] at h ⊢
      exact pursue_of_dot h
termination_by links

variable {directory base dir : String} {way : List String}

theorem locate_eq_of_short {path : String} (hnul : '\x00' ∉ path.toList) (hne : path.toList ≠ [])
    (hsize : path.utf8ByteSize ≤ longestPath) : root.locate directory path =
      root.pursue linkLimit (if isAbsolute path.toList then [] else root.workingWay directory)
        (steps path.toList) := by
  unfold locate
  simp [hnul, hne, Nat.not_lt.2 hsize]

theorem short_of_locate {path : String} (h : root.locate directory path = .ok start) :
    '\x00' ∉ path.toList ∧ path.toList ≠ [] ∧ path.utf8ByteSize ≤ longestPath := by
  unfold locate at h
  dsimp only at h
  split at h
  · cases h
  · split at h
    · cases h
    · split at h
      · cases h
      · rename_i hnul hne hsize
        exact ⟨by simpa using hnul, hne, Nat.not_lt.1 hsize⟩

/-- Names below a path lead below the place to which the path leads, unless a name or the path is
too long. -/
theorem locate_foldl_below (hbase : root.locate directory (join base dir) = .ok start)
    (hlink : ∀ target, entry ≠ .link target) (hne : way ≠ []) (hnames : ∀ name ∈ way, IsName name)
    (hat : root.at? (start ++ way) = some entry) :
    root.locate directory (join base (way.foldl below dir)) =
      if (join base (way.foldl below dir)).utf8ByteSize ≤ longestPath ∧
          ∀ name ∈ way, name.utf8ByteSize ≤ longestName
        then .ok (start ++ way) else .error .nameTooLong := by
  have hsteps : ∀ name ∈ way, IsStep name := fun name hname => (hnames name hname).1
  obtain ⟨hnul, hnonempty, hsize⟩ := short_of_locate hbase
  rw [locate_eq_of_short hnul hnonempty hsize, steps_eq] at hbase
  have hdirectory : root.pursue linkLimit
      (if isAbsolute (join base dir).toList then [] else root.workingWay directory)
      ((parts (join base dir).toList).map String.ofList) = .ok start := by
    by_cases hslash : (join base dir).toList.getLast? = some '/'
    · rw [if_pos hslash] at hbase
      exact pursue_of_dot hbase
    · rwa [if_neg hslash, List.append_nil] at hbase
  have hbelow : '\x00' ∉ (join base (way.foldl below dir)).toList := fun hmem =>
    hnul (mem_join_of_mem_foldl_below (by decide) hne hsteps
      (fun name hname => (hnames name hname).2.2) hmem)
  have hfilled : (join base (way.foldl below dir)).toList ≠ [] := by
    intro hempty
    have hnone := steps_foldl_below hne hsteps base dir
    rw [hempty] at hnone
    exact hne (List.append_eq_nil_iff.1 hnone.symm).2
  by_cases hlength : (join base (way.foldl below dir)).utf8ByteSize ≤ longestPath
  · rw [locate_eq_of_short hbelow hfilled hlength, isAbsolute_foldl_below hne hsteps,
      steps_foldl_below hne hsteps]
    apply pursue_append hdirectory
    rw [trail_of_at? hlink hnames hat]
    simp only [hlength, true_and]
    split <;> rfl
  · rw [if_neg fun h => hlength h.1]
    unfold locate
    simp [hbelow, hfilled, Nat.not_le.1 hlength]

end Entry

/-- A directory below a directory is listed under its own path, unless a name or the path is too
long. -/
theorem World.list_foldl_below {tree : Entry} {directory root dir : String} {start way : List String}
    {entries : List (String × Entry)} (hbase : tree.locate directory (join root dir) = .ok start)
    (hne : way ≠ []) (hnames : ∀ name ∈ way, IsName name)
    (hat : tree.at? (start ++ way) = some (.directory entries)) :
    (ofTree tree directory).list (join root (way.foldl below dir)) =
      if (join root (way.foldl below dir)).utf8ByteSize ≤ longestPath ∧
          ∀ name ∈ way, name.utf8ByteSize ≤ longestName
        then .ok entries else .error .nameTooLong := by
  rw [list_eq, Entry.locate_foldl_below hbase (by simp) hne hnames hat]
  split
  · change tree.listAt (start ++ way) = _
    rw [Entry.listAt, hat]
  · rfl

end Conformance.Files
