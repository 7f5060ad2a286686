import Conformance.Proofs.Adjudication

/-!
# What is looked at in order to judge

Judging a run asks for the constructor of a thrown value only where a failure of the declared phase
is judged, and for the listing only where a declared failure did not come as declared. What is not
asked for makes no difference, be it a panic; of what is asked for, the constructor decides the
verdict, and the listing is attached to it. `judges` says so for every run, and everything in
`Sparing` is read off it.
-/

namespace Conformance

namespace Verdict

/-- The same verdict with another listing; a pass carries none. -/
def withListing : Verdict → Option String → Verdict
  | .pass, _ => .pass
  | .fail message _, listing => .fail message listing
  | .fatal message _, listing => .fatal message listing

variable (verdict : Verdict) (listing other : Option String)

@[simp] theorem withListing_withListing :
    (verdict.withListing listing).withListing other = verdict.withListing other := by
  cases verdict <;> rfl

@[simp] theorem withListing_eq_pass_iff :
    verdict.withListing listing = .pass ↔ verdict = .pass := by
  cases verdict <;> simp [withListing]

theorem diagnostics?_withListing (h : verdict ≠ .pass) :
    (verdict.withListing listing).diagnostics? = listing := by
  cases verdict with
  | pass => exact absurd rfl h
  | fail message old => rfl
  | fatal message old => rfl

end Verdict

/-- The same outcome, where a thrown value answers otherwise for its constructor. -/
def Outcome.withLookup (lookup : Answer (Except ConstructorFault String)) : Outcome → Outcome
  | .failure (.thrown value) phase =>
    .failure (.thrown { value with constructorName := lookup }) phase
  | outcome => outcome

/-- The look-ups that judging makes: that of a value thrown in the phase declared. -/
def lookups : Option Negative → Outcome → List Inquiry
  | some expected, .failure (.thrown _) phase =>
    if phase = expected.phase then [.constructor] else []
  | _, _ => []

/-- A failure is declared, and there is one. -/
def IsTried (negative : Option Negative) (outcome : Outcome) : Prop :=
  negative.isSome = true ∧ outcome.isSuccess = false

/-- The ways in which judging can go, whatever is answered for the listing. -/
inductive Judges (negative : Option Negative) (outcome : Outcome)
    (judge : Answer (Option String) → Adjudication) : Prop where
  /-- The verdict takes no listing. -/
  | plain {verdict : Verdict} : verdict.diagnostics? = none →
    (IsTried negative outcome → verdict = .pass) →
    (∀ dump, judge dump = ⟨.returned verdict, lookups negative outcome⟩) →
    Judges negative outcome judge
  | listed {verdict : Verdict} : verdict ≠ .pass → IsTried negative outcome →
    (∀ dump, judge dump = ⟨dump.map verdict.withListing, lookups negative outcome ++ [.dump]⟩) →
    Judges negative outcome judge
  /-- The look-up panics, and nothing comes after it. -/
  | broken {value : Thrown} {phase : Phase} {panic : Panic} :
    outcome = .failure (.thrown value) phase → value.constructorName = .panicked panic →
    lookups negative outcome = [.constructor] →
    (∀ dump, judge dump = ⟨.panicked panic, lookups negative outcome⟩) →
    Judges negative outcome judge

variable {name : String} {negative : Option Negative} {outcome : Outcome}

theorem constructor_mem_lookups_iff : .constructor ∈ lookups negative outcome ↔
    ∃ expected value, negative = some expected ∧
      outcome = .failure (.thrown value) expected.phase := by
  constructor
  · intro h
    unfold lookups at h
    split at h
    · split at h
      · rename_i expected value phase hphase
        exact ⟨expected, value, rfl, hphase ▸ rfl⟩
      · cases h
    · cases h
  · rintro ⟨expected, value, rfl, rfl⟩
    simp [lookups]

theorem lookups_cases (negative : Option Negative) (outcome : Outcome) :
    lookups negative outcome = [] ∨ lookups negative outcome = [.constructor] := by
  unfold lookups
  split
  · split
    · exact .inr rfl
    · exact .inl rfl
  · exact .inl rfl

theorem judges_settled {verdict : Verdict} (hnone : lookups negative outcome = [])
    (hdiagnostics : verdict.diagnostics? = none) (htried : ¬ IsTried negative outcome) :
    Judges negative outcome fun _ => .settled verdict := by
  refine .plain hdiagnostics (fun h => absurd h htried) ?_
  intro dump
  rw [hnone]
  rfl

section Declared

variable {expected : Negative} {failure : Failure} {phase : Phase} {inquiries : List Inquiry}

theorem isTried_failure (expected : Negative) (failure : Failure) (phase : Phase) :
    IsTried (some expected) (.failure failure phase) := ⟨rfl, rfl⟩

theorem judges_withDump (verdict : Verdict)
    (hlookups : lookups (some expected) (.failure failure phase) = inquiries)
    (hverdict : verdict ≠ .pass) :
    Judges (some expected) (.failure failure phase) fun dump =>
      .after inquiries (.withDump verdict.withListing dump) := by
  refine .listed hverdict (isTried_failure expected failure phase) ?_
  intro dump
  rw [hlookups]
  rfl

theorem lookups_of_eq (expected : Negative) (failure : Failure) :
    lookups (some expected) (.failure failure expected.phase) =
      if failure.isThrown then [.constructor] else [] := by
  cases failure <;> simp [lookups, Failure.isThrown]

theorem exists_thrown_of_panicked {panic : Panic} (h : failure.errorType = .panicked panic) :
    ∃ value, failure = .thrown value ∧ value.constructorName = .panicked panic := by
  cases failure with
  | compile error => cases h
  | load path cause => cases h
  | panicked message => cases h
  | thrown value =>
    refine ⟨value, rfl, ?_⟩
    unfold Failure.errorType at h
    cases hname : value.constructorName with
    | returned answer => simp [hname, Answer.map, Answer.bind] at h
    | panicked other => simpa [hname, Answer.map, Answer.bind] using h

theorem judges_adjudicateType (name : String) (expected : Negative) (failure : Failure) :
    Judges (some expected) (.failure failure expected.phase)
      (adjudicateType name expected failure) := by
  have hlookups := lookups_of_eq expected failure
  unfold adjudicateType
  cases htype : failure.errorType with
  | panicked panic =>
    obtain ⟨value, rfl, hname⟩ := exists_thrown_of_panicked htype
    refine .broken rfl hname hlookups ?_
    intro dump
    rw [hlookups]
  | returned answer =>
    cases answer with
    | error odd => exact judges_withDump (.fatal _ none) hlookups (by simp)
    | ok errorType =>
      by_cases h : errorType = expected.errorType
      · refine @Judges.plain _ _ _ .pass rfl (fun _ => rfl) ?_
        intro dump
        simp [h, hlookups, Adjudication.after, Adjudication.settled]
      · simp only [h, if_false]
        exact judges_withDump (.fail _ none) hlookups (by simp)

end Declared

/-- Judging goes in one of those ways. -/
theorem judges (name : String) (negative : Option Negative) (outcome : Outcome) :
    Judges negative outcome (adjudicate name negative outcome) := by
  cases outcome with
  | success =>
    cases negative with
    | none => exact judges_settled rfl rfl (by simp [IsTried])
    | some expected => exact judges_settled rfl rfl (by simp [IsTried, Outcome.isSuccess])
  | failure failure phase =>
    cases negative with
    | none => exact judges_settled rfl rfl (by simp [IsTried])
    | some expected =>
      by_cases h : phase = expected.phase
      · subst h
        have htype := judges_adjudicateType name expected failure
        unfold adjudicate
        simpa using htype
      · have hlookups : lookups (some expected) (.failure failure phase) = [] := by
          cases failure <;> simp [lookups, h]
        unfold adjudicate
        simp only [h, if_false]
        exact judges_withDump (.fail _ none) hlookups (by simp)

namespace Judges

variable {judge : Answer (Option String) → Adjudication} (h : Judges negative outcome judge)

include h

theorem inquiries_eq (dump other : Answer (Option String)) :
    (judge dump).inquiries = (judge other).inquiries := by
  cases h with
  | plain _ _ hjudge => rw [hjudge, hjudge]
  | listed _ _ hjudge => rw [hjudge, hjudge]
  | broken _ _ _ hjudge => rw [hjudge, hjudge]

theorem nodup (dump : Answer (Option String)) : (judge dump).inquiries.Nodup := by
  rcases lookups_cases negative outcome with hlookups | hlookups
  all_goals cases h with
    | plain _ _ hjudge => simp [hjudge, hlookups]
    | listed _ _ hjudge => simp [hjudge, hlookups]
    | broken _ _ _ hjudge => simp [hjudge, hlookups]

theorem constructor_mem_iff (dump : Answer (Option String)) :
    .constructor ∈ (judge dump).inquiries ↔ .constructor ∈ lookups negative outcome := by
  cases h with
  | plain _ _ hjudge => rw [hjudge]
  | listed _ _ hjudge => simp [hjudge]
  | broken _ _ _ hjudge => rw [hjudge]

omit h in
theorem dump_not_mem_lookups : Inquiry.dump ∉ lookups negative outcome := by
  rcases lookups_cases negative outcome with hlookups | hlookups <;> simp [hlookups]

theorem dump_mem_iff {dump : Answer (Option String)} {verdict : Verdict}
    (hverdict : (judge dump).verdict = .returned verdict) :
    .dump ∈ (judge dump).inquiries ↔ IsTried negative outcome ∧ verdict ≠ .pass := by
  cases h with
  | plain _ htried hjudge =>
    rw [hjudge] at hverdict ⊢
    obtain rfl := Answer.returned.inj hverdict
    refine iff_of_false dump_not_mem_lookups ?_
    rintro ⟨hdeclared, hne⟩
    exact hne (htried hdeclared)
  | listed hne htried hjudge =>
    rw [hjudge] at hverdict ⊢
    obtain ⟨listing, -, rfl⟩ := Answer.map_eq_returned_iff.1 hverdict
    simp [htried, hne]
  | broken _ _ _ hjudge =>
    rw [hjudge] at hverdict
    cases hverdict

theorem diagnostics?_eq {listing : Option String} {verdict : Verdict}
    (hverdict : (judge (.returned listing)).verdict = .returned verdict) :
    verdict.diagnostics? =
      if .dump ∈ (judge (.returned listing)).inquiries then listing else none := by
  cases h with
  | plain hnone _ hjudge =>
    rw [hjudge] at hverdict ⊢
    obtain rfl := Answer.returned.inj hverdict
    rw [if_neg dump_not_mem_lookups, hnone]
  | listed hne _ hjudge =>
    rw [hjudge] at hverdict ⊢
    obtain rfl := Answer.returned.inj hverdict
    rw [if_pos (by simp), Verdict.diagnostics?_withListing _ _ hne]
  | broken _ _ _ hjudge =>
    rw [hjudge] at hverdict
    cases hverdict

/-- What is answered for the listing decides nothing but the listing. -/
theorem verdict_eq (listing other : Option String) :
    (judge (.returned listing)).verdict.map (·.withListing none) =
      (judge (.returned other)).verdict.map (·.withListing none) := by
  cases h with
  | plain _ _ hjudge => rw [hjudge, hjudge]
  | listed _ _ hjudge => simp [hjudge, Answer.map, Answer.bind]
  | broken _ _ _ hjudge => rw [hjudge, hjudge]

/-- Where there is no verdict though there is an answer for the listing, the look-up panicked. -/
theorem broken_of_panicked {listing : Option String} {panic : Panic}
    (hverdict : (judge (.returned listing)).verdict = .panicked panic) :
    (∃ value phase, outcome = .failure (.thrown value) phase ∧
      value.constructorName = .panicked panic) ∧
    ∀ dump, judge dump = ⟨.panicked panic, [.constructor]⟩ := by
  cases h with
  | plain _ _ hjudge =>
    rw [hjudge] at hverdict
    cases hverdict
  | listed _ _ hjudge =>
    rw [hjudge] at hverdict
    cases hverdict
  | @broken value phase _ houtcome hname hlookups hjudge =>
    rw [hjudge] at hverdict
    obtain rfl := Answer.panicked.inj hverdict
    refine ⟨⟨value, phase, houtcome, hname⟩, ?_⟩
    intro dump
    rw [hjudge, hlookups]

theorem eq_of_not_mem {dump : Answer (Option String)}
    (hdump : .dump ∉ (judge dump).inquiries) (other : Answer (Option String)) :
    judge other = judge dump := by
  cases h with
  | plain _ _ hjudge => rw [hjudge, hjudge]
  | listed _ _ hjudge => simp [hjudge] at hdump
  | broken _ _ _ hjudge => rw [hjudge, hjudge]

theorem panicked_of_mem {dump : Answer (Option String)}
    (hdump : .dump ∈ (judge dump).inquiries) (panic : Panic) :
    (judge (.panicked panic)).verdict = .panicked panic := by
  cases h with
  | plain _ _ hjudge =>
    rw [hjudge] at hdump
    exact absurd hdump dump_not_mem_lookups
  | listed _ _ hjudge =>
    rw [hjudge]
    rfl
  | broken _ _ _ hjudge =>
    rw [hjudge] at hdump
    exact absurd hdump dump_not_mem_lookups

end Judges

/-! ### Other answers for the constructor -/

/-- A value that is not looked at can answer anything. -/
theorem adjudicate_withLookup {dump : Answer (Option String)}
    (h : ∀ expected, negative = some expected → outcome.phase? ≠ some expected.phase)
    (lookup : Answer (Except ConstructorFault String)) :
    adjudicate name negative (outcome.withLookup lookup) dump =
      adjudicate name negative outcome dump := by
  cases outcome with
  | success => rfl
  | failure failure phase =>
    cases failure with
    | compile error => rfl
    | load path cause => rfl
    | panicked message => rfl
    | thrown value =>
      cases negative with
      | none => rfl
      | some expected =>
        have hphase : phase ≠ expected.phase := fun heq => h expected rfl (congrArg some heq)
        have htext : (Failure.thrown { value with constructorName := lookup }).text =
            (Failure.thrown value).text := rfl
        simp [Outcome.withLookup, adjudicate, hphase, htext]

theorem adjudicate_panicking_lookup {dump : Answer (Option String)}
    (h : .constructor ∈ lookups negative outcome) (panic : Panic) :
    adjudicate name negative (outcome.withLookup (.panicked panic)) dump =
      ⟨.panicked panic, [.constructor]⟩ := by
  obtain ⟨expected, value, rfl, rfl⟩ := constructor_mem_lookups_iff.1 h
  simp [Outcome.withLookup, adjudicate, adjudicateType, Failure.errorType, Failure.isThrown,
    Answer.map, Answer.bind]

/-! ### What judging asks for -/

/-- Judging a run asks for no more than it needs, and takes no more than that from the answers. -/
structure Sparing (name : String) (negative : Option Negative) (outcome : Outcome) : Prop where
  inquiries_nodup : ∀ dump, (adjudicate name negative outcome dump).inquiries.Nodup
  inquiries_eq : ∀ dump other, (adjudicate name negative outcome dump).inquiries =
    (adjudicate name negative outcome other).inquiries
  constructor_mem_iff : ∀ dump,
    .constructor ∈ (adjudicate name negative outcome dump).inquiries ↔
      ∃ expected value, negative = some expected ∧
        outcome = .failure (.thrown value) expected.phase
  dump_mem_iff : ∀ dump verdict,
    (adjudicate name negative outcome dump).verdict = .returned verdict →
      (.dump ∈ (adjudicate name negative outcome dump).inquiries ↔
        negative.isSome = true ∧ outcome.isSuccess = false ∧ verdict ≠ .pass)
  /-- A panic that is not that of the listing is that of the look-up, which comes before. -/
  broken_of_panicked : ∀ listing panic,
    (adjudicate name negative outcome (.returned listing)).verdict = .panicked panic →
      (∃ value phase, outcome = .failure (.thrown value) phase ∧
        value.constructorName = .panicked panic) ∧
      ∀ dump, adjudicate name negative outcome dump = ⟨.panicked panic, [.constructor]⟩
  diagnostics?_eq : ∀ listing verdict,
    (adjudicate name negative outcome (.returned listing)).verdict = .returned verdict →
      verdict.diagnostics? =
        if .dump ∈ (adjudicate name negative outcome (.returned listing)).inquiries then listing
        else none
  /-- Kind and message are the same whatever the listing is. -/
  verdict_eq : ∀ listing other,
    (adjudicate name negative outcome (.returned listing)).verdict.map (·.withListing none) =
      (adjudicate name negative outcome (.returned other)).verdict.map (·.withListing none)
  dump_unused : ∀ dump, .dump ∉ (adjudicate name negative outcome dump).inquiries →
    ∀ other, adjudicate name negative outcome other = adjudicate name negative outcome dump
  dump_used : ∀ dump, .dump ∈ (adjudicate name negative outcome dump).inquiries →
    ∀ panic, (adjudicate name negative outcome (.panicked panic)).verdict = .panicked panic
  lookup_unused : (∀ expected, negative = some expected → outcome.phase? ≠ some expected.phase) →
    ∀ lookup dump, adjudicate name negative (outcome.withLookup lookup) dump =
      adjudicate name negative outcome dump
  lookup_used : ∀ dump, .constructor ∈ (adjudicate name negative outcome dump).inquiries →
    ∀ panic, adjudicate name negative (outcome.withLookup (.panicked panic)) dump =
      ⟨.panicked panic, [.constructor]⟩

/-- Whatever is declared and however a run ended, and whatever is answered: a thrown value's
constructor is looked up only in a failure of the declared phase, the listing is asked for exactly
for a declared failure that is no pass, and both are asked for once at most. The listing is in the
verdict exactly then and decides nothing else, and what is not asked for could as well panic. -/
theorem adjudicate_sparing (name : String) (negative : Option Negative) (outcome : Outcome) :
    Sparing name negative outcome := by
  have h := judges name negative outcome
  exact {
    inquiries_nodup := h.nodup
    inquiries_eq := h.inquiries_eq
    constructor_mem_iff := fun dump =>
      (h.constructor_mem_iff dump).trans constructor_mem_lookups_iff
    dump_mem_iff := fun dump verdict hverdict => (h.dump_mem_iff hverdict).trans and_assoc
    broken_of_panicked := fun listing panic => h.broken_of_panicked
    diagnostics?_eq := fun listing verdict => h.diagnostics?_eq
    verdict_eq := h.verdict_eq
    dump_unused := fun dump => h.eq_of_not_mem
    dump_used := fun dump => h.panicked_of_mem
    lookup_unused := fun hphase lookup dump => adjudicate_withLookup hphase lookup
    lookup_used := fun dump hmem =>
      adjudicate_panicking_lookup ((h.constructor_mem_iff dump).1 hmem) }

end Conformance
