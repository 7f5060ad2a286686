import Conformance.Proofs.Finding
import Conformance.Proofs.Scope

/-!
# Where front matter stands

A source has front matter where its first start mark and its first end mark have something between
them, and what stands between them is the region: `region_eq_ok_iff`. Nothing outside the region
decides what is read, so text behind the marks changes nothing, and neither does the directive that
makes a run strict.
-/

namespace Conformance.FrontMatter

open Text (IsFirst)

/-- A source that is parted by its marks, each the first of its kind. The two are looked for in the
whole source, so that they may share characters; then nothing stands between them. -/
structure Parted (source before inner after : List Char) : Prop where
  source_eq : source = before ++ startMark ++ inner ++ endMark ++ after
  inner_ne_nil : inner ≠ []
  start_first : IsFirst startMark source before
  end_first : IsFirst endMark source (before ++ startMark ++ inner)

variable {source inner : List Char}

theorem region_of_find? {start stop : Nat} (hstart : Text.find? startMark source = some start)
    (hstop : Text.find? endMark source = some stop) :
    region source =
      if stop ≤ start + startMark.length then .error .endNotAfterStart
      else .ok ((source.take stop).drop (start + startMark.length)) := by
  unfold region
  rw [hstart, hstop]

theorem Parted.region_eq {before after : List Char} (h : Parted source before inner after) :
    region source = .ok inner := by
  have hstart : Text.find? startMark source = some before.length :=
    Text.find?_eq_some_iff.2 ⟨before, h.start_first, rfl⟩
  have hstop : Text.find? endMark source = some (before ++ startMark ++ inner).length :=
    Text.find?_eq_some_iff.2 ⟨_, h.end_first, rfl⟩
  have hinner : 0 < inner.length := List.length_pos_iff.2 h.inner_ne_nil
  have hafter : ¬ (before ++ startMark ++ inner).length ≤ before.length + startMark.length := by
    simp only [List.length_append]
    omega
  have hregion : (source.take (before ++ startMark ++ inner).length).drop
      (before.length + startMark.length) = inner := by
    rw [h.source_eq, List.append_assoc _ endMark, List.take_left, ← List.length_append,
      List.drop_left]
  rw [region_of_find? hstart hstop, if_neg hafter, hregion]

theorem exists_parted_of_region_eq (h : region source = .ok inner) :
    ∃ before after, Parted source before inner after := by
  cases hstart : Text.find? startMark source with
  | none => simp [region, hstart] at h
  | some start =>
    cases hstop : Text.find? endMark source with
    | none => simp [region, hstart, hstop] at h
    | some stop =>
      obtain ⟨before, hbefore, rfl⟩ := Text.find?_eq_some_iff.1 hstart
      obtain ⟨upTo, hupTo, rfl⟩ := Text.find?_eq_some_iff.1 hstop
      rw [region_of_find? hstart hstop] at h
      split at h
      · cases h
      · rename_i hlt
        -- both reach into the source from its front, so the shorter one begins the longer one
        have hlength : (before ++ startMark).length ≤ upTo.length := by
          rw [List.length_append]
          omega
        obtain ⟨between, rfl⟩ := List.prefix_of_prefix_length_le hbefore.occurs
          ((List.prefix_append upTo endMark).trans hupTo.occurs) hlength
        obtain ⟨after, hsource⟩ := hupTo.occurs
        have hinner : between = inner := by
          have hok := Except.ok.inj h
          rw [← hsource, List.append_assoc _ endMark, List.take_left, ← List.length_append,
            List.drop_left] at hok
          exact hok
        subst hinner
        refine ⟨before, after, hsource.symm, ?_, hbefore, hupTo⟩
        rintro rfl
        simp at hlt

/-- The region is what stands between the first marks. -/
theorem region_eq_ok_iff :
    region source = .ok inner ↔ ∃ before after, Parted source before inner after := by
  constructor
  · exact exists_parted_of_region_eq
  · rintro ⟨before, after, h⟩
    exact h.region_eq

theorem region_append (hstart : startMark <:+: source) (hstop : endMark <:+: source)
    (later : List Char) : region (source ++ later) = region source := by
  have hfind : ∀ mark : List Char, mark <:+: source →
      ∃ place, Text.find? mark source = some place := by
    rintro mark ⟨before, after, hsource⟩
    cases hnone : Text.find? mark source with
    | some place => exact ⟨place, rfl⟩
    | none => exact absurd ⟨after, hsource⟩ (Text.find?_eq_none_iff.1 hnone before)
  obtain ⟨start, hstart⟩ := hfind startMark hstart
  obtain ⟨stop, hstop⟩ := hfind endMark hstop
  obtain ⟨upTo, hupTo, rfl⟩ := Text.find?_eq_some_iff.1 hstop
  have hle : upTo.length ≤ source.length := by
    have hoccurs := hupTo.occurs.length_le
    rw [List.length_append] at hoccurs
    omega
  rw [region_of_find? hstart hstop, region_of_find? (Text.find?_append hstart later)
    (Text.find?_append hstop later), List.take_append_of_le_length hle]

/-- Text in front moves the region along if neither mark can begin in it. -/
theorem region_append_of_not_mem {front : List Char} (hslash : '/' ∉ front)
    (hhyphen : '-' ∉ front) (source : List Char) : region (front ++ source) = region source := by
  have hstart : Text.find? startMark (front ++ source) =
      (Text.find? startMark source).map (· + front.length) :=
    Text.find?_append_of_head_not_mem hslash source
  have hstop : Text.find? endMark (front ++ source) =
      (Text.find? endMark source).map (· + front.length) :=
    Text.find?_append_of_head_not_mem hhyphen source
  unfold region
  rw [hstart, hstop]
  cases Text.find? startMark source with
  | none => rfl
  | some start =>
    cases Text.find? endMark source with
    | none => rfl
    | some stop =>
      have hmove : start + front.length + startMark.length =
          front.length + (start + startMark.length) := by omega
      simp only [Option.map_some, hmove, Nat.add_comm stop, Nat.add_le_add_iff_left,
        List.take_length_add_append, List.drop_length_add_append]

theorem extract_eq_of_region_eq {source other : String}
    (h : region source.toList = region other.toList) : extract source = extract other := by
  unfold extract read
  rw [h]

theorem mapError_eq_error_iff {α ε δ : Type} {x : Except ε α} {f : ε → δ} {fault : δ} :
    x.mapError f = .error fault ↔ ∃ cause, x = .error cause ∧ f cause = fault := by
  cases x <;> simp [Except.mapError]

theorem bind_eq_error_iff {α β ε : Type} {x : Except ε α} {f : α → Except ε β} {fault : ε} :
    x >>= f = .error fault ↔ x = .error fault ∨ ∃ a, x = .ok a ∧ f a = .error fault := by
  cases x <;> simp [bind, Except.bind]

theorem ofDocument_ne_region (doc : Yaml.Document) (cause : RegionFault) :
    ofDocument doc ≠ .error (.region cause) := by
  simp [ofDocument, bind_eq_error_iff, mapError_eq_error_iff]

theorem extract_eq_region_error_iff {source : String} {cause : RegionFault} :
    extract source = .error (.format (.region cause)) ↔ region source.toList = .error cause := by
  have hproblem : ∀ fault, Problem.ofReadFault fault = .format (.region cause) ↔
      fault = .region cause := by
    intro fault
    cases fault <;> simp [Problem.ofReadFault]
  have hread : read source.toList = .error (.region cause) ↔
      region source.toList = .error cause := by
    simp [read, bind_eq_error_iff, mapError_eq_error_iff, ofDocument_ne_region]
  simp only [extract, mapError_eq_error_iff, hproblem, exists_eq_right, hread]

theorem extract_append {source : String} (hstart : startMark <:+: source.toList)
    (hstop : endMark <:+: source.toList) (later : String) :
    extract (source ++ later) = extract source := by
  apply extract_eq_of_region_eq
  rw [String.toList_append]
  exact region_append hstart hstop later.toList

theorem extract_strict (source : String) :
    extract (Variant.strictDirective ++ source) = extract source := by
  apply extract_eq_of_region_eq
  rw [String.toList_append]
  exact region_append_of_not_mem (by decide) (by decide) source.toList

/-- A run of a test has the front matter that its own source has. -/
theorem extract_source_of_mem_runs {settings : Settings} {path source : String} {run : TestRun}
    (h : run ∈ (Plan.ofSource settings path source).runs) :
    extract run.source = .ok run.matter := by
  cases hplan : Plan.ofSource settings path source with
  | run runs =>
    rw [hplan] at h
    obtain ⟨-, matter, hmatter, -, -, rfl⟩ := Plan.ofSource_eq_run_iff.1 hplan
    obtain ⟨variant, -, rfl⟩ := List.mem_map.1 h
    cases variant with
    | nonStrict => exact hmatter
    | strict => exact (extract_strict source).trans hmatter
  | skipped cause => simp [hplan, Plan.runs] at h
  | notApplicable => simp [hplan, Plan.runs] at h
  | invalid problem => simp [hplan, Plan.runs] at h

/-- A source has a region exactly where its first marks have something between them, and then that
is the region; every other source is reported as having none. Text behind the marks and the
directive in front of a strict run change neither the front matter nor what is reported instead, so
that the source of every run that is planned has the front matter of the run. -/
theorem region_located (source : String) :
    (∀ inner, region source.toList = .ok inner ↔
      ∃ before after, Parted source.toList before inner after) ∧
    ((∃ cause, extract source = .error (.format (.region cause))) ↔
      ¬ ∃ before inner after, Parted source.toList before inner after) ∧
    (startMark <:+: source.toList → endMark <:+: source.toList →
      ∀ later, extract (source ++ later) = extract source) ∧
    extract (Variant.strictDirective ++ source) = extract source ∧
    ∀ settings path, ∀ run ∈ (Plan.ofSource settings path source).runs,
      extract run.source = .ok run.matter := by
  refine ⟨fun inner => region_eq_ok_iff, ?_, extract_append, extract_strict source,
    fun settings path run => extract_source_of_mem_runs⟩
  simp only [extract_eq_region_error_iff]
  cases hregion : region source.toList with
  | error cause =>
    have hnone : ¬ ∃ before inner after, Parted source.toList before inner after := by
      rintro ⟨before, inner, after, h⟩
      rw [h.region_eq] at hregion
      cases hregion
    exact iff_of_true ⟨cause, rfl⟩ hnone
  | ok inner =>
    obtain ⟨before, after, h⟩ := exists_parted_of_region_eq hregion
    have hsome : ∃ before inner after, Parted source.toList before inner after :=
      ⟨before, inner, after, h⟩
    simp [hsome]

/-- The first marks share their hyphens here, and those further on do not count. -/
def overlapping : String := "/*---*/ /*---\nes5id: 1\n---*/"

theorem region_located_overlapping :
    (¬ ∃ before inner after, Parted overlapping.toList before inner after) ∧
      startMark <:+: overlapping.toList ∧ endMark <:+: overlapping.toList ∧
      extract (overlapping ++ "/*---\nes5id: 2\n---*/") = extract overlapping := by
  obtain ⟨-, hfault, hbehind, -⟩ := region_located overlapping
  have hregion : region overlapping.toList = .error .endNotAfterStart := rfl
  have hstart : startMark <:+: overlapping.toList := ⟨[], "*/ /*---\nes5id: 1\n---*/".toList, rfl⟩
  have hstop : endMark <:+: overlapping.toList :=
    ⟨"/*".toList, " /*---\nes5id: 1\n---*/".toList, rfl⟩
  exact ⟨hfault.1 ⟨_, extract_eq_region_error_iff.2 hregion⟩, hstart, hstop,
    hbehind hstart hstop _⟩

end Conformance.FrontMatter
