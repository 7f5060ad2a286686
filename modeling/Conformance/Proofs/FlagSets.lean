import Conformance.Proofs.Declarations
import Conformance.Proofs.RoundTrip

/-!
# Lists of flags are sets

A list of names stands for the set of the flags that it names: order, repetitions and names of no
flag make no difference (`Flags.contains_ofNames`). Which variants of a test are run is decided by
the names in its list alone.
-/

namespace Conformance

theorem Flag.ofName?_eq_some_iff {name : String} {flag : Flag} :
    Flag.ofName? name = some flag ↔ flag.name = name := by
  constructor
  · intro h
    simpa using List.find?_some h
  · rintro rfl
    exact flag.ofName?_name

theorem Flag.index_inj {flag other : Flag} : flag.index = other.index ↔ flag = other := by
  cases flag <;> cases other <;> decide

namespace Flags

theorem bits_inj {flags other : Flags} : flags.bits = other.bits ↔ flags = other := by
  cases flags
  cases other
  simp

theorem contains_union (flags other : Flags) (flag : Flag) :
    (flags.union other).contains flag = (flags.contains flag || other.contains flag) :=
  BitVec.getLsbD_or

/-- The bits of a list of names are those of the flags that it names. -/
theorem getLsbD_ofNames {names : List String} {i : Nat} :
    (ofNames names).bits.getLsbD i = true ↔ ∃ flag : Flag, flag.name ∈ names ∧ flag.index = i := by
  have hbits : (ofNames names).bits.getLsbD i =
      (names.filterMap Flag.ofName?).any (·.index == i) := by
    rw [ofNames, getLsbD_foldl]
    simp [empty]
  rw [hbits, List.any_eq_true]
  simp only [List.mem_filterMap, Flag.ofName?_eq_some_iff, beq_iff_eq]
  constructor
  · rintro ⟨flag, ⟨name, hname, rfl⟩, hindex⟩
    exact ⟨flag, hname, hindex⟩
  · rintro ⟨flag, hname, hindex⟩
    exact ⟨flag, ⟨flag.name, hname, rfl⟩, hindex⟩

theorem contains_ofNames {names : List String} {flag : Flag} :
    (ofNames names).contains flag = true ↔ flag.name ∈ names := by
  simp [contains, getLsbD_ofNames, Flag.index_inj]

theorem contains_ofNames_eq_false {names : List String} {flag : Flag} :
    (ofNames names).contains flag = false ↔ flag.name ∉ names := by
  rw [← contains_ofNames, Bool.not_eq_true]

theorem names_ofNames (names : List String) :
    (ofNames names).names = (Flag.all.map Flag.name).filter (· ∈ names) := by
  rw [Flags.names, List.filter_map]
  congr 1
  apply List.filter_congr
  intro flag _
  rw [Bool.eq_iff_iff, contains_ofNames]
  simp

theorem ofNames_append (names more : List String) :
    ofNames (names ++ more) = (ofNames names).union (ofNames more) := by
  apply bits_inj.1
  apply BitVec.eq_of_getLsbD_eq
  intro i _
  rw [Bool.eq_iff_iff, union, BitVec.getLsbD_or, Bool.or_eq_true]
  simp only [getLsbD_ofNames, List.mem_append, or_and_right, exists_or]

theorem ofNames_eq_iff {names more : List String} :
    ofNames names = ofNames more ↔ ∀ flag : Flag, flag.name ∈ names ↔ flag.name ∈ more := by
  constructor
  · intro h flag
    rw [← contains_ofNames, h, contains_ofNames]
  · intro h
    apply bits_inj.1
    apply BitVec.eq_of_getLsbD_eq
    intro i _
    rw [Bool.eq_iff_iff]
    simp only [getLsbD_ofNames, h]

end Flags

namespace FrontMatter

variable {matter : FrontMatter} {names : List String}

theorem Declared.flags_of_resolve {declared : Declared} (h : declared.resolve = .ok matter) :
    matter.flags = Flags.ofNames declared.flags := by
  obtain ⟨negative, rfl⟩ := exists_eq_of_resolve h
  rfl

theorem variants_of_names (h : matter.flags = Flags.ofNames names) :
    matter.variants =
      (if "raw" ∈ names ∨ "onlyStrict" ∉ names then [.nonStrict] else []) ++
        (if "raw" ∉ names ∧ "noStrict" ∉ names then [.strict] else []) := by
  rw [Plan.eq_of_sublist matter.variants_sublist]
  simp only [nonStrict_mem_variants_iff, strict_mem_variants_iff, h, Flags.contains_ofNames,
    Flags.contains_ofNames_eq_false, Flag.name]

end FrontMatter

/-- A list of names is read as the set of the flags that it names. Printed, the set has their names
in canonical order; lists are joined by the union of their sets, which holds what either holds; and
which variants of a test are run depends on which of three names are among its flags, whatever else
is there and in what order. -/
theorem flags_read_as_sets :
    (∀ names, (Flags.ofNames names).names =
      ["onlyStrict", "noStrict", "raw", "module", "async", "generated", "CanBlockIsFalse",
        "CanBlockIsTrue", "non-deterministic"].filter (· ∈ names)) ∧
    (∀ names more, Flags.ofNames (names ++ more) =
      (Flags.ofNames names).union (Flags.ofNames more)) ∧
    (∀ flags other flag, (Flags.union flags other).contains flag =
      (flags.contains flag || other.contains flag)) ∧
    (∀ names more, Flags.ofNames names = Flags.ofNames more ↔
      ∀ flag : Flag, flag.name ∈ names ↔ flag.name ∈ more) ∧
    ∀ settings path source runs, Plan.ofSource settings path source = .run runs →
      ∃ declared, FrontMatter.declaredBy source = .ok declared ∧ runs.map (·.variant) =
        (if "raw" ∈ declared.flags ∨ "onlyStrict" ∉ declared.flags then [.nonStrict] else []) ++
          (if "raw" ∉ declared.flags ∧ "noStrict" ∉ declared.flags then [.strict] else []) := by
  refine ⟨Flags.names_ofNames, Flags.ofNames_append, Flags.contains_union,
    fun _ _ => Flags.ofNames_eq_iff, ?_⟩
  intro settings path source runs hplan
  obtain ⟨-, matter, hmatter, -, -, rfl⟩ := Plan.ofSource_eq_run_iff.1 hplan
  obtain ⟨declared, hdeclared, hresolve⟩ := FrontMatter.exists_declaredBy_of_extract hmatter
  refine ⟨declared, hdeclared, ?_⟩
  rw [← FrontMatter.variants_of_names (FrontMatter.Declared.flags_of_resolve hresolve)]
  simp [Plan.ofFrontMatter, Function.comp_def]

/-- A test that names one flag twice and another in capitals. -/
def repeatedSource : String :=
  "/*---\nes5id: 1\nflags: [noStrict, RAW, noStrict]\n---*/\n"

theorem flags_read_as_sets_repeated :
    ∃ runs declared, Plan.ofSource .standard "test/a.js" repeatedSource = .run runs ∧
      FrontMatter.declaredBy repeatedSource = .ok declared ∧
      declared.flags = ["noStrict", "RAW", "noStrict"] ∧ runs.map (·.variant) = [.nonStrict] := by
  have hruns : (Plan.ofSource .standard "test/a.js" repeatedSource).runs ≠ [] := by
    decide +kernel
  have hread : (FrontMatter.declaredBy repeatedSource).toOption.map (·.flags) =
      some ["noStrict", "RAW", "noStrict"] := by decide +kernel
  obtain ⟨-, -, -, -, hvariants⟩ := flags_read_as_sets
  cases hplan : Plan.ofSource .standard "test/a.js" repeatedSource with
  | run runs =>
    obtain ⟨declared, hdeclared, hvariants⟩ := hvariants _ _ _ _ hplan
    rw [hdeclared] at hread
    have hflags : declared.flags = ["noStrict", "RAW", "noStrict"] := Option.some.inj hread
    refine ⟨runs, declared, rfl, hdeclared, hflags, ?_⟩
    rw [hvariants, hflags]
    decide
  | _ => exact absurd (by rw [hplan]; rfl) hruns

end Conformance
