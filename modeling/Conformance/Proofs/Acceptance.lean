import Mathlib.Data.List.Forall2
import Conformance.Problem
import Conformance.Proofs.Parsing
import Conformance.Proofs.Shapes

/-!
# The front matter that is accepted

Where the region of a source holds one document, a mapping of plain nodes with scalars for keys, it
is front matter just if its entries are `Acceptable`, and what it means is `meaning`: a function of
the values of the known fields alone.
-/

namespace Conformance.FrontMatter

open Yaml Yaml.Node Yaml.Reading

abbrev Entries := List (Node Nat × Node Nat)

def scalarFields : List String := ["description", "info", "es5id", "es6id", "esid"]

def listFields : List String := ["includes", "flags", "features", "locale"]

/-- The names of phases that front matter may use. -/
def phaseNames : List String := ["early", "parse", "resolution", "runtime"]

/-- The entries of a negative expectation that is accepted. -/
structure ExpectationAcceptable (entries : Entries) : Prop where
  scalar_keys : ∀ entry ∈ entries, entry.1.isScalar = true
  once : ∀ name ∈ negativeFields, (valuesOf name entries).length ≤ 1
  scalars : ∀ name ∈ negativeFields, ∀ v ∈ valuesOf name entries, v.isScalar = true
  phase : (textOf "type" entries).getD "" ≠ "" →
    (textOf "phase" entries).getD "" ∈ phaseNames

/-- The entries of front matter that is accepted. -/
structure Acceptable (entries : Entries) : Prop where
  once : ∀ name ∈ knownFields, (valuesOf name entries).length ≤ 1
  scalars : ∀ name ∈ scalarFields, ∀ v ∈ valuesOf name entries, v.isScalar = true
  lists : ∀ name ∈ listFields, ∀ v ∈ valuesOf name entries,
    v.isVoid = true ∨ ∃ p items, v = .sequence p items ∧ ∀ x ∈ items, x.isScalar = true
  negative : ∀ v ∈ valuesOf "negative" entries,
    v.isVoid = true ∨ ∃ p es, v = .mapping p es ∧ ExpectationAcceptable es

/-- The expectation that a phase and a type of error make; without a type there is none. -/
def statedNegative (phase errorType : Option String) : Option Negative :=
  if errorType.getD "" = "" then none
  else (Phase.ofName? (phase.getD "")).map fun phase =>
    { phase, errorType := errorType.getD "" }

/-- The expectation that a node means. -/
def expectation : Node Nat → Option Negative
  | .mapping _ entries => statedNegative (textOf "phase" entries) (textOf "type" entries)
  | _ => none

/-- The front matter that entries mean. -/
def meaning (entries : Entries) : FrontMatter where
  description := (textOf "description" entries).getD ""
  info := textOf "info" entries
  negative := (valuesOf "negative" entries).head?.bind expectation
  includes := textsOf "includes" entries
  flags := Flags.ofNames (textsOf "flags" entries)
  features := textsOf "features" entries
  locale := textsOf "locale" entries
  es5id := textOf "es5id" entries
  es6id := textOf "es6id" entries
  esid := textOf "esid" entries

/-! ### Negative expectations -/

def DeclaredNegative.put (name : String) (v : Node Nat) (declared : DeclaredNegative) :
    DeclaredNegative :=
  if name = "phase" then { declared with phase := v.printed }
  else { declared with errorType := v.printed }

def DeclaredNegative.merge (entries : Entries) (declared : DeclaredNegative) :
    DeclaredNegative where
  phase := (valuesOf "phase" entries).head?.elim declared.phase printed
  errorType := (valuesOf "type" entries).head?.elim declared.errorType printed

variable (doc : Document)

theorem assigns_negative :
    Assigns negativeFields (assignNegative doc) (fun _ v => v.isScalar = true)
      DeclaredNegative.put where
  eq := by
    intro name _ path v declared hplain hfit
    unfold assignNegative
    rw [scalar_eq hplain hfit, pure_bind]
    rfl
  fails := by
    intro name _ path v declared hplain hfit
    unfold assignNegative
    exact (fails_scalar hplain (by simpa using hfit)).bind _

theorem merges_negative :
    Merges negativeFields DeclaredNegative.put DeclaredNegative.merge where
  nil := fun _ => rfl
  known := by
    intro p style name v rest declared hname hnone
    have hcases : name = "phase" ∨ name = "type" := by simpa [negativeFields] using hname
    rcases hcases with rfl | rfl <;>
      simp [DeclaredNegative.merge, DeclaredNegative.put, hnone]
  unknown := by
    intro p style name v rest declared hname
    have hne : name ≠ "phase" ∧ name ≠ "type" := by simpa [negativeFields] using hname
    simp [DeclaredNegative.merge, hne]

/-- Whether a node can be read as a negative expectation, its phase apart. -/
def FitsNegative (v : Node Nat) : Prop :=
  v.isVoid = true ∨ ∃ p es, v = .mapping p es ∧ (∀ entry ∈ es, entry.1.isScalar = true) ∧
    FieldsFit negativeFields (fun _ v => v.isScalar = true) [] es

def declaredNegative : Node Nat → Option DeclaredNegative
  | .mapping _ entries => some (DeclaredNegative.merge entries {})
  | _ => none

variable {doc} {v : Node Nat}

theorem readNegative_eq (hplain : v.IsPlain) (h : FitsNegative v) :
    readNegative doc v = pure (declaredNegative v) := by
  unfold readNegative
  rw [optional_eq hplain, pure_bind]
  rcases h with hvoid | ⟨p, es, rfl, hkeys, hfits⟩
  · rw [if_pos hvoid]
    cases v with
    | mapping => simp [isVoid] at hvoid
    | _ => rfl
  · have hvoid : (Node.mapping p es).isVoid = false := rfl
    simp only [hvoid, Bool.false_eq_true, if_false, Reading.record]
    rw [follow_eq hplain, pure_bind]
    simp only []
    rw [fields_eq (assigns_negative doc) merges_negative hplain.2 hkeys hfits]
    rfl

theorem fails_readNegative (hplain : v.IsPlain) (h : ¬ FitsNegative v) :
    Fails (readNegative doc v) := by
  have hvoid : v.isVoid = false := by
    cases hvoid : v.isVoid with
    | false => rfl
    | true => exact (h (.inl hvoid)).elim
  unfold readNegative
  rw [optional_eq hplain, pure_bind]
  simp only [hvoid, Bool.false_eq_true, if_false, Reading.record]
  rw [follow_eq hplain, pure_bind, ← bind_pure_comp]
  cases v with
  | «alias» => exact hplain.elim
  | scalar p style text =>
    simp only [isEmpty_of_isVoid_eq_false hvoid, Bool.false_eq_true, if_false]
    exact (fails_wrongKind _ _ _).bind _
  | sequence p items => exact (fails_wrongKind _ (.sequence p items) _).bind _
  | mapping p es =>
    refine Fails.bind (fails_fields (assigns_negative doc) hplain.2 ?_ _) _
    intro hkeys hfits
    exact h (.inr ⟨p, es, rfl, hkeys, hfits⟩)

/-! ### Front matter -/

def Declared.put (name : String) (v : Node Nat) (declared : Declared) : Declared :=
  match name with
  | "description" => { declared with description := v.printed }
  | "info" => { declared with info := v.printed }
  | "negative" => { declared with negative := declaredNegative v }
  | "includes" => { declared with includes := v.spellings }
  | "flags" => { declared with flags := v.spellings }
  | "features" => { declared with features := v.spellings }
  | "locale" => { declared with locale := v.spellings }
  | "es5id" => { declared with es5id := v.printed }
  | "es6id" => { declared with es6id := v.printed }
  | "esid" => { declared with esid := v.printed }
  | _ => declared

def Declared.merge (entries : Entries) (declared : Declared) : Declared where
  description := (valuesOf "description" entries).head?.elim declared.description printed
  info := (valuesOf "info" entries).head?.elim declared.info printed
  negative := (valuesOf "negative" entries).head?.elim declared.negative declaredNegative
  includes := (valuesOf "includes" entries).head?.elim declared.includes spellings
  flags := (valuesOf "flags" entries).head?.elim declared.flags spellings
  features := (valuesOf "features" entries).head?.elim declared.features spellings
  locale := (valuesOf "locale" entries).head?.elim declared.locale spellings
  es5id := (valuesOf "es5id" entries).head?.elim declared.es5id printed
  es6id := (valuesOf "es6id" entries).head?.elim declared.es6id printed
  esid := (valuesOf "esid" entries).head?.elim declared.esid printed

/-- Whether a node can be read as the field of that name. -/
def Fits (name : String) (v : Node Nat) : Prop :=
  if name = "negative" then FitsNegative v
  else if name ∈ listFields then FitsTexts v
  else v.isScalar = true

theorem fits_negative : Fits "negative" v ↔ FitsNegative v := by
  simp [Fits]

theorem fits_of_mem_listFields {name : String} (h : name ∈ listFields) :
    Fits name v ↔ FitsTexts v := by
  have hne : name ≠ "negative" := by
    rintro rfl
    revert h
    decide
  simp [Fits, hne, h]

theorem fits_of_mem_scalarFields {name : String} (h : name ∈ scalarFields) :
    Fits name v ↔ v.isScalar = true := by
  have hne : name ≠ "negative" ∧ name ∉ listFields := by
    revert name
    decide
  simp [Fits, hne]

theorem mem_knownFields_iff {name : String} :
    name ∈ knownFields ↔ name ∈ scalarFields ∨ name ∈ listFields ∨ name = "negative" := by
  simp only [knownFields, scalarFields, listFields, List.mem_cons, List.not_mem_nil, or_false]
  grind

theorem merges_declared : Merges knownFields Declared.put Declared.merge where
  nil := fun _ => rfl
  known := by
    intro p style name v rest declared hname hnone
    simp only [knownFields, List.mem_cons, List.not_mem_nil, or_false] at hname
    rcases hname with rfl | rfl | rfl | rfl | rfl | rfl | rfl | rfl | rfl | rfl <;>
      simp [Declared.merge, Declared.put, hnone]
  unknown := by
    intro p style name v rest declared hname
    simp only [knownFields, List.mem_cons, List.not_mem_nil, or_false, not_or] at hname
    simp [Declared.merge, hname]

theorem assigns_declared : Assigns knownFields (assign doc) Fits Declared.put where
  eq := by
    intro name hname path v declared hplain hfits
    rcases mem_knownFields_iff.1 hname with hfield | hfield | rfl
    · have htext : ∀ depth outer, scalar doc depth outer path v = pure v.printed :=
        fun _ _ => scalar_eq hplain ((fits_of_mem_scalarFields hfield).1 hfits)
      simp only [scalarFields, List.mem_cons, List.not_mem_nil, or_false] at hfield
      rcases hfield with rfl | rfl | rfl | rfl | rfl <;> simp [assign, htext, Declared.put]
    · have htexts : ∀ outer, texts doc outer path v = pure v.spellings :=
        fun _ => texts_eq hplain ((fits_of_mem_listFields hfield).1 hfits)
      simp only [listFields, List.mem_cons, List.not_mem_nil, or_false] at hfield
      rcases hfield with rfl | rfl | rfl | rfl <;> simp [assign, htexts, Declared.put]
    · simp [assign, readNegative_eq hplain (fits_negative.1 hfits), Declared.put]
  fails := by
    intro name hname path v declared hplain hfits
    rcases mem_knownFields_iff.1 hname with hfield | hfield | rfl
    · have hscalar : v.isScalar = false := by
        simpa using mt (fits_of_mem_scalarFields hfield).2 hfits
      have htext : ∀ depth outer, Fails (scalar doc depth outer path v) :=
        fun _ _ => fails_scalar hplain hscalar
      simp only [scalarFields, List.mem_cons, List.not_mem_nil, or_false] at hfield
      rcases hfield with rfl | rfl | rfl | rfl | rfl <;> exact (htext _ _).bind _
    · have hlist : ¬ FitsTexts v := mt (fits_of_mem_listFields hfield).2 hfits
      have htexts : ∀ outer, Fails (texts doc outer path v) := fun _ => fails_texts hplain hlist
      simp only [listFields, List.mem_cons, List.not_mem_nil, or_false] at hfield
      rcases hfield with rfl | rfl | rfl | rfl <;> exact (htexts _).bind _
    · exact (fails_readNegative hplain (mt fits_negative.2 hfits)).bind _

section Document

variable {p : Properties Nat} {entries : Entries}

theorem declared_ofDocument (hroot : doc.root = .mapping p entries) (hplain : doc.root.IsPlain)
    (hkeys : ∀ entry ∈ entries, entry.1.isScalar = true)
    (h : FieldsFit knownFields Fits [] entries) :
    Declared.ofDocument doc = .ok (Declared.merge entries {}) := by
  unfold Declared.ofDocument Reading.record
  rw [follow_eq hplain, pure_bind, hroot]
  rw [hroot] at hplain
  simp only []
  rw [fields_eq assigns_declared merges_declared hplain.2 hkeys h]
  rfl

theorem declared_ofDocument_error (hroot : doc.root = .mapping p entries)
    (hplain : doc.root.IsPlain) (h : ¬ FieldsFit knownFields Fits [] entries) :
    ∃ fault, Declared.ofDocument doc = .error fault := by
  unfold Declared.ofDocument Reading.record
  rw [follow_eq hplain, pure_bind, hroot]
  rw [hroot] at hplain
  exact (fails_fields assigns_declared hplain.2 (fun _ => h) {}).run' 0

end Document

/-! ### What is declared and what it means -/

/-- Whether a phase is stated that suits the type of error. -/
def PhaseStated (entries : Entries) : Prop :=
  (textOf "type" entries).getD "" ≠ "" → (textOf "phase" entries).getD "" ∈ phaseNames

theorem isSome_ofName?_iff {name : String} :
    (Phase.ofName? name).isSome = true ↔ name ∈ phaseNames := by
  simp only [Phase.ofName?, Phase.named?, phaseNames, List.mem_cons, List.not_mem_nil, or_false]
  by_cases hearly : name = "parse" ∨ name = "resolution"
  · simp [hearly]
    tauto
  · rw [if_neg hearly]
    simp [Phase.name]
    grind

theorem DeclaredNegative.resolve_eq {declared : DeclaredNegative}
    (h : declared.errorType.getD "" ≠ "" → declared.phase.getD "" ∈ phaseNames) :
    declared.resolve = .ok (statedNegative declared.phase declared.errorType) := by
  unfold DeclaredNegative.resolve statedNegative
  by_cases htype : declared.errorType.getD "" = ""
  · simp [htype]
  · have hphase := h htype
    have hne : declared.phase.getD "" ≠ "" := by
      intro hempty
      rw [hempty] at hphase
      revert hphase
      decide
    obtain ⟨phase, hname⟩ := Option.isSome_iff_exists.1 (isSome_ofName?_iff.2 hphase)
    simp [htype, hne, hname]

theorem DeclaredNegative.resolve_error {declared : DeclaredNegative}
    (htype : declared.errorType.getD "" ≠ "") (hphase : declared.phase.getD "" ∉ phaseNames) :
    ∃ fault, declared.resolve = .error fault := by
  unfold DeclaredNegative.resolve
  rw [if_neg htype]
  by_cases hempty : declared.phase.getD "" = ""
  · exact ⟨.missing, if_pos hempty⟩
  · have hname : Phase.ofName? (declared.phase.getD "") = none := by
      simpa using mt isSome_ofName?_iff.1 hphase
    exact ⟨.unknown _, by rw [if_neg hempty, hname]⟩

/-- Whether every negative expectation among the entries states its phase. -/
def PhasesStated (entries : Entries) : Prop :=
  ∀ p es, .mapping p es ∈ valuesOf "negative" entries → PhaseStated es

theorem Declared.resolve_eq {declared : Declared} {negative : Option Negative}
    (h : declared.negative.elim (.ok none) DeclaredNegative.resolve = .ok negative) :
    declared.resolve = .ok {
      description := declared.description.getD ""
      info := declared.info
      negative
      includes := declared.includes
      flags := Flags.ofNames declared.flags
      features := declared.features
      locale := declared.locale
      es5id := declared.es5id
      es6id := declared.es6id
      esid := declared.esid } := by
  unfold Declared.resolve
  cases hnegative : declared.negative with
  | none =>
    rw [hnegative] at h
    cases h
    rfl
  | some inner =>
    rw [hnegative] at h
    have hinner : inner.resolve = .ok negative := h
    simp only [hinner, Bind.bind, Except.bind]
    rfl

theorem Declared.resolve_error {declared : Declared} {fault : PhaseFault}
    (h : declared.negative.elim (.ok none) DeclaredNegative.resolve = .error fault) :
    declared.resolve = .error fault := by
  unfold Declared.resolve
  cases hnegative : declared.negative with
  | none =>
    rw [hnegative] at h
    cases h
  | some inner =>
    rw [hnegative] at h
    have hinner : inner.resolve = .error fault := h
    simp only [hinner, Bind.bind, Except.bind]

theorem resolve_merge {entries : Entries} (h : PhasesStated entries) :
    (Declared.merge entries {}).resolve = .ok (meaning entries) := by
  have hnegative : (Declared.merge entries {}).negative.elim (.ok none) DeclaredNegative.resolve =
      .ok ((valuesOf "negative" entries).head?.bind expectation) := by
    simp only [Declared.merge]
    cases hvalue : (valuesOf "negative" entries).head? with
    | none => rfl
    | some v =>
      cases v with
      | mapping p es => exact DeclaredNegative.resolve_eq (h p es (List.mem_of_head? hvalue))
      | _ => rfl
  rw [Declared.resolve_eq hnegative]
  rfl

theorem resolve_merge_error {entries : Entries} (h : ¬ PhasesStated entries)
    (honce : (valuesOf "negative" entries).length ≤ 1) :
    ∃ fault, (Declared.merge entries {}).resolve = .error fault := by
  obtain ⟨p, es, hmem, htype, hphase⟩ : ∃ p es, .mapping p es ∈ valuesOf "negative" entries ∧
      (textOf "type" es).getD "" ≠ "" ∧ (textOf "phase" es).getD "" ∉ phaseNames := by
    simpa [PhasesStated, PhaseStated] using h
  have hvalues : valuesOf "negative" entries = [.mapping p es] := by
    obtain ⟨v, hv⟩ := List.length_eq_one_iff.1 (Nat.le_antisymm honce (List.length_pos_of_mem hmem))
    rw [hv] at hmem ⊢
    rw [List.mem_singleton.1 hmem]
  obtain ⟨fault, hfault⟩ : ∃ fault, (DeclaredNegative.merge es {}).resolve = .error fault :=
    DeclaredNegative.resolve_error htype hphase
  refine ⟨fault, Declared.resolve_error ?_⟩
  simp only [Declared.merge, hvalues, List.head?_cons, Option.elim_some, declaredNegative]
  exact hfault

theorem fieldsFit_nil_iff {known : List String} {fits : String → Node Nat → Prop}
    {entries : Entries} : FieldsFit known fits [] entries ↔
      ∀ name ∈ known, (valuesOf name entries).length ≤ 1 ∧
        ∀ v ∈ valuesOf name entries, fits name v := by
  simp [FieldsFit]

theorem fitsNegative_iff {v : Node Nat} :
    (v.isVoid = true ∨ ∃ p es, v = .mapping p es ∧ ExpectationAcceptable es) ↔
      FitsNegative v ∧ ∀ p es, v = .mapping p es → PhaseStated es := by
  constructor
  · rintro (hvoid | ⟨p, es, rfl, hkeys, honce, hscalars, hphase⟩)
    · refine ⟨.inl hvoid, fun p es hv => ?_⟩
      subst hv
      cases hvoid
    · have hfits : FieldsFit negativeFields (fun _ v => v.isScalar = true) [] es :=
        fieldsFit_nil_iff.2 fun name hname => ⟨honce name hname, hscalars name hname⟩
      refine ⟨.inr ⟨p, es, rfl, hkeys, hfits⟩, fun q others hv => ?_⟩
      cases hv
      exact hphase
  · rintro ⟨hvoid | ⟨p, es, rfl, hkeys, hfits⟩, hphase⟩
    · exact .inl hvoid
    · have hfields := fieldsFit_nil_iff.1 hfits
      exact .inr ⟨p, es, rfl, hkeys, fun name hname => (hfields name hname).1,
        fun name hname => (hfields name hname).2, hphase p es rfl⟩

/-- Entries are accepted just if each field can be read and the phase suits the type of error. -/
theorem acceptable_iff {entries : Entries} :
    Acceptable entries ↔ FieldsFit knownFields Fits [] entries ∧ PhasesStated entries := by
  rw [fieldsFit_nil_iff]
  constructor
  · rintro ⟨honce, hscalars, hlists, hnegative⟩
    refine ⟨fun name hname => ⟨honce name hname, fun v hv => ?_⟩, fun p es hmem => ?_⟩
    · rcases mem_knownFields_iff.1 hname with hfield | hfield | rfl
      · exact (fits_of_mem_scalarFields hfield).2 (hscalars name hfield v hv)
      · exact (fits_of_mem_listFields hfield).2 (hlists name hfield v hv)
      · exact fits_negative.2 (fitsNegative_iff.1 (hnegative v hv)).1
    · exact (fitsNegative_iff.1 (hnegative _ hmem)).2 p es rfl
  · rintro ⟨hfields, hphases⟩
    have hfits : ∀ name ∈ knownFields, ∀ v ∈ valuesOf name entries, Fits name v :=
      fun name hname => (hfields name hname).2
    constructor
    · exact fun name hname => (hfields name hname).1
    · intro name hfield v hv
      have hname := mem_knownFields_iff.2 (.inl hfield)
      exact (fits_of_mem_scalarFields hfield).1 (hfits name hname v hv)
    · intro name hfield v hv
      have hname := mem_knownFields_iff.2 (.inr (.inl hfield))
      exact (fits_of_mem_listFields hfield).1 (hfits name hname v hv)
    · intro v hv
      have hname := mem_knownFields_iff.2 (.inr (.inr rfl))
      have hfit := fits_negative.1 (hfits _ hname v hv)
      exact fitsNegative_iff.2 ⟨hfit, fun p es heq => hphases p es (heq ▸ hv)⟩

theorem ofDocument_eq {doc : Document} {p : Properties Nat} {entries : Entries}
    (hroot : doc.root = .mapping p entries) (hplain : doc.root.IsPlain)
    (hkeys : ∀ entry ∈ entries, entry.1.isScalar = true) (h : Acceptable entries) :
    ofDocument doc = .ok (meaning entries) := by
  have ⟨hfits, hphases⟩ := acceptable_iff.1 h
  unfold ofDocument
  rw [declared_ofDocument hroot hplain hkeys hfits]
  change (Declared.merge entries {}).resolve.mapError ReadFault.phase = _
  rw [resolve_merge hphases]
  rfl

theorem ofDocument_error {doc : Document} {p : Properties Nat} {entries : Entries}
    (hroot : doc.root = .mapping p entries) (hplain : doc.root.IsPlain)
    (hkeys : ∀ entry ∈ entries, entry.1.isScalar = true) (h : ¬ Acceptable entries) :
    ∃ fault, ofDocument doc = .error fault := by
  unfold ofDocument
  by_cases hfits : FieldsFit knownFields Fits [] entries
  · have hphases : ¬ PhasesStated entries := fun hphases => h (acceptable_iff.2 ⟨hfits, hphases⟩)
    have honce : (valuesOf "negative" entries).length ≤ 1 :=
      (fieldsFit_nil_iff.1 hfits "negative" (by decide)).1
    obtain ⟨fault, hfault⟩ := resolve_merge_error hphases honce
    rw [declared_ofDocument hroot hplain hkeys hfits]
    refine ⟨.phase fault, ?_⟩
    change (Declared.merge entries {}).resolve.mapError ReadFault.phase = _
    rw [hfault]
    rfl
  · obtain ⟨fault, hfault⟩ := declared_ofDocument_error hroot hplain hfits
    exact ⟨.shape fault, by rw [hfault]; rfl⟩

/-! ### Sources -/

/-- A source whose region holds one document, a mapping of these entries, all of them plain and
with scalars for keys. -/
structure IsBlock (source : String) (entries : Entries) : Prop where
  exists_document : ∃ text doc p, region source.toList = .ok text ∧
    Document.load text = .ok doc ∧ doc.root = .mapping p entries ∧ doc.root.IsPlain
  scalar_keys : ∀ entry ∈ entries, entry.1.isScalar = true

/-- Values that mean the same: equal ones, and mappings with the same fields of a negative
expectation, in whatever order and among whatever other entries. -/
inductive SameValue : Node Nat → Node Nat → Prop
  | refl (v : Node Nat) : SameValue v v
  | mapping {p q : Properties Nat} {entries others : Entries}
      (keys : ∀ entry ∈ entries, entry.1.isScalar = true)
      (otherKeys : ∀ entry ∈ others, entry.1.isScalar = true)
      (fields : ∀ name ∈ negativeFields, valuesOf name entries = valuesOf name others) :
      SameValue (.mapping p entries) (.mapping q others)

/-- Entries with the same known fields, in whatever order and among whatever other entries. -/
structure SameFields (entries others : Entries) : Prop where
  values : ∀ name ∈ scalarFields ++ listFields, valuesOf name entries = valuesOf name others
  negative : List.Forall₂ SameValue (valuesOf "negative" entries) (valuesOf "negative" others)

theorem extract_of_isBlock {source : String} {entries : Entries} (h : IsBlock source entries) :
    (Acceptable entries → extract source = .ok (meaning entries)) ∧
      (¬ Acceptable entries → ∃ problem, extract source = .error problem) := by
  obtain ⟨⟨text, doc, p, hregion, hload, hroot, hplain⟩, hkeys⟩ := h
  have hextract : extract source = (ofDocument doc).mapError Problem.ofReadFault := by
    simp [extract, read, hregion, hload, Except.mapError, Bind.bind, Except.bind]
  rw [hextract]
  constructor
  · intro hacceptable
    rw [ofDocument_eq hroot hplain hkeys hacceptable]
    rfl
  · intro hacceptable
    obtain ⟨fault, hfault⟩ := ofDocument_error hroot hplain hkeys hacceptable
    rw [hfault]
    exact ⟨_, rfl⟩

theorem SameValue.acceptable {v w : Node Nat} (h : SameValue v w)
    (hv : v.isVoid = true ∨ ∃ p es, v = .mapping p es ∧ ExpectationAcceptable es) :
    w.isVoid = true ∨ ∃ p es, w = .mapping p es ∧ ExpectationAcceptable es := by
  cases h with
  | refl => exact hv
  | @mapping p q es others keys otherKeys fields =>
    rcases hv with hvoid | ⟨p, es, heq, hes⟩
    · cases hvoid
    · cases heq
      have htext : ∀ name ∈ negativeFields, textOf name es = textOf name others :=
        fun name hname => congrArg (·.head?.elim none printed) (fields name hname)
      have hphase := hes.phase
      rw [htext "type" (by decide), htext "phase" (by decide)] at hphase
      refine .inr ⟨_, _, rfl, otherKeys, fun name hname => ?_, fun name hname => ?_, hphase⟩
      · rw [← fields name hname]
        exact hes.once name hname
      · rw [← fields name hname]
        exact hes.scalars name hname

theorem SameValue.expectation_eq {v w : Node Nat} (h : SameValue v w) :
    expectation v = expectation w := by
  cases h with
  | refl => rfl
  | mapping keys otherKeys fields =>
    simp only [expectation, textOf]
    rw [fields "type" (by decide), fields "phase" (by decide)]

section SameFields

variable {entries others : Entries} (h : SameFields entries others)

include h

theorem SameFields.acceptable (hacceptable : Acceptable entries) : Acceptable others := by
  obtain ⟨honce, hscalars, hlists, hnegative⟩ := hacceptable
  have hvalue : ∀ name, name ∈ scalarFields ∨ name ∈ listFields →
      valuesOf name others = valuesOf name entries :=
    fun name hname => (h.values name (List.mem_append.2 hname)).symm
  constructor
  · intro name hname
    rcases mem_knownFields_iff.1 hname with hfield | hfield | rfl
    · rw [hvalue name (.inl hfield)]
      exact honce name hname
    · rw [hvalue name (.inr hfield)]
      exact honce name hname
    · rw [← h.negative.length_eq]
      exact honce _ hname
  · intro name hfield
    rw [hvalue name (.inl hfield)]
    exact hscalars name hfield
  · intro name hfield
    rw [hvalue name (.inr hfield)]
    exact hlists name hfield
  · intro w hw
    obtain ⟨i, hi, rfl⟩ := List.getElem_of_mem hw
    have hi' : i < (valuesOf "negative" entries).length := by
      rw [h.negative.length_eq]
      exact hi
    exact (h.negative.get hi' hi).acceptable (hnegative _ (List.getElem_mem hi'))

theorem SameFields.meaning_eq : meaning entries = meaning others := by
  have htext : ∀ name ∈ scalarFields, textOf name entries = textOf name others :=
    fun name hname => congrArg (·.head?.elim none printed)
      (h.values name (List.mem_append_left _ hname))
  have htexts : ∀ name ∈ listFields, textsOf name entries = textsOf name others :=
    fun name hname => congrArg (·.head?.elim [] spellings)
      (h.values name (List.mem_append_right _ hname))
  have hnegative : (valuesOf "negative" entries).head?.bind expectation =
      (valuesOf "negative" others).head?.bind expectation := by
    have hvalues := h.negative
    generalize valuesOf "negative" entries = vs at hvalues ⊢
    generalize valuesOf "negative" others = ws at hvalues ⊢
    cases hvalues with
    | nil => rfl
    | cons hfirst _ => exact hfirst.expectation_eq
  simp only [meaning, hnegative]
  rw [htext "description" (by decide), htext "info" (by decide), htexts "includes" (by decide),
    htexts "flags" (by decide), htexts "features" (by decide), htexts "locale" (by decide),
    htext "es5id" (by decide), htext "es6id" (by decide), htext "esid" (by decide)]

end SameFields

/-- Which blocks are front matter, what they mean, and that nothing but the known fields counts
for it. -/
theorem extract_block_iff {source : String} {entries : Entries} (h : IsBlock source entries) :
    ((∃ matter, extract source = .ok matter) ↔ Acceptable entries) ∧
      (∀ matter, extract source = .ok matter → matter = meaning entries) ∧
      ∀ other others, IsBlock other others → SameFields entries others →
        ∀ matter, extract source = .ok matter → extract other = .ok matter := by
  have ⟨hok, herror⟩ := extract_of_isBlock h
  have haccepted : ∀ matter, extract source = .ok matter → Acceptable entries := by
    intro matter hmatter
    by_contra hnot
    obtain ⟨problem, hproblem⟩ := herror hnot
    rw [hproblem] at hmatter
    cases hmatter
  have hmeaning : ∀ matter, extract source = .ok matter → matter = meaning entries := by
    intro matter hmatter
    rw [hok (haccepted matter hmatter)] at hmatter
    cases hmatter
    rfl
  refine ⟨⟨?_, ?_⟩, hmeaning, ?_⟩
  · rintro ⟨matter, hmatter⟩
    exact haccepted matter hmatter
  · intro hacceptable
    exact ⟨_, hok hacceptable⟩
  · intro other others hother hsame matter hmatter
    have hacceptable := hsame.acceptable (haccepted matter hmatter)
    rw [(extract_of_isBlock hother).1 hacceptable, ← hsame.meaning_eq, ← hmeaning matter hmatter]

/-! ### Two blocks of one meaning -/

/-- A scalar that is written without quotes. -/
def word {ρ : Type} (text : String) : Node ρ := .scalar {} .plain text

theorem isPlain_word {text : String} {d : Denotation} (h : Denotation.ofPlain text = d)
    (hnarrow : ∀ n, d ≠ .wide n) : (word (ρ := Nat) text).IsPlain := by
  subst h
  exact ⟨rfl, hnarrow⟩

theorem isPlain_words : ∀ text ∈ ["notes", "flags", "async", "odd", "negative", "type",
    "SyntaxError", "phase", "parse"], (word (ρ := Nat) text).IsPlain := by
  intro text hmem
  have hdenotes : Denotation.ofPlain text = .text text := by
    revert text
    decide +kernel
  exact isPlain_word hdenotes nofun

/-- A text that expects a failure; its first field is not known. -/
def annotatedText : String :=
  "\nnotes: [1, ~]\nflags: [async, odd]\nnegative:\n  type: SyntaxError\n  phase: parse\n"

def annotatedEntries {ρ : Type} : List (Node ρ × Node ρ) :=
  [(word "notes", .sequence {} [word "1", word "~"]),
    (word "flags", .sequence {} [word "async", word "odd"]),
    (word "negative",
      .mapping {} [(word "type", word "SyntaxError"), (word "phase", word "parse")])]

/-- A text that expects the same failure, in another order. -/
def bareText : String :=
  "\nnegative: \x7bphase: parse, type: SyntaxError\x7d\nflags: [async, odd]\n"

def bareEntries {ρ : Type} : List (Node ρ × Node ρ) :=
  [(word "negative",
      .mapping {} [(word "phase", word "parse"), (word "type", word "SyntaxError")]),
    (word "flags", .sequence {} [word "async", word "odd"])]

theorem isBlock_annotated : IsBlock ("/*---" ++ annotatedText ++ "---*/") annotatedEntries := by
  have hregion : region ("/*---" ++ annotatedText ++ "---*/").toList =
      .ok annotatedText.toList := by decide +kernel
  have htokens : tokens annotatedText.toList = .ok [.blockMappingStart,
      .key, .scalar .plain "notes", .value, .flowSequenceStart, .scalar .plain "1", .flowEntry,
        .scalar .plain "~", .flowSequenceEnd,
      .key, .scalar .plain "flags", .value, .flowSequenceStart, .scalar .plain "async",
        .flowEntry, .scalar .plain "odd", .flowSequenceEnd,
      .key, .scalar .plain "negative", .value, .blockMappingStart,
        .key, .scalar .plain "type", .value, .scalar .plain "SyntaxError",
        .key, .scalar .plain "phase", .value, .scalar .plain "parse", .blockEnd,
      .blockEnd] := by decide +kernel
  have hnumber : (Node.mapping {} annotatedEntries).number [] =
      .ok (.mapping {} annotatedEntries, []) := rfl
  have hload := Document.load_eq htokens (by rfl) hnumber
  have hone : (word (ρ := Nat) "1").IsPlain :=
    isPlain_word (d := .number (.integer 1)) (by decide +kernel) nofun
  have hnull : (word (ρ := Nat) "~").IsPlain := isPlain_word (d := .null) (by decide +kernel) nofun
  refine ⟨⟨_, _, _, hregion, hload, rfl, ?_⟩, ?_⟩
  · simp [Document.ofRoot, IsPlain, EntriesPlain, ItemsPlain, annotatedEntries, isPlain_words,
      hone, hnull]
  · simp [annotatedEntries, word, isScalar]

theorem isBlock_bare : IsBlock ("/*---" ++ bareText ++ "---*/") bareEntries := by
  have hregion : region ("/*---" ++ bareText ++ "---*/").toList = .ok bareText.toList := by
    decide +kernel
  have htokens : tokens bareText.toList = .ok [.blockMappingStart,
      .key, .scalar .plain "negative", .value, .flowMappingStart,
        .key, .scalar .plain "phase", .value, .scalar .plain "parse", .flowEntry,
        .key, .scalar .plain "type", .value, .scalar .plain "SyntaxError", .flowMappingEnd,
      .key, .scalar .plain "flags", .value, .flowSequenceStart, .scalar .plain "async",
        .flowEntry, .scalar .plain "odd", .flowSequenceEnd,
      .blockEnd] := by decide +kernel
  have hnumber : (Node.mapping {} bareEntries).number [] = .ok (.mapping {} bareEntries, []) := rfl
  have hload := Document.load_eq htokens (by rfl) hnumber
  refine ⟨⟨_, _, _, hregion, hload, rfl, ?_⟩, ?_⟩
  · simp [Document.ofRoot, IsPlain, EntriesPlain, ItemsPlain, bareEntries, isPlain_words]
  · simp [bareEntries, word, isScalar]

theorem acceptable_annotated : Acceptable annotatedEntries := by
  have hexpectation : ExpectationAcceptable
      [(word "type", word "SyntaxError"), (word "phase", word "parse")] := by
    constructor <;> decide +kernel
  constructor
  · decide +kernel
  · decide +kernel
  · simp [listFields, annotatedEntries, word, isScalar]
  · simpa [annotatedEntries, word, isVoid] using hexpectation

theorem sameFields_annotated : SameFields annotatedEntries bareEntries := by
  constructor
  · simp [scalarFields, listFields, annotatedEntries, bareEntries, word]
  · have hvalue : SameValue
        (.mapping {} [(word "type", word "SyntaxError"), (word "phase", word "parse")])
        (.mapping {} [(word "phase", word "parse"), (word "type", word "SyntaxError")]) := by
      constructor
      · decide +kernel
      · decide +kernel
      · simp [negativeFields, word]
    exact .cons hvalue .nil

theorem extract_block_iff_annotated :
    extract ("/*---" ++ bareText ++ "---*/") =
      .ok { negative := some ⟨.early, "SyntaxError"⟩, flags := .single .asynchronous } := by
  have ⟨haccepted, hmeaning, halike⟩ := extract_block_iff isBlock_annotated
  obtain ⟨matter, hmatter⟩ := haccepted.2 acceptable_annotated
  rw [halike _ _ isBlock_bare sameFields_annotated matter hmatter, hmeaning matter hmatter]
  exact congrArg Except.ok (by decide +kernel)

end Conformance.FrontMatter
