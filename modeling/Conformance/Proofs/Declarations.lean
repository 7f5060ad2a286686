import Conformance.Proofs.Acceptance
import Conformance.Proofs.Planning
import Conformance.Proofs.Walking

/-!
# What front matter declares

Front matter is what its source declares, resolved: `FrontMatter.exists_declaredBy_of_extract`. A
field of a record is what its entry is read as, whatever the other entries hold
(`Reading.gives_fields`), so the id that a plain scalar is the value of is what the scalar prints
as: `FrontMatter.givenId_of_extract`.
-/

namespace Conformance.Yaml.Reading

open Node
open Denotation (untagged)

variable {α β : Type}

/-- Whether all that a reader can give is as stated. -/
def Gives (reader : Reading α) (P : α → Prop) : Prop :=
  ∀ followed a later, reader followed = .ok (a, later) → P a

theorem gives_pure {P : α → Prop} {a : α} (h : P a) : Gives (pure a) P := by
  intro followed b later heq
  obtain ⟨rfl, -⟩ := Prod.mk.inj (Except.ok.inj heq)
  exact h

theorem Fails.gives {reader : Reading α} (h : Fails reader) (P : α → Prop) : Gives reader P := by
  intro followed a later heq
  obtain ⟨fault, hfault⟩ := h followed
  rw [hfault] at heq
  cases heq

theorem exists_of_run' {reader : Reading α} {followed : Nat} {a : α}
    (h : reader.run' followed = .ok a) : ∃ later, reader followed = .ok (a, later) := by
  cases hread : reader followed with
  | error fault =>
    rw [StateT.run', hread] at h
    cases h
  | ok given =>
    obtain ⟨b, later⟩ := given
    rw [StateT.run', hread] at h
    obtain rfl : b = a := Except.ok.inj h
    exact ⟨later, rfl⟩

theorem Gives.bind {reader : Reading α} {next : α → Reading β} {P : α → Prop} {Q : β → Prop}
    (h : Gives reader P) (hnext : ∀ a, P a → Gives (next a) Q) : Gives (reader >>= next) Q := by
  intro followed b later heq
  cases hread : reader followed with
  | error fault =>
    simp only [Bind.bind, StateT.bind, hread, Except.bind] at heq
    cases heq
  | ok given =>
    obtain ⟨a, between⟩ := given
    simp only [Bind.bind, StateT.bind, hread, Except.bind] at heq
    exact hnext a (h followed a between hread) between b later heq

theorem gives_bind {reader : Reading α} {next : α → Reading β} {Q : β → Prop}
    (hnext : ∀ a, Gives (next a) Q) : Gives (reader >>= next) Q :=
  Gives.bind (P := fun _ => True) (fun _ _ _ _ => trivial) fun a _ => hnext a

variable {doc : Document} {path outer : Path}

section Fields

variable {σ τ : Type} {known : List String} {assign : String → Path → Node Nat → σ → Reading σ}
  {view : σ → τ} {name : String} (hkeeps : ∀ other, other ≠ name → ∀ path v record,
    Gives (assign other path v record) fun result => view result = view record)

include hkeeps

/-- What a field is read for stays as it is once the field was seen. -/
theorem gives_fields_of_seen {seen : List String} (hseen : name ∈ seen)
    (entries : List (Node Nat × Node Nat)) (record : σ) :
    Gives (fields doc known assign path seen record entries)
      fun result => view result = view record := by
  induction entries generalizing seen record with
  | nil => exact gives_pure rfl
  | cons entry rest ih =>
    obtain ⟨k, v⟩ := entry
    rw [fields]
    refine gives_bind fun other => ?_
    split
    · split
      · exact (fails_misfit _ _).gives _
      · rename_i hother
        have hne : other ≠ name := by
          rintro rfl
          exact hother (by simpa using hseen)
        refine (hkeeps other hne _ v record).bind fun next hnext => ?_
        rw [← hnext]
        exact ih (List.mem_cons_of_mem other hseen) next
    · exact ih hseen record

/-- A field is what its entry is read as, whatever stands before the entry and behind it. -/
theorem gives_fields {p : Properties Nat} {style : Style} {v : Node Nat} {P : τ → Prop}
    (hname : name ∈ known)
    (hgives : ∀ path record, Gives (assign name path v record) fun result => P (view result))
    (before after : List (Node Nat × Node Nat)) (seen : List String) (record : σ) :
    Gives (fields doc known assign path seen record (before ++ (.scalar p style name, v) :: after))
      fun result => P (view result) := by
  induction before generalizing seen record with
  | nil =>
    rw [List.nil_append, fields, text_eq _ rfl, pure_bind, spelling, if_pos (by simpa using hname)]
    split
    · exact (fails_misfit _ _).gives _
    · refine (hgives _ record).bind fun next hnext => ?_
      intro followed result later heq
      have hview := gives_fields_of_seen hkeeps List.mem_cons_self after next followed result later
        heq
      rwa [hview]
  | cons entry before ih =>
    obtain ⟨k, other⟩ := entry
    rw [List.cons_append, fields]
    refine gives_bind fun spelled => ?_
    split
    · split
      · exact (fails_misfit _ _).gives _
      · exact gives_bind fun next => ih _ next
    · exact ih seen record

end Fields

theorem gives_scalar {depth : Nat} {p : Properties Nat} {style : Style} {text : String}
    (htag : p.tag = none) : Gives (scalar doc depth outer path (.scalar p style text)) fun result =>
      (∀ n, untagged style text ≠ .wide n) ∧
        result = (untagged style text).print? := by
  unfold scalar
  rw [value_scalar htag]
  cases hdenotation : untagged style text with
  | wide n => exact ((fails_misfit _ _).bind _).gives _
  | _ => exact gives_pure ⟨nofun, rfl⟩

end Conformance.Yaml.Reading

namespace Conformance.FrontMatter

open Yaml Yaml.Node Yaml.Reading
open Yaml.Denotation (ofPlain untagged)
open Files (bind_eq_ok_iff)

theorem mapError_eq_ok_iff {α ε δ : Type} {x : Except ε α} {f : ε → δ} {a : α} :
    x.mapError f = .ok a ↔ x = .ok a := by
  cases x <;> simp [Except.mapError]

/-- What the front matter of a source declares, as it is written there. -/
def declaredBy (source : String) : Except ReadFault Declared := do
  let text ← (region source.toList).mapError .region
  let doc ← (Document.load text).mapError .document
  (Declared.ofDocument doc).mapError .shape

theorem read_eq_declaredBy (source : String) :
    read source.toList =
      declaredBy source >>= fun declared => declared.resolve.mapError .phase := by
  simp only [read, ofDocument, declaredBy, bind_assoc]

/-- Front matter is what its source declares, resolved. -/
theorem exists_declaredBy_of_extract {source : String} {matter : FrontMatter}
    (h : extract source = .ok matter) :
    ∃ declared, declaredBy source = .ok declared ∧ declared.resolve = .ok matter := by
  have hread : read source.toList = .ok matter := mapError_eq_ok_iff.1 h
  rw [read_eq_declaredBy] at hread
  obtain ⟨declared, hdeclared, hresolve⟩ := bind_eq_ok_iff.1 hread
  exact ⟨declared, hdeclared, mapError_eq_ok_iff.1 hresolve⟩

theorem Declared.exists_eq_of_resolve {declared : Declared} {matter : FrontMatter}
    (h : declared.resolve = .ok matter) : ∃ negative, matter = {
      description := declared.description.getD ""
      info := declared.info
      negative
      includes := declared.includes
      flags := Flags.ofNames declared.flags
      features := declared.features
      locale := declared.locale
      es5id := declared.es5id
      es6id := declared.es6id
      esid := declared.esid } := by
  unfold Declared.resolve at h
  cases hnegative : declared.negative with
  | none =>
    rw [hnegative] at h
    exact ⟨_, (Except.ok.inj h).symm⟩
  | some inner =>
    rw [hnegative] at h
    obtain ⟨negative, -, hmatter⟩ := bind_eq_ok_iff.1 h
    exact ⟨negative, (Except.ok.inj hmatter).symm⟩

/-! ### Ids -/

/-- The id that is declared for an edition. -/
def Declared.givenId (declared : Declared) : Edition → Option String
  | .es5 => declared.es5id
  | .es6 => declared.es6id
  | .current => declared.esid

theorem Declared.givenId_of_resolve {declared : Declared} {matter : FrontMatter}
    (h : declared.resolve = .ok matter) (edition : Edition) :
    matter.givenId edition = declared.givenId edition := by
  obtain ⟨negative, rfl⟩ := exists_eq_of_resolve h
  cases edition <;> rfl

section Assign

variable (doc : Document) (edition : Edition) (path : Path) (record : Declared)

theorem gives_assign_of_ne {other : String} (hne : other ≠ edition.key) (v : Node Nat) :
    Gives (assign doc other path v record)
      fun result => result.givenId edition = record.givenId edition := by
  unfold assign
  cases edition <;> split <;> first
    | exact gives_bind fun _ => gives_pure rfl
    | exact gives_pure rfl
    | exact absurd rfl hne

theorem gives_assign_key {p : Properties Nat} {style : Style} {text : String}
    (htag : p.tag = none) : Gives (assign doc edition.key path (.scalar p style text) record)
      fun result => (∀ n, untagged style text ≠ .wide n) ∧
        result.givenId edition = (untagged style text).print? := by
  cases edition <;> exact (gives_scalar htag).bind fun id hid => gives_pure hid

end Assign

/-- A source whose front matter is a mapping, with a plain scalar for the value of an edition's
field, whatever its other entries are. -/
def DeclaresId (source : String) (edition : Edition) (id : String) : Prop :=
  ∃ text doc properties before after, ∃ p q : Properties Nat, ∃ style,
    region source.toList = .ok text ∧ Document.load text = .ok doc ∧ q.tag = none ∧
    doc.root = .mapping properties
      (before ++ (.scalar p style edition.key, .scalar q .plain id) :: after)

/-- Whether a plain scalar can be read, which integers of more than 64 bits cannot. -/
def IsReadable (id : String) : Prop := ∀ n, ofPlain id ≠ .wide n

theorem key_mem_knownFields (edition : Edition) : edition.key ∈ knownFields := by
  cases edition <;> decide

/-- An id is read as its scalar prints. -/
theorem givenId_of_extract {source id : String} {edition : Edition} {matter : FrontMatter}
    (h : DeclaresId source edition id) (hextract : extract source = .ok matter) :
    IsReadable id ∧ matter.givenId edition = (ofPlain id).print? := by
  obtain ⟨declared, hdeclared, hresolve⟩ := exists_declaredBy_of_extract hextract
  obtain ⟨text, doc, properties, before, after, p, q, style, hregion, hload, htag, hroot⟩ := h
  rw [Declared.givenId_of_resolve hresolve]
  have hfields : Gives (Reading.record doc knownFields (assign doc) .root "struct RawMetadata" {}
      doc.root) fun result => IsReadable id ∧
        result.givenId edition = (ofPlain id).print? := by
    rw [hroot]
    exact gives_fields (P := fun given => IsReadable id ∧ given = (ofPlain id).print?)
      (fun other hne path v record => gives_assign_of_ne doc edition path record hne v)
      (key_mem_knownFields edition)
      (fun path record => gives_assign_key doc edition path record htag) before after [] {}
  have hdocument : Declared.ofDocument doc = .ok declared := by
    simp only [declaredBy, hregion, hload, Except.mapError, Bind.bind, Except.bind] at hdeclared
    exact mapError_eq_ok_iff.1 hdeclared
  obtain ⟨later, hrecord⟩ := exists_of_run' hdocument
  exact hfields 0 declared later hrecord

end Conformance.FrontMatter
