import Conformance.CommandLine.Response
import Conformance.Proofs.Acceptance
import Conformance.Proofs.Finding

/-!
# Printed front matter is front matter

What is printed of front matter, put between the marks of a comment, is read back as the same front
matter, as long as its texts are printable and the end mark does not occur among them.
-/

namespace Conformance

/-! ### Names of phases and flags -/

theorem Phase.ofName?_name (phase : Phase) : Phase.ofName? phase.name = some phase := by
  cases phase <;> decide

theorem Flag.ofName?_name (flag : Flag) : Flag.ofName? flag.name = some flag := by
  cases flag <;> decide

theorem Flag.index_lt (flag : Flag) : flag.index < 16 := by
  cases flag <;> decide

namespace Flags

/-- Whether every bit of a set is that of a flag. -/
def Known (flags : Flags) : Prop :=
  ∀ i : Fin 16, flags.bits.getLsbD i = true → ∃ flag ∈ Flag.all, flag.index = i

instance (flags : Flags) : Decidable flags.Known :=
  inferInstanceAs (Decidable
    (∀ i : Fin 16, flags.bits.getLsbD i = true → ∃ flag ∈ Flag.all, flag.index = i))

theorem getLsbD_union_single (flags : Flags) (flag : Flag) (i : Nat) :
    (flags.union (single flag)).bits.getLsbD i = (flags.bits.getLsbD i || flag.index == i) := by
  rw [union, single, BitVec.getLsbD_or, BitVec.getLsbD_twoPow]
  simp [flag.index_lt, BEq.beq]

theorem getLsbD_foldl (members : List Flag) (start : Flags) (i : Nat) :
    (members.foldl (fun flags flag => flags.union (single flag)) start).bits.getLsbD i =
      (start.bits.getLsbD i || members.any (·.index == i)) := by
  induction members generalizing start with
  | nil => simp
  | cons flag members ih =>
    rw [List.foldl_cons, ih, getLsbD_union_single, List.any_cons, Bool.or_assoc]

theorem ofNames_names {flags : Flags} (h : flags.Known) : ofNames flags.names = flags := by
  have hmembers : flags.names.filterMap Flag.ofName? = Flag.all.filter flags.contains := by
    have hname : Flag.ofName? ∘ Flag.name = some := funext Flag.ofName?_name
    rw [names, List.filterMap_map, hname, List.filterMap_some]
  have hbits : (ofNames flags.names).bits = flags.bits := by
    apply BitVec.eq_of_getLsbD_eq
    intro i hi
    rw [ofNames, hmembers, getLsbD_foldl]
    have hany : (Flag.all.filter flags.contains).any (·.index == i) = flags.bits.getLsbD i := by
      rw [Bool.eq_iff_iff, List.any_eq_true]
      constructor
      · rintro ⟨flag, hflag, hindex⟩
        rw [← beq_iff_eq.1 hindex]
        exact (List.mem_filter.1 hflag).2
      · intro hbit
        obtain ⟨flag, hflag, hindex⟩ := h ⟨i, hi⟩ hbit
        have hmember : flags.contains flag = true := by
          rw [contains, hindex]
          exact hbit
        exact ⟨flag, List.mem_filter.2 ⟨hflag, hmember⟩, beq_iff_eq.2 hindex⟩
    simp [hany, empty]
  cases flags
  exact congrArg Flags.mk hbits

end Flags

/-! ### Nodes of JSON values -/

namespace Json

open Yaml Yaml.Node

theorem toList_pretty (value : Json) : value.pretty.toList = prettyText 0 value :=
  String.toList_ofList

theorem ofPlain_null : Denotation.ofPlain (String.ofList (scalarText .null)) = .null := by
  decide +kernel

mutual

theorem isPlain_node : ∀ {value : Json}, value.Textual → (value.node : Node Nat).IsPlain
  | .null, _ => ⟨rfl, fun n h => by
    have hnull : Denotation.untagged .plain (String.ofList (scalarText .null)) = .null :=
      ofPlain_null
    rw [hnull] at h
    cases h⟩
  | .string _, _ => ⟨rfl, nofun⟩
  | .array _, h => ⟨rfl, itemsPlain_nodes h⟩
  | .object _, h => ⟨rfl, entriesPlain_entries h⟩

theorem itemsPlain_nodes : ∀ {items : List Json}, ItemsTextual items →
    ItemsPlain (nodes items : List (Node Nat))
  | [], _ => trivial
  | _ :: _, h => ⟨isPlain_node h.1, itemsPlain_nodes h.2⟩

theorem entriesPlain_entries : ∀ {fields : List (String × Json)}, FieldsTextual fields →
    EntriesPlain (entries fields : List (Node Nat × Node Nat))
  | [], _ => trivial
  | _ :: _, h => ⟨⟨rfl, nofun⟩, isPlain_node h.2.1, entriesPlain_entries h.2.2⟩

end

/-- The fields of an object. -/
def fields : Json → List (String × Json)
  | .object fields => fields
  | _ => []

theorem isScalar_key {fields : List (String × Json)} :
    ∀ entry ∈ (entries fields : List (Node Nat × Node Nat)), entry.1.isScalar = true := by
  induction fields with
  | nil => exact nofun
  | cons field rest ih =>
    intro entry hentry
    rcases List.mem_cons.1 hentry with rfl | hentry
    · rfl
    · exact ih entry hentry

variable {text : Option String} {items : List String}

theorem textual_optionalText (h : ∀ s ∈ text, ∀ c ∈ s.toList, isPrintable c = true) :
    (optionalText text).Textual := by
  cases text with
  | none => trivial
  | some s => exact h s rfl

theorem textual_texts (h : ∀ s ∈ items, ∀ c ∈ s.toList, isPrintable c = true) :
    (texts items).Textual := by
  have hitems : ItemsTextual (items.map .string) := by
    induction items with
    | nil => trivial
    | cons s rest ih =>
      exact ⟨h s List.mem_cons_self, ih fun t ht => h t (List.mem_cons_of_mem s ht)⟩
  exact hitems

theorem textual_object {fields : List (String × Json)}
    (hnames : ∀ name ∈ fields.map Prod.fst,
      (∀ c ∈ name.toList, isPrintable c = true) ∧ (stringText name).length ≤ 1024)
    (hvalues : ∀ value ∈ fields.map Prod.snd, value.Textual) : (object fields).Textual := by
  have hfields : FieldsTextual fields := by
    induction fields with
    | nil => trivial
    | cons field rest ih =>
      rw [List.map_cons, List.forall_mem_cons] at hnames hvalues
      exact ⟨hnames.1, hvalues.1, ih hnames.2 hvalues.2⟩
  exact hfields

theorem isScalar_optionalText : ((optionalText text).node : Node Nat).isScalar = true := by
  cases text <;> rfl

theorem printed_optionalText : ((optionalText text).node : Node Nat).printed = text := by
  cases text with
  | none => exact congrArg Denotation.print? ofPlain_null
  | some s => rfl

theorem node_texts :
    ((texts items).node : Node Nat) = .sequence {} (items.map (.scalar {} .quoted)) := by
  have hitems : (nodes (items.map .string) : List (Node Nat)) =
      items.map (.scalar {} .quoted) := by
    induction items with
    | nil => rfl
    | cons s rest ih =>
      rw [List.map_cons, nodes, ih]
      rfl
  rw [texts, node, hitems]

theorem fitsTexts_texts : Reading.FitsTexts ((texts items).node : Node Nat) :=
  .inr ⟨_, _, node_texts, by simp [isScalar]⟩

theorem spellings_texts : ((texts items).node : Node Nat).spellings = items := by
  rw [node_texts, spellings, List.map_map]
  exact List.map_id items

end Json

/-! ### Front matter -/

namespace FrontMatter

open Yaml Yaml.Node

theorem region_eq {text : List Char} (h : Text.contains text endMark = false)
    (body : List Char) :
    region (startMark ++ '\n' :: (text ++ '\n' :: (endMark ++ body))) =
      .ok ('\n' :: (text ++ ['\n'])) := by
  have hfeed : '\n' ∉ endMark := by decide
  have hstart : Text.find? startMark (startMark ++ '\n' :: (text ++ '\n' :: (endMark ++ body))) =
      some 0 := rfl
  have hbefore : Text.findFrom? endMark 0 startMark = none := by decide
  -- neither piece in front of the end mark holds one, and a line feed parts them from it
  have htext : Text.findFrom? endMark 6 text = none := by
    have hnone : Text.find? endMark text = none := by simpa [Text.contains] using h
    have hshift := Text.findFrom?_add endMark 0 6 text
    rw [Text.find?] at hnone
    rw [hnone] at hshift
    exact hshift
  have hstop : Text.find? endMark (startMark ++ '\n' :: (text ++ '\n' :: (endMark ++ body))) =
      some (6 + text.length + 1) := by
    rw [Text.find?, Text.findFrom?_append_cons hfeed (by decide) 0 _ _ hbefore]
    have hlength : 0 + startMark.length + 1 = 6 := rfl
    rw [hlength, Text.findFrom?_append_cons hfeed (by decide) 6 _ _ htext]
    rfl
  have hsplit : startMark ++ '\n' :: (text ++ '\n' :: (endMark ++ body)) =
      startMark ++ (('\n' :: (text ++ ['\n'])) ++ (endMark ++ body)) := by
    simp
  have hlength : 6 + text.length + 1 = startMark.length + ('\n' :: (text ++ ['\n'])).length := by
    have hmark : startMark.length = 5 := rfl
    simp only [hmark, List.length_cons, List.length_append, List.length_nil]
    omega
  have hafter : ¬ startMark.length + ('\n' :: (text ++ ['\n'])).length ≤ 0 + startMark.length := by
    simp
  simp only [region, hstart, hstop]
  rw [hsplit, hlength, if_neg hafter, Nat.zero_add, ← List.append_assoc, ← List.length_append,
    List.take_left, List.drop_left]

/-- The texts of front matter, apart from the names of phases and flags. -/
def allTexts (matter : FrontMatter) : List String :=
  matter.description :: (matter.info.toList ++ (matter.negative.map (·.errorType)).toList ++
    matter.includes ++ matter.features ++ matter.locale ++ matter.es5id.toList ++
    matter.es6id.toList ++ matter.esid.toList)

/-- Front matter of printable texts and known flags, whose negative expectation, if it has one,
names a type of error. -/
structure Printable (matter : FrontMatter) : Prop where
  texts : ∀ text ∈ matter.allTexts, ∀ c ∈ text.toList, isPrintable c = true
  negative : ∀ negative ∈ matter.negative, negative.errorType ≠ ""
  flags : matter.flags.Known

variable {matter : FrontMatter}

theorem isPrintable_flags : ∀ s ∈ matter.flags.names, ∀ c ∈ s.toList, isPrintable c = true := by
  have hall : ∀ flag ∈ Flag.all, ∀ c ∈ flag.name.toList, isPrintable c = true := by decide
  intro s hs
  obtain ⟨flag, hflag, rfl⟩ := List.mem_map.1 hs
  exact hall flag (List.mem_filter.1 hflag).1

theorem textual_negative (h : matter.Printable) :
    (Json.ofOption Negative.toJson matter.negative).Textual := by
  cases hnegative : matter.negative with
  | none => trivial
  | some negative =>
    have htype : ∀ c ∈ negative.errorType.toList, isPrintable c = true :=
      h.texts _ (by simp [allTexts, hnegative])
    have hphase : ∀ phase : Phase, ∀ c ∈ phase.name.toList, isPrintable c = true := by
      intro phase
      cases phase <;> decide
    apply Json.textual_object
    · change ∀ name ∈ negativeFields, _
      decide
    · simp only [List.map_cons, List.map_nil, List.forall_mem_cons]
      exact ⟨hphase negative.phase, htype, List.forall_mem_nil _⟩

theorem textual_toJson (h : matter.Printable) : matter.toJson.Textual := by
  have htext : ∀ {text : Option String}, (∀ s ∈ text, s ∈ matter.allTexts) →
      (Json.optionalText text).Textual :=
    fun hmem => Json.textual_optionalText fun s hs => h.texts s (hmem s hs)
  have htexts : ∀ {items : List String}, (∀ s ∈ items, s ∈ matter.allTexts) →
      (Json.texts items).Textual :=
    fun hmem => Json.textual_texts fun s hs => h.texts s (hmem s hs)
  apply Json.textual_object
  · change ∀ name ∈ knownFields, _
    decide
  · simp only [List.map_cons, List.map_nil, List.forall_mem_cons]
    refine ⟨h.texts _ (by simp [allTexts]), htext ?_, textual_negative h, htexts ?_,
      Json.textual_texts isPrintable_flags, htexts ?_, htexts ?_, htext ?_, htext ?_, htext ?_,
      List.forall_mem_nil _⟩
    all_goals
      intro s hs
      simp_all [allTexts]

/-- The entries of printed front matter. -/
def printedEntries (matter : FrontMatter) : Entries := Json.entries matter.toJson.fields

theorem expectationAcceptable_printed (negative : Negative) :
    ExpectationAcceptable (Json.entries negative.toJson.fields) := by
  constructor
  · exact Json.isScalar_key
  · simp [negativeFields, Negative.toJson, Json.fields, Json.entries]
  · simp [negativeFields, Negative.toJson, Json.fields, Json.entries, Json.node, isScalar]
  · intro _
    have hphase : textOf (ρ := Nat) "phase" (Json.entries negative.toJson.fields) =
        some negative.phase.name := rfl
    rw [hphase]
    cases negative.phase <;> decide

theorem expectation_printed (h : ∀ negative ∈ matter.negative, negative.errorType ≠ "") :
    expectation (Json.ofOption Negative.toJson matter.negative).node = matter.negative := by
  cases hnegative : matter.negative with
  | none => rfl
  | some negative =>
    have htype : negative.errorType ≠ "" := h negative hnegative
    have hstated : expectation (negative.toJson.node) =
        statedNegative (some negative.phase.name) (some negative.errorType) := rfl
    rw [Json.ofOption, hstated]
    simp [statedNegative, htype, Phase.ofName?_name]

theorem acceptable_printed (matter : FrontMatter) : Acceptable matter.printedEntries := by
  constructor
  · simp [knownFields, printedEntries, toJson, Json.fields, Json.entries]
  · have htext : ((Json.string matter.description).node : Node Nat).isScalar = true := rfl
    simp [scalarFields, printedEntries, toJson, Json.fields, Json.entries, htext,
      Json.isScalar_optionalText]
  · have hlists : ∀ items, Reading.FitsTexts (Json.texts items).node :=
      fun _ => Json.fitsTexts_texts
    simp only [Reading.FitsTexts] at hlists
    simp [listFields, printedEntries, toJson, Json.fields, Json.entries, hlists]
  · have hnegative : ∀ v : Node Nat, v = (Json.ofOption Negative.toJson matter.negative).node →
        v.isVoid = true ∨ ∃ p es, v = .mapping p es ∧ ExpectationAcceptable es := by
      rintro v rfl
      cases matter.negative with
      | none => exact .inl rfl
      | some negative => exact .inr ⟨_, _, rfl, expectationAcceptable_printed negative⟩
    simpa [printedEntries, toJson, Json.fields, Json.entries] using hnegative

theorem meaning_printed (h : matter.Printable) : meaning matter.printedEntries = matter := by
  have hdescription : ((Json.string matter.description).node : Node Nat).printed =
      some matter.description := rfl
  have hnegative := expectation_printed h.negative
  have hflags := Flags.ofNames_names h.flags
  simp [meaning, textOf, textsOf, printedEntries, toJson, Json.fields, Json.entries,
    Json.spellings_texts, Json.printed_optionalText, hdescription, hnegative, hflags]

theorem ofDocument_printed (h : matter.Printable) :
    ofDocument (Document.ofRoot matter.toJson.node) = .ok matter := by
  have hroot : (Document.ofRoot matter.toJson.node).root = .mapping {} matter.printedEntries := rfl
  have hplain : (Document.ofRoot matter.toJson.node).root.IsPlain :=
    Json.isPlain_node (textual_toJson h)
  rw [ofDocument_eq hroot hplain Json.isScalar_key (acceptable_printed matter), meaning_printed h]

/-- What is printed of front matter for a file is read back as the same front matter where it
stands between the marks of a comment, whatever follows it. -/
theorem extract_printed (h : matter.Printable)
    (hmark : Text.contains matter.toJson.pretty.toList endMark = false) :
    (∀ world file source, world.read file = .ok source → extract source = .ok matter →
      CommandLine.showFrontMatter world file = .success (matter.toJson.pretty ++ "\n")) ∧
    ∀ body, extract ("/*---\n" ++ matter.toJson.pretty ++ "\n---*/" ++ body) = .ok matter := by
  constructor
  · intro world file source hfile hsource
    simp only [CommandLine.showFrontMatter, hfile, Except.mapError, Bind.bind, Except.bind, hsource]
  · intro body
    have hpretty := Json.toList_pretty matter.toJson
    rw [hpretty] at hmark
    have hsource : ("/*---\n" ++ matter.toJson.pretty ++ "\n---*/" ++ body).toList = startMark ++
        '\n' :: (Json.prettyText 0 matter.toJson ++ '\n' :: (endMark ++ body.toList)) := by
      simp only [String.toList_append, hpretty, List.append_assoc]
      rfl
    have hload := Document.load_pretty (textual_toJson h) (.inr ⟨_, rfl⟩)
    have hread : read ("/*---\n" ++ matter.toJson.pretty ++ "\n---*/" ++ body).toList =
        .ok matter := by
      rw [read, hsource, region_eq hmark]
      simp only [Except.mapError, Bind.bind, Except.bind, hload, ofDocument_printed h]
    rw [extract, hread]
    rfl

/-- A negative test whose texts have to be escaped. -/
def quotedMatter : FrontMatter where
  description := "Throws \"at once\"\nor \\ never"
  negative := some ⟨.runtime, "Test262Error"⟩
  includes := ["sta.js", ""]
  flags := .ofNames ["async", "raw"]
  esid := some "sec-throw"

theorem extract_printed_quoted :
    extract ("/*---\n" ++ quotedMatter.toJson.pretty ++ "\n---*/" ++ "throw 1; /*---") =
      .ok quotedMatter := by
  have hprintable : quotedMatter.Printable := by
    constructor
    · decide +kernel
    · rintro _ ⟨⟩
      decide
    · decide
  have hmark : Text.contains quotedMatter.toJson.pretty.toList endMark = false := by
    rw [Json.toList_pretty]
    decide +kernel
  exact (extract_printed hprintable hmark).2 "throw 1; /*---"

end FrontMatter

end Conformance
