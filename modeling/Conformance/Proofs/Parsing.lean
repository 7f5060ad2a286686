import Conformance.Proofs.Lexing
import Conformance.Yaml.Document

/-!
# JSON text as a document

From the tokens of a JSON value the grammar makes the node that the value denotes, `Json.node`:
lists are sequences, objects are mappings, and texts are scalars in quotes. With `tokens_pretty`
this says which document printed JSON is (`Document.load_pretty`).
-/

namespace Conformance

namespace Json

open Yaml

mutual

/-- The node that a value denotes. -/
def node {ρ : Type} : Json → Node ρ
  | .array items => .sequence {} (nodes items)
  | .object fields => .mapping {} (entries fields)
  | .string s => .scalar {} .quoted s
  | value => .scalar {} .plain (String.ofList (scalarText value))

def nodes {ρ : Type} : List Json → List (Node ρ)
  | [] => []
  | x :: rest => node x :: nodes rest

def entries {ρ : Type} : List (String × Json) → List (Node ρ × Node ρ)
  | [] => []
  | (key, x) :: rest => (.scalar {} .quoted key, node x) :: entries rest

end

/-- Whether a value begins with a token. -/
def begins : Token → Bool
  | .scalar .. | .flowSequenceStart | .flowMappingStart => true
  | _ => false

theorem exists_begins (value : Json) : ∃ t ts, value.tokens = t :: ts ∧ begins t = true := by
  cases value <;> simp [tokens, begins]

end Json

namespace Yaml.Node

open Json

variable {handles : Handles} {fuel : Nat} {t : Token} {ts : List Token}

theorem readUnless_eq {ends : List Token → Bool} (h : ends ts = false) (block flush : Bool) :
    readUnless handles (fuel + 1) ends block flush ts = read handles fuel block flush ts := by
  rw [readUnless, h]
  rfl

theorem readFlowSequence_of_begins (ht : begins t = true) :
    readFlowSequence handles (fuel + 1) true (t :: ts) = readFlowItem handles fuel (t :: ts) := by
  cases t <;> first | rfl | simp [begins] at ht

theorem readFlowItem_value (x : Json) (after : List Token) :
    readFlowItem handles (fuel + 1) (x.tokens ++ after) = (do
      let (item, rest) ← read handles fuel false false (x.tokens ++ after)
      let (items, rest) ← readFlowSequence handles fuel false rest
      pure (item :: items, rest)) := by
  obtain ⟨t, ts, hts, ht⟩ := exists_begins x
  rw [hts]
  cases t <;> first | rfl | simp [begins] at ht

theorem readFlowPart_field (name : String) (x : Json) (after : List Token) :
    readFlowPart handles (fuel + 3)
      (.key :: .scalar .quoted name :: .value :: (x.tokens ++ after)) = (do
      let (value, rest) ← read handles (fuel + 1) false false (x.tokens ++ after)
      let (entries, rest) ← readFlowMapping handles (fuel + 2) false rest
      pure ((.scalar {} .quoted name, value) :: entries, rest)) := by
  have hvalue : readUnless handles (fuel + 2) endsFlowValue false false (x.tokens ++ after) =
      read handles (fuel + 1) false false (x.tokens ++ after) := by
    apply readUnless_eq
    obtain ⟨t, ts, hts, ht⟩ := exists_begins x
    rw [hts]
    cases t <;> first | rfl | simp [begins] at ht
  rw [← hvalue]
  rfl

/-- Whether the grammar reads a value's tokens as its node, with fuel for two calls for each. -/
def ValueReads (value : Json) : Prop :=
  ∀ ⦃handles : Handles⦄ ⦃fuel : Nat⦄ ⦃block flush : Bool⦄ ⦃rest : List Token⦄,
    2 * value.tokens.length ≤ fuel →
    read handles fuel block flush (value.tokens ++ rest) = .ok (value.node, rest)

def ItemsRead (items : List Json) : Prop :=
  ∀ ⦃handles : Handles⦄ ⦃fuel : Nat⦄ ⦃rest : List Token⦄, items ≠ [] →
    2 * (itemTokens items).length + 1 ≤ fuel →
    readFlowItem handles fuel (itemTokens items ++ .flowSequenceEnd :: rest) =
      .ok (nodes items, rest)

def FieldsRead (fields : List (String × Json)) : Prop :=
  ∀ ⦃handles : Handles⦄ ⦃fuel : Nat⦄ ⦃rest : List Token⦄, fields ≠ [] →
    2 * (fieldTokens fields).length ≤ fuel →
    readFlowPart handles fuel (fieldTokens fields ++ .flowMappingEnd :: rest) =
      .ok (entries fields, rest)

theorem scalar_reads {value : Json} {style : Style} {text : String}
    (htokens : value.tokens = [.scalar style text])
    (hnode : value.node = (.scalar {} style text : Node String)) : ValueReads value := by
  intro handles fuel block flush rest hfuel
  rw [htokens] at hfuel ⊢
  obtain ⟨fuel, rfl⟩ : ∃ n, fuel = n + 1 := ⟨fuel - 1, by simp at hfuel; omega⟩
  rw [hnode]
  rfl

theorem array_reads {items : List Json} (h : ItemsRead items) : ValueReads (.array items) := by
  intro handles fuel block flush rest hfuel
  rw [Json.tokens] at hfuel ⊢
  simp only [List.length_cons, List.length_append, List.length_nil] at hfuel
  obtain ⟨fuel, rfl⟩ : ∃ n, fuel = n + 2 := ⟨fuel - 2, by omega⟩
  have hread : ∀ after, read handles (fuel + 2) block flush (.flowSequenceStart :: after) =
      (do
        let (items, rest) ← readFlowSequence handles (fuel + 1) true after
        pure (.sequence {} items, rest)) := fun _ => rfl
  rw [List.cons_append, List.append_assoc, List.singleton_append, hread]
  cases items with
  | nil => rfl
  | cons x items =>
    obtain ⟨t, ts, hts, ht⟩ := exists_begins x
    obtain ⟨more, hmore⟩ : ∃ more, itemTokens (x :: items) = t :: more := by
      cases items <;> simp [itemTokens, hts]
    have hitems : readFlowItem handles fuel (itemTokens (x :: items) ++ .flowSequenceEnd :: rest) =
        .ok (nodes (x :: items), rest) := h (List.cons_ne_nil x items) (by omega)
    rw [hmore, List.cons_append] at hitems ⊢
    rw [readFlowSequence_of_begins ht, hitems]
    rfl

theorem object_reads {fields : List (String × Json)} (h : FieldsRead fields) :
    ValueReads (.object fields) := by
  intro handles fuel block flush rest hfuel
  rw [Json.tokens] at hfuel ⊢
  simp only [List.length_cons, List.length_append, List.length_nil] at hfuel
  obtain ⟨fuel, rfl⟩ : ∃ n, fuel = n + 2 := ⟨fuel - 2, by omega⟩
  have hread : ∀ after, read handles (fuel + 2) block flush (.flowMappingStart :: after) =
      (do
        let (entries, rest) ← readFlowMapping handles (fuel + 1) true after
        pure (.mapping {} entries, rest)) := fun _ => rfl
  rw [List.cons_append, List.append_assoc, List.singleton_append, hread]
  cases fields with
  | nil => rfl
  | cons field fields =>
    obtain ⟨more, hmore⟩ : ∃ more, fieldTokens (field :: fields) = .key :: more := by
      cases fields <;> simp [fieldTokens]
    have hfields : readFlowPart handles fuel
        (fieldTokens (field :: fields) ++ .flowMappingEnd :: rest) =
        .ok (entries (field :: fields), rest) := h (List.cons_ne_nil field fields) (by omega)
    have hpart : ∀ after, readFlowMapping handles (fuel + 1) true (.key :: after) =
        readFlowPart handles fuel (.key :: after) := fun _ => rfl
    rw [hmore, List.cons_append] at hfields ⊢
    rw [hpart, hfields]
    rfl

mutual

theorem value_reads : ∀ value : Json, ValueReads value
  | .array items => array_reads (items_read items)
  | .object fields => object_reads (fields_read fields)
  | .string _ | .null | .bool _ | .natural _ | .real _ => scalar_reads rfl rfl

theorem items_read : ∀ items : List Json, ItemsRead items
  | [] => fun _ _ _ h => (h rfl).elim
  | [x] => by
    intro handles fuel rest _ hfuel
    rw [itemTokens] at hfuel ⊢
    obtain ⟨fuel, rfl⟩ : ∃ n, fuel = n + 2 := by
      obtain ⟨t, ts, hts, _⟩ := exists_begins x
      rw [hts, List.length_cons] at hfuel
      exact ⟨fuel - 2, by omega⟩
    rw [readFlowItem_value, value_reads x (by omega)]
    rfl
  | x :: y :: items => by
    intro handles fuel rest _ hfuel
    have htokens : itemTokens (x :: y :: items) =
        x.tokens ++ .flowEntry :: itemTokens (y :: items) := rfl
    rw [htokens] at hfuel ⊢
    rw [List.length_append, List.length_cons] at hfuel
    obtain ⟨fuel, rfl⟩ : ∃ n, fuel = n + 2 := ⟨fuel - 2, by omega⟩
    rw [List.append_assoc, readFlowItem_value, value_reads x (by omega)]
    have hentry : ∀ after, readFlowSequence handles (fuel + 1) false (.flowEntry :: after) =
        readFlowItem handles fuel after := fun _ => rfl
    have hitems : readFlowItem handles fuel (itemTokens (y :: items) ++ .flowSequenceEnd :: rest) =
        .ok (nodes (y :: items), rest) :=
      items_read (y :: items) (List.cons_ne_nil y items) (by omega)
    simp only [Bind.bind, Except.bind, List.cons_append, hentry, hitems]
    rfl

theorem fields_read : ∀ fields : List (String × Json), FieldsRead fields
  | [] => fun _ _ _ h => (h rfl).elim
  | [(name, x)] => by
    intro handles fuel rest _ hfuel
    rw [fieldTokens] at hfuel ⊢
    simp only [List.length_cons] at hfuel
    obtain ⟨fuel, rfl⟩ : ∃ n, fuel = n + 3 := ⟨fuel - 3, by omega⟩
    simp only [List.cons_append]
    rw [readFlowPart_field, value_reads x (by omega)]
    rfl
  | (name, x) :: y :: fields => by
    intro handles fuel rest _ hfuel
    have htokens : fieldTokens ((name, x) :: y :: fields) = .key :: .scalar .quoted name ::
        .value :: (x.tokens ++ .flowEntry :: fieldTokens (y :: fields)) := rfl
    rw [htokens] at hfuel ⊢
    simp only [List.length_cons, List.length_append] at hfuel
    obtain ⟨fuel, rfl⟩ : ∃ n, fuel = n + 3 := ⟨fuel - 3, by omega⟩
    simp only [List.cons_append, List.append_assoc]
    rw [readFlowPart_field, value_reads x (by omega)]
    have hentry : ∀ after, readFlowMapping handles (fuel + 2) false (.flowEntry :: after) =
        readFlowPart handles (fuel + 1) after := fun _ => rfl
    have hfields : readFlowPart handles (fuel + 1)
        (fieldTokens (y :: fields) ++ .flowMappingEnd :: rest) =
        .ok (entries (y :: fields), rest) :=
      fields_read (y :: fields) (List.cons_ne_nil y fields) (by omega)
    simp only [Bind.bind, Except.bind, hentry, hfields]
    rfl

end

/-! ### Numbering -/

mutual

theorem number_node : ∀ (names : Names) (value : Json),
    (value.node : Node String).number names = .ok (value.node, names)
  | names, .array items => by
    rw [Json.node, number]
    simp only [Properties.number, Bind.bind, Except.bind, number_nodes names items]
    rfl
  | names, .object fields => by
    rw [Json.node, number]
    simp only [Properties.number, Bind.bind, Except.bind, number_entries names fields]
    rfl
  | _, .string _ | _, .null | _, .bool _ | _, .natural _ | _, .real _ => rfl

theorem number_nodes : ∀ (names : Names) (items : List Json),
    numberItems names (nodes items) = .ok (nodes items, names)
  | _, [] => rfl
  | names, x :: items => by
    rw [nodes, numberItems, number_node names x]
    simp only [Bind.bind, Except.bind, number_nodes names items]
    rfl

theorem number_entries : ∀ (names : Names) (fields : List (String × Json)),
    numberEntries names (entries fields) = .ok (entries fields, names)
  | _, [] => rfl
  | names, (name, x) :: fields => by
    have hkey : (Node.scalar {} .quoted name : Node String).number names =
        .ok (.scalar {} .quoted name, names) := rfl
    rw [entries, numberEntries, hkey]
    simp only [Bind.bind, Except.bind, number_node names x, number_entries names fields]
    rfl

end

end Yaml.Node

namespace Yaml

open Json

theorem Stream.read_tokens (value : Json) : Stream.read value.tokens = .ok value.node := by
  obtain ⟨t, ts, hts, ht⟩ := exists_begins value
  have hne : value.tokens ≠ [] := by
    rw [hts]
    exact List.cons_ne_nil t ts
  have hdirective : isDirective value.tokens = false := by
    rw [hts]
    cases t <;> first | rfl | simp [begins] at ht
  have hread : Node.read Handles.standard (enough value.tokens) true false value.tokens =
      .ok (value.node, []) := by
    have hfuel : 2 * value.tokens.length ≤ enough value.tokens := by
      rw [enough]
      omega
    rw [← Node.value_reads value hfuel, List.append_nil]
  rw [Stream.read, if_neg hne, hdirective, hread]
  rfl

namespace Document

theorem load_eq {text : List Char} {ts : List Token} {root : Node String} {numbered : Node Nat}
    {names : Names} (htokens : Yaml.tokens text = .ok ts) (hread : Stream.read ts = .ok root)
    (hnumber : root.number [] = .ok (numbered, names)) :
    load text = .ok (ofRoot numbered) := by
  simp only [load, ofNode, htokens, hread, hnumber, Bind.bind, Except.bind]
  rfl

/-- A list or an object that is printed on lines of its own is the document that it denotes. -/
theorem load_pretty {value : Json} (h : value.Textual)
    (hroot : (∃ items, value = .array items) ∨ ∃ fields, value = .object fields) :
    load ('\n' :: (prettyText 0 value ++ ['\n'])) = .ok (ofRoot value.node) :=
  load_eq (tokens_pretty h hroot) (Stream.read_tokens value) (Node.number_node [] value)

end Document

end Yaml

end Conformance
