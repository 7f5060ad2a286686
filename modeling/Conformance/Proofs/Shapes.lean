import Mathlib.Data.List.Basic
import Conformance.Yaml.Shape

/-!
# Reading plain nodes

A node is plain if nothing in it is an alias, has a tag of its own or is an integer of more than 64
bits. On plain nodes a reader does not depend on what was read before: it gives one value, or it
`Fails`. For records, `Reading.fields_eq` and `Reading.fails_fields` derive this from what is known
of each field; which fields a mapping has is told by `Node.valuesOf`.
-/

namespace Conformance.Yaml

/-- What a denotation prints as; null prints as nothing at all. -/
def Denotation.print? : Denotation → Option String
  | .null => none
  | .bool b => some (toString b)
  | .number n => some n.text
  | .wide n => some (toString n)
  | .text s => some s

namespace Node

variable {ρ : Type}

def isScalar : Node ρ → Bool
  | .scalar .. => true
  | _ => false

mutual

/-- Whether a node has no aliases, no tags and no integers of more than 64 bits. -/
def IsPlain : Node ρ → Prop
  | .alias _ => False
  | .scalar p style text => p.tag = none ∧ ∀ n, Denotation.untagged style text ≠ .wide n
  | .sequence p items => p.tag = none ∧ ItemsPlain items
  | .mapping p entries => p.tag = none ∧ EntriesPlain entries

def ItemsPlain : List (Node ρ) → Prop
  | [] => True
  | x :: rest => IsPlain x ∧ ItemsPlain rest

def EntriesPlain : List (Node ρ × Node ρ) → Prop
  | [] => True
  | (k, v) :: rest => IsPlain k ∧ IsPlain v ∧ EntriesPlain rest

end

/-- Null, or the empty scalar that stands where nothing is written. An empty text in quotes is
neither. -/
def isVoid : Node ρ → Bool
  | .scalar _ .plain text => text == "" || Denotation.isNull text.toList
  | _ => false

/-- The text that a scalar is read as, unless it is null. -/
def printed : Node ρ → Option String
  | .scalar _ style text => Denotation.print? <| Denotation.untagged style text
  | _ => none

/-- The text of a scalar as it stands in the source. -/
def spelling : Node ρ → String
  | .scalar _ _ text => text
  | _ => ""

/-- The texts of a sequence. -/
def spellings : Node ρ → List String
  | .sequence _ items => items.map spelling
  | _ => []

/-- Whether a node is a scalar with the given text, however it is written. -/
def spells (name : String) : Node ρ → Bool
  | .scalar _ _ text => text == name
  | _ => false

/-- The values of the entries whose key has the given text, in order. -/
def valuesOf (name : String) (entries : List (Node ρ × Node ρ)) : List (Node ρ) :=
  (entries.filter fun entry => entry.1.spells name).map Prod.snd

@[simp] theorem valuesOf_nil (name : String) : valuesOf (ρ := ρ) name [] = [] := rfl

@[simp] theorem valuesOf_cons (name : String) (p : Properties ρ) (style : Style) (text : String)
    (v : Node ρ) (rest : List (Node ρ × Node ρ)) :
    valuesOf name ((.scalar p style text, v) :: rest) =
      if text = name then v :: valuesOf name rest else valuesOf name rest := by
  by_cases h : text = name <;> simp [valuesOf, spells, h]

/-- The text of a field; none where it is missing or null. -/
def textOf (name : String) (entries : List (Node ρ × Node ρ)) : Option String :=
  (valuesOf name entries).head?.elim none printed

/-- The texts of a field that is a list; none where it is missing or void. -/
def textsOf (name : String) (entries : List (Node ρ × Node ρ)) : List String :=
  (valuesOf name entries).head?.elim [] spellings

end Node

namespace Reading

open Node

variable {α β : Type}

/-- Whether a reader fails, whatever was read before. -/
def Fails (reader : Reading α) : Prop :=
  ∀ followed, ∃ fault, reader followed = .error fault

theorem fails_throw (fault : ShapeFault) : Fails (throw fault : Reading α) :=
  fun _ => ⟨fault, rfl⟩

theorem fails_misfit (path : Path) (cause : Misfit) : Fails (misfit path cause : Reading α) :=
  fails_throw _

theorem Fails.bind {reader : Reading α} (h : Fails reader) (next : α → Reading β) :
    Fails (reader >>= next) := by
  intro followed
  obtain ⟨fault, hfault⟩ := h followed
  exact ⟨fault, by simp [Bind.bind, StateT.bind, hfault, Except.bind]⟩

/-- What fails behind everything that the first reader can give fails as a whole. -/
theorem fails_bind {reader : Reading α} {next : α → Reading β}
    (h : ∀ followed a later, reader followed = .ok (a, later) → Fails (next a)) :
    Fails (reader >>= next) := by
  intro followed
  cases hread : reader followed with
  | error fault => exact ⟨fault, by simp [Bind.bind, StateT.bind, hread, Except.bind]⟩
  | ok given =>
    obtain ⟨a, later⟩ := given
    obtain ⟨fault, hfault⟩ := h followed a later hread later
    exact ⟨fault, by simp [Bind.bind, StateT.bind, hread, Except.bind, hfault]⟩

theorem exists_of_map {f : α → β} {reader : Reading α} {followed later : Nat} {b : β}
    (h : (f <$> reader) followed = .ok (b, later)) : ∃ a, b = f a := by
  simp only [Functor.map, StateT.map, Bind.bind, Except.bind] at h
  split at h
  · cases h
  · simp only [pure, Except.pure, Except.ok.injEq, Prod.mk.injEq] at h
    exact ⟨_, h.1.symm⟩

theorem Fails.run' {reader : Reading α} (h : Fails reader) (followed : Nat) :
    ∃ fault, reader.run' followed = .error fault := by
  obtain ⟨fault, hfault⟩ := h followed
  exact ⟨fault, by simp [StateT.run', hfault]⟩

variable {doc : Document} {path outer : Path} {node : Node Nat}

theorem follow_eq (h : node.IsPlain) : follow doc node = pure node := by
  cases node with
  | «alias» => exact h.elim
  | scalar => rfl
  | sequence => rfl
  | mapping => rfl

theorem fails_wrongKind (path : Path) (node : Node Nat) (expected : String) :
    Fails (wrongKind path node expected : Reading α) := by
  unfold wrongKind
  split
  · split <;> exact fails_misfit _ _
  · exact fails_misfit _ _
  · exact fails_misfit _ _

theorem text_eq (expected : String) (h : node.isScalar) :
    text doc path expected node = pure node.spelling := by
  cases node with
  | scalar => rfl
  | _ => simp [isScalar] at h

theorem fails_text (expected : String) (hplain : node.IsPlain) (h : node.isScalar = false) :
    Fails (text doc path expected node) := by
  unfold text
  rw [follow_eq hplain, pure_bind]
  cases node with
  | scalar => simp [isScalar] at h
  | _ => exact fails_wrongKind _ _ _

theorem optional_eq (h : node.IsPlain) :
    optional doc outer node = pure (if node.isVoid then none else some node) := by
  unfold optional
  rw [follow_eq h, pure_bind]
  cases node with
  | «alias» => rfl
  | sequence => rfl
  | mapping => rfl
  | scalar p style text =>
    have htag : p.tag = none := h.1
    cases style with
    | plain => simp [htag, isVoid]
    | quoted => rfl
    | block => rfl

theorem isEmpty_of_isVoid_eq_false (h : node.isVoid = false) : isEmpty node = false := by
  cases node with
  | scalar p style text =>
    cases style with
    | plain => exact (Bool.or_eq_false_iff.1 h).1
    | _ => rfl
  | _ => rfl

section Texts

theorem mapM_text_eq (expected : String) {items : List (Node Nat)}
    (h : ∀ x ∈ items, x.isScalar = true) (start : Nat) :
    (items.zipIdx start).mapM (fun (x, i) => text doc (.item path i) expected x) =
      pure (items.map spelling) := by
  induction items generalizing start with
  | nil => simp
  | cons x rest ih =>
    have hrest := ih (fun y hy => h y (List.mem_cons_of_mem x hy)) (start + 1)
    simp only [List.zipIdx_cons, List.mapM_cons, hrest]
    simp [text_eq expected (h x List.mem_cons_self)]

theorem fails_mapM_text (expected : String) {items : List (Node Nat)} (hplain : ItemsPlain items)
    (h : ∃ x ∈ items, x.isScalar = false) (start : Nat) :
    Fails ((items.zipIdx start).mapM fun (x, i) => text doc (.item path i) expected x) := by
  induction items generalizing start with
  | nil => simp at h
  | cons y rest ih =>
    simp only [List.zipIdx_cons, List.mapM_cons]
    cases hy : y.isScalar with
    | false => exact (fails_text expected hplain.1 hy).bind _
    | true =>
      have hrest : ∃ x ∈ rest, x.isScalar = false := by
        obtain ⟨x, hx, hscalar⟩ := h
        rcases List.mem_cons.1 hx with rfl | hx
        · rw [hy] at hscalar
          cases hscalar
        · exact ⟨x, hx, hscalar⟩
      rw [text_eq expected hy, pure_bind]
      exact (ih hplain.2 hrest (start + 1)).bind _

/-- Whether a node can be read as a list of texts. -/
def FitsTexts (node : Node Nat) : Prop :=
  node.isVoid = true ∨ ∃ p items, node = .sequence p items ∧ ∀ x ∈ items, x.isScalar = true

theorem texts_eq (hplain : node.IsPlain) (h : FitsTexts node) :
    texts doc outer path node = pure node.spellings := by
  unfold texts
  rw [optional_eq hplain, pure_bind]
  rcases h with hvoid | ⟨p, items, rfl, hitems⟩
  · rw [if_pos hvoid]
    cases node with
    | scalar => rfl
    | _ => simp [isVoid] at hvoid
  · have hvoid : (Node.sequence p items).isVoid = false := rfl
    simp only [hvoid, Bool.false_eq_true, if_false, spellings]
    exact mapM_text_eq "a string" hitems 0

theorem fails_texts (hplain : node.IsPlain) (h : ¬ FitsTexts node) :
    Fails (texts doc outer path node) := by
  have hvoid : node.isVoid = false := by
    cases hvoid : node.isVoid with
    | false => rfl
    | true => exact (h (.inl hvoid)).elim
  unfold texts
  rw [optional_eq hplain, pure_bind, hvoid]
  cases node with
  | «alias» => exact hplain.elim
  | scalar p style text =>
    simp only [Bool.false_eq_true, if_false, isEmpty_of_isVoid_eq_false hvoid]
    exact fails_wrongKind _ _ _
  | mapping p entries => exact fails_wrongKind path (.mapping p entries) "a sequence"
  | sequence p items =>
    apply fails_mapM_text "a string" hplain.2
    by_contra hall
    refine h (.inr ⟨p, items, rfl, fun x hx => ?_⟩)
    cases hscalar : x.isScalar with
    | true => rfl
    | false => exact (hall ⟨x, hx, hscalar⟩).elim

end Texts

section Scalar

variable {depth : Nat}

theorem value_scalar {p : Properties Nat} {style : Style} {text : String} (h : p.tag = none) :
    value doc depth path (.scalar p style text) =
      scalarValue path ( Denotation.untagged style text) := by
  unfold value
  simp [follow, Node.properties, h, Denotation.ofScalar]

theorem scalar_eq (hplain : node.IsPlain) (h : node.isScalar = true) :
    scalar doc depth outer path node = pure node.printed := by
  cases node with
  | scalar p style text =>
    obtain ⟨htag, hnarrow⟩ := hplain
    unfold scalar
    rw [value_scalar htag]
    simp only [printed]
    cases hdenotation : Denotation.untagged style text with
    | wide n => exact (hnarrow n hdenotation).elim
    | _ => rfl
  | _ => simp [isScalar] at h

theorem value_of_collection (hplain : node.IsPlain) (h : node.isScalar = false)
    {followed later : Nat} {v : Value} (hv : value doc depth path node followed = .ok (v, later)) :
    (∃ xs, v = .sequence xs) ∨ ∃ es, v = .mapping es := by
  unfold value at hv
  cases node with
  | «alias» => exact hplain.elim
  | scalar => simp [isScalar] at h
  | sequence p items =>
    have htag : p.tag = none := hplain.1
    left
    cases depth with
    | zero =>
      simp only [follow, Node.properties, bind_pure_comp, pure_bind, htag, Option.bind_none,
        id_map'] at hv
      cases hv
    | succ depth =>
      simp only [follow, Node.properties, bind_pure_comp, map_pure, pure_bind, htag,
        Option.bind_none] at hv
      exact exists_of_map hv
  | mapping p entries =>
    have htag : p.tag = none := hplain.1
    right
    cases depth with
    | zero =>
      simp only [follow, Node.properties, bind_pure_comp, pure_bind, htag, Option.bind_none,
        id_map'] at hv
      cases hv
    | succ depth =>
      simp only [follow, Node.properties, bind_pure_comp, map_pure, pure_bind, htag,
        Option.bind_none] at hv
      exact exists_of_map hv

theorem fails_scalar (hplain : node.IsPlain) (h : node.isScalar = false) :
    Fails (scalar doc depth outer path node) := by
  unfold scalar
  apply fails_bind
  intro followed v later hv
  rcases value_of_collection hplain h hv with ⟨xs, rfl⟩ | ⟨es, rfl⟩
  · exact fails_misfit _ _
  · exact fails_misfit _ _

end Scalar

section Fields

variable {σ : Type} {known : List String}
  {assign : String → Path → Node Nat → σ → Reading σ}
  {fits : String → Node Nat → Prop}
  {put : String → Node Nat → σ → σ}
  {merge : List (Node Nat × Node Nat) → σ → σ}

/-- Whether each known field occurs at most once, those seen before included, and fits. -/
def FieldsFit (known : List String) (fits : String → Node Nat → Prop) (seen : List String)
    (entries : List (Node Nat × Node Nat)) : Prop :=
  ∀ name ∈ known, (valuesOf name entries).length + (if name ∈ seen then 1 else 0) ≤ 1 ∧
    ∀ v ∈ valuesOf name entries, fits name v

variable {p : Properties Nat} {style : Style} {name : String} {v : Node Nat} {seen : List String}
  {entries rest : List (Node Nat × Node Nat)}

theorem fieldsFit_cons_known (hname : name ∈ known) :
    FieldsFit known fits seen ((.scalar p style name, v) :: rest) ↔
      name ∉ seen ∧ fits name v ∧ FieldsFit known fits (name :: seen) rest := by
  constructor
  · intro h
    have ⟨hlength, hfits⟩ := h name hname
    rw [valuesOf_cons, if_pos rfl] at hlength hfits
    rw [List.length_cons] at hlength
    have hseen : name ∉ seen := by
      intro hmem
      rw [if_pos hmem] at hlength
      omega
    refine ⟨hseen, hfits v List.mem_cons_self, fun other hother => ?_⟩
    have ⟨hcount, hall⟩ := h other hother
    rw [valuesOf_cons] at hcount hall
    by_cases heq : name = other
    · subst heq
      rw [if_pos List.mem_cons_self]
      exact ⟨by omega, fun w hw => hfits w (List.mem_cons_of_mem v hw)⟩
    · rw [if_neg heq] at hcount hall
      have hmem : other ∈ name :: seen ↔ other ∈ seen := by
        simp [List.mem_cons, Ne.symm heq]
      simp only [hmem]
      exact ⟨hcount, hall⟩
  · rintro ⟨hseen, hfit, h⟩ other hother
    have ⟨hcount, hall⟩ := h other hother
    rw [valuesOf_cons]
    by_cases heq : name = other
    · subst heq
      rw [if_pos List.mem_cons_self] at hcount
      rw [if_pos rfl, if_neg hseen, List.length_cons]
      refine ⟨by omega, fun w hw => ?_⟩
      rcases List.mem_cons.1 hw with rfl | hw
      · exact hfit
      · exact hall w hw
    · rw [if_neg heq]
      have hmem : other ∈ name :: seen ↔ other ∈ seen := by
        simp [List.mem_cons, Ne.symm heq]
      simp only [hmem] at hcount
      exact ⟨hcount, hall⟩

theorem fieldsFit_cons_unknown (hname : name ∉ known) :
    FieldsFit known fits seen ((.scalar p style name, v) :: rest) ↔
      FieldsFit known fits seen rest := by
  have hvalues : ∀ other ∈ known,
      valuesOf other ((.scalar p style name, v) :: rest) = valuesOf other rest := by
    intro other hother
    rw [valuesOf_cons, if_neg fun (heq : name = other) => hname (heq ▸ hother)]
  constructor
  · intro h other hother
    rw [← hvalues other hother]
    exact h other hother
  · intro h other hother
    rw [hvalues other hother]
    exact h other hother

/-- A reader of single fields: it gives the record with the field put into it, or it fails. -/
structure Assigns (known : List String) (assign : String → Path → Node Nat → σ → Reading σ)
    (fits : String → Node Nat → Prop) (put : String → Node Nat → σ → σ) : Prop where
  eq : ∀ name ∈ known, ∀ path v record, v.IsPlain → fits name v →
    assign name path v record = pure (put name v record)
  fails : ∀ name ∈ known, ∀ path v record, v.IsPlain → ¬ fits name v →
    Fails (assign name path v record)

/-- Putting in one field after the other comes to what `merge` makes of all entries at once. -/
structure Merges (names : List String) (put : String → Node Nat → σ → σ)
    (merge : List (Node Nat × Node Nat) → σ → σ) : Prop where
  nil : ∀ record, merge [] record = record
  known : ∀ p style name v rest record, name ∈ names → valuesOf name rest = [] →
    merge rest (put name v record) = merge ((.scalar p style name, v) :: rest) record
  unknown : ∀ p style name v rest record, name ∉ names →
    merge rest record = merge ((.scalar p style name, v) :: rest) record

theorem fields_eq (hassign : Assigns known assign fits put) (hmerge : Merges known put merge)
    (hplain : EntriesPlain entries) (hkeys : ∀ entry ∈ entries, entry.1.isScalar = true)
    (h : FieldsFit known fits seen entries) (record : σ) :
    fields doc known assign path seen record entries = pure (merge entries record) := by
  induction entries generalizing seen record with
  | nil =>
    rw [hmerge.nil]
    rfl
  | cons entry rest ih =>
    obtain ⟨k, v⟩ := entry
    obtain ⟨_, hv, hrest⟩ := hplain
    have hk : k.isScalar = true := hkeys _ List.mem_cons_self
    have hkeys' : ∀ entry ∈ rest, entry.1.isScalar = true :=
      fun entry hentry => hkeys entry (List.mem_cons_of_mem _ hentry)
    cases k with
    | scalar p style name =>
      rw [fields, text_eq _ hk, pure_bind, spelling]
      by_cases hname : name ∈ known
      · have ⟨hseen, hfit, hfits⟩ := (fieldsFit_cons_known hname).1 h
        have hnone : valuesOf name rest = [] := by
          have hlength := (hfits name hname).1
          rw [if_pos List.mem_cons_self] at hlength
          exact List.length_eq_zero_iff.1 (by omega)
        rw [if_pos (by simpa using hname), if_neg (by simpa using hseen),
          hassign.eq name hname _ _ _ hv hfit, pure_bind, ih hrest hkeys' hfits,
          hmerge.known p style name v rest record hname hnone]
      · rw [if_neg (by simpa using hname),
          ih hrest hkeys' ((fieldsFit_cons_unknown hname).1 h),
          hmerge.unknown p style name v rest record hname]
    | _ => simp [isScalar] at hk

theorem fails_fields (hassign : Assigns known assign fits put) (hplain : EntriesPlain entries)
    (h : (∀ entry ∈ entries, entry.1.isScalar = true) → ¬ FieldsFit known fits seen entries)
    (record : σ) : Fails (fields doc known assign path seen record entries) := by
  induction entries generalizing seen record with
  | nil =>
    have hfit : FieldsFit known fits seen [] := by
      intro name _
      rw [valuesOf_nil]
      exact ⟨by split <;> simp, by simp⟩
    exact (h (by simp) hfit).elim
  | cons entry rest ih =>
    obtain ⟨k, v⟩ := entry
    obtain ⟨hk, hv, hrest⟩ := hplain
    cases hscalar : k.isScalar with
    | false =>
      rw [fields]
      exact (fails_text _ hk hscalar).bind _
    | true =>
      have hkeys : (∀ entry ∈ rest, entry.1.isScalar = true) →
          ∀ entry ∈ (k, v) :: rest, entry.1.isScalar = true := by
        intro hall entry hentry
        rcases List.mem_cons.1 hentry with rfl | hentry
        · exact hscalar
        · exact hall entry hentry
      cases k with
      | scalar p style name =>
        rw [fields, text_eq _ hscalar, pure_bind, spelling]
        by_cases hname : name ∈ known
        · rw [if_pos (by simpa using hname)]
          by_cases hseen : name ∈ seen
          · rw [if_pos (by simpa using hseen)]
            exact fails_misfit _ _
          · rw [if_neg (by simpa using hseen)]
            by_cases hfit : fits name v
            · rw [hassign.eq name hname _ _ _ hv hfit, pure_bind]
              apply ih hrest
              intro hall hfits
              exact h (hkeys hall) ((fieldsFit_cons_known hname).2 ⟨hseen, hfit, hfits⟩)
            · exact (hassign.fails name hname _ _ _ hv hfit).bind _
        · rw [if_neg (by simpa using hname)]
          apply ih hrest
          intro hall hfits
          exact h (hkeys hall) ((fieldsFit_cons_unknown hname).2 hfits)
      | _ => simp [isScalar] at hscalar

end Fields

end Reading

end Conformance.Yaml
