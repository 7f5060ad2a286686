import Conformance.Yaml.Source

/-!
# Placing printable text

In printable text the line feed is the only break, and every character takes one octet. Its
characters are placed by a `Cursor` that each of them moves on, so that a text laid out in two
pieces is laid out as a whole (`Cursor.lay_append`).
-/

namespace Conformance.Yaml

/-- The line feed and the characters of ASCII that are no controls. -/
def isPrintable (c : Char) : Bool :=
  c == '\n' || (0x20 ≤ c.toNat && c.toNat ≤ 0x7E)

/-- What is asked of the characters of a text is tried on these alone, however many others there
are. -/
instance decidableForallMemText {P : Char → Prop} [DecidablePred P] (text : List Char) :
    Decidable (∀ c ∈ text, P c) :=
  List.decidableBAll P text

/-- The same characters one by one, for properties that can be tried on all of them. -/
def printables : List Char := '\n' :: (List.range' 0x20 0x5F).map Char.ofNat

theorem mem_printables {c : Char} (h : isPrintable c = true) : c ∈ printables := by
  simp only [isPrintable, Bool.or_eq_true, beq_iff_eq, Bool.and_eq_true, decide_eq_true_eq] at h
  rcases h with rfl | hrange
  · exact List.mem_cons_self
  · refine List.mem_cons_of_mem _ (List.mem_map.2 ⟨c.toNat, ?_, Char.ofNat_toNat c⟩)
    rw [List.mem_range'_1]
    omega

theorem isAllowed_of_isPrintable {c : Char} (h : isPrintable c = true) : isAllowed c = true := by
  have hall : ∀ c ∈ printables, isAllowed c = true := by decide
  exact hall c (mem_printables h)

/-- A place in a text. -/
structure Cursor where
  offset : Nat
  line : Nat
  column : Nat

namespace Cursor

def start : Cursor := ⟨0, 0, 0⟩

/-- The place behind a character of one octet. -/
def next (cursor : Cursor) (c : Char) : Cursor :=
  if c = '\n' then ⟨cursor.offset + 1, cursor.line + 1, 0⟩
  else ⟨cursor.offset + 1, cursor.line, cursor.column + 1⟩

def after (cursor : Cursor) (text : List Char) : Cursor := text.foldl next cursor

def put (cursor : Cursor) (c : Char) : Placed :=
  ⟨c, cursor.offset, cursor.line, cursor.column⟩

/-- The characters of a text from a place on. -/
def lay (cursor : Cursor) : List Char → List Placed
  | [] => []
  | c :: rest => cursor.put c :: lay (cursor.next c) rest

variable {cursor : Cursor}

@[simp] theorem char_put (c : Char) : (cursor.put c).char = c := rfl

@[simp] theorem column_put (c : Char) : (cursor.put c).column = cursor.column := rfl

@[simp] theorem length_lay (text : List Char) : (cursor.lay text).length = text.length := by
  induction text generalizing cursor with
  | nil => rfl
  | cons c rest ih => simp [lay, ih]

theorem lay_append (first second : List Char) :
    cursor.lay (first ++ second) = cursor.lay first ++ (cursor.after first).lay second := by
  induction first generalizing cursor with
  | nil => rfl
  | cons c rest ih => simp [lay, ih, after]

theorem next_of_ne {c : Char} (h : c ≠ '\n') :
    cursor.next c = ⟨cursor.offset + 1, cursor.line, cursor.column + 1⟩ := by
  simp [next, h]

theorem column_next {c : Char} (h : c ≠ '\n') : (cursor.next c).column ≠ 0 := by
  simp [next, h]

theorem after_of_not_mem {text : List Char} (h : '\n' ∉ text) :
    cursor.after text =
      ⟨cursor.offset + text.length, cursor.line, cursor.column + text.length⟩ := by
  induction text generalizing cursor with
  | nil => rfl
  | cons c rest ih =>
    have hc : c ≠ '\n' := fun heq => h (heq ▸ List.mem_cons_self)
    have hrest : '\n' ∉ rest := fun hmem => h (List.mem_cons_of_mem c hmem)
    have hstep : cursor.after (c :: rest) = (cursor.next c).after rest := rfl
    rw [hstep, ih hrest, next_of_ne hc]
    simp only [List.length_cons, mk.injEq, true_and]
    constructor <;> omega

end Cursor

theorem break_of_isPrintable {c : Char} (h : isPrintable c = true) :
    c.utf8Size = 1 ∧ c ≠ '\r' ∧ c ≠ '\u0085' ∧ (isBreak c = true ↔ c = '\n') := by
  have hall : ∀ c ∈ printables,
      c.utf8Size = 1 ∧ c ≠ '\r' ∧ c ≠ '\u0085' ∧ (isBreak c = true ↔ c = '\n') := by
    decide
  exact hall c (mem_printables h)

/-- Printable text stands where the cursor lays it. -/
theorem place_eq_lay {text : List Char} (h : ∀ c ∈ text, isPrintable c = true) (cursor : Cursor) :
    place cursor.offset cursor.line cursor.column text = cursor.lay text := by
  induction text generalizing cursor with
  | nil => rfl
  | cons c rest ih =>
    have hrest := ih (fun d hd => h d (List.mem_cons_of_mem c hd)) (cursor.next c)
    obtain ⟨hsize, hreturn, hnext, hbreak⟩ := break_of_isPrintable (h c List.mem_cons_self)
    have hplace : place cursor.offset cursor.line cursor.column (c :: rest) =
        if isBreak c = true then
          cursor.put c :: place (cursor.offset + 1) (cursor.line + 1) 0 rest
        else cursor.put c :: place (cursor.offset + 1) cursor.line (cursor.column + 1) rest := by
      rw [place]
      · simp [hreturn, hnext, hsize, Cursor.put]
      · exact fun _ heq _ => hreturn heq
    rw [hplace, Cursor.lay, ← hrest]
    by_cases hfeed : c = '\n'
    · rw [if_pos (hbreak.2 hfeed), Cursor.next, if_pos hfeed]
    · rw [if_neg (mt hbreak.1 hfeed), Cursor.next_of_ne hfeed]

end Conformance.Yaml
