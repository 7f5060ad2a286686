import Conformance.Proofs.Spelling

/-!
# Following the lexer through JSON text

`Lexer.Before` says what the lexer has read and what it stands before, up to what does not matter
inside brackets. Each token takes one step (`Lexer.Leads`), each value as many as it has tokens,
and so `tokens_pretty`: the tokens of printed JSON are `Json.tokens`.
-/

namespace Conformance.Yaml

namespace Lexer

open Json

/-! ### Gaps -/

/-- Whether a text consists of blanks and line feeds. -/
def IsGap (text : List Placed) : Prop := ∀ p ∈ text, p.char = ' ' ∨ p.char = '\n'

theorem IsGap.append {first second : List Placed} (hfirst : IsGap first) (hsecond : IsGap second) :
    IsGap (first ++ second) := by
  intro p hp
  rcases List.mem_append.1 hp with hp | hp
  · exact hfirst p hp
  · exact hsecond p hp

theorem isGap_lay {text : List Char} (h : ∀ c ∈ text, c = ' ' ∨ c = '\n') (cursor : Cursor) :
    IsGap (cursor.lay text) := by
  induction text generalizing cursor with
  | nil => exact nofun
  | cons c rest ih =>
    have hrest := ih (fun d hd => h d (List.mem_cons_of_mem c hd)) (cursor.next c)
    intro p hp
    rcases List.mem_cons.1 hp with rfl | hp
    · exact h c List.mem_cons_self
    · exact hrest p hp

theorem isGap_newLine (level : Nat) (cursor : Cursor) : IsGap (cursor.lay (newLine level)) := by
  apply isGap_lay
  intro c hc
  rcases List.mem_cons.1 hc with rfl | hc
  · exact .inr rfl
  · exact .inl (List.eq_of_mem_replicate hc)

/-- The characters with which tokens of JSON text begin. -/
def marks : List Char := ['\x7b', '\x7d', '[', ']', ',', ':', '\x22', 'n']

variable {p : Placed} {gap rest : List Placed}

theorem skipGap_append (hgap : IsGap gap) (text : List Placed) (flow allowed : Bool) :
    ∃ k, (flow = true → k = allowed) ∧
      skipGap flow allowed false (gap ++ text) = skipGap flow k false text := by
  induction gap generalizing allowed with
  | nil => exact ⟨allowed, fun _ => rfl, rfl⟩
  | cons q gap ih =>
    have hrest : IsGap gap := fun r hr => hgap r (List.mem_cons_of_mem q hr)
    rcases hgap q List.mem_cons_self with hq | hq
    · obtain ⟨k, hk, hskip⟩ := ih hrest allowed
      refine ⟨k, hk, ?_⟩
      rw [← hskip]
      simp [skipGap, Placed.isLineMark, hq, isBreak]
    · obtain ⟨k, hk, hskip⟩ := ih hrest (allowed || !flow)
      refine ⟨k, fun hflow => by simpa [hflow] using hk hflow, ?_⟩
      rw [← hskip]
      simp [skipGap, hq, isBreak]

theorem skipGap_mark (hp : p.char ∈ marks) (rest : List Placed) (flow allowed : Bool) :
    skipGap flow allowed false (p :: rest) = (allowed, p :: rest) := by
  have hall : ∀ c ∈ marks, isBreak c = false ∧ c ≠ '\uFEFF' ∧ c ≠ ' ' ∧ c ≠ '\t' ∧ c ≠ '#' := by
    decide
  have hchar := hall p.char hp
  simp [skipGap, Placed.isLineMark, hchar]

/-! ### Where the lexer stands -/

/-- Whether a possible key may be given up. -/
def Idle (key : Option PendingKey) : Prop := ∀ k ∈ key, k.required = false

theorem idle_none : Idle none := nofun

theorem Idle.forget {key : Option PendingKey} (h : Idle key) : forget key = .ok none := by
  cases key with
  | none => rfl
  | some k => simp [Lexer.forget, h k rfl]

theorem Idle.expire {key : Option PendingKey} (h : Idle key) (p : Placed) :
    ∃ later, expire p key = .ok later ∧ Idle later := by
  cases key with
  | none => exact ⟨none, rfl, idle_none⟩
  | some k =>
    by_cases hold : k.at_.line < p.line ∨ k.at_.offset + 1024 < p.offset
    · exact ⟨none, by rw [Lexer.expire, if_pos hold, h.forget], idle_none⟩
    · exact ⟨some k, by rw [Lexer.expire, if_neg hold], h⟩

/-- Where the lexer stands: the tokens so far, the last one first, the possible keys around it,
and the text that it stands before, perhaps behind a gap. -/
structure Before (ts : List Token) (around : List (Option PendingKey)) (text : List Placed)
    (l : Lexer) : Prop where
  tokens : l.tokens = ts
  count : l.count = ts.length
  indents : l.indents = []
  outer : l.outer = around
  idle : Idle l.pending
  idle_around : ∀ key ∈ around, Idle key
  rest : ∃ gap, IsGap gap ∧ l.rest = gap ++ text

/-- Whether a run of the lexer comes from one state to another, with no more tokens in between
than characters. -/
def Leads (l later : Lexer) : Prop :=
  ∃ n, n + later.rest.length ≤ l.rest.length ∧ ∀ fuel, run (fuel + n) l = run fuel later

theorem Leads.trans {l m later : Lexer} (hfirst : Leads l m) (hsecond : Leads m later) :
    Leads l later := by
  obtain ⟨n, hn, hrun⟩ := hfirst
  obtain ⟨k, hk, hrun'⟩ := hsecond
  refine ⟨k + n, by omega, fun fuel => ?_⟩
  rw [← Nat.add_assoc, hrun, hrun']

variable {ts : List Token} {around : List (Option PendingKey)} {l : Lexer}

theorem Before.skip (h : Before ts around (gap ++ rest) l) (hgap : IsGap gap) :
    Before ts around rest l := by
  obtain ⟨front, hfront, hrest⟩ := h.rest
  exact { h with rest := ⟨front ++ gap, hfront.append hgap, by rw [hrest, List.append_assoc]⟩ }

theorem Before.inFlow (h : Before ts around rest l) (haround : around ≠ []) : l.inFlow = true := by
  simp [Lexer.inFlow, h.outer, haround]

theorem endBlocks_eq (h : l.indents = []) (leaves : Nat → Bool) : l.endBlocks leaves = l := by
  unfold endBlocks
  split
  · rfl
  · cases l
    cases h
    rfl

/-- The state in which the token is read that the lexer stands before: its gap is passed and its
possible key, if it is too old, given up. -/
theorem Before.exists_ready (h : Before ts around (p :: rest) l) (hp : p.char ∈ marks) :
    ∃ m, Before ts around (p :: rest) m ∧ m.rest = p :: rest ∧
      expire p l.pending = .ok m.pending ∧ (around ≠ [] → m.keyAllowed = l.keyAllowed) ∧
      ∀ later, m.token p rest = .ok later → later.rest.length ≤ rest.length → Leads l later := by
  obtain ⟨gap, hgap, hrest⟩ := h.rest
  obtain ⟨allowed, hallowed, hskip⟩ := skipGap_append hgap (p :: rest) l.inFlow l.keyAllowed
  rw [skipGap_mark hp] at hskip
  obtain ⟨pending, hexpire, hidle⟩ := h.idle.expire p
  have hnext : l.toNextToken = { l with keyAllowed := allowed, rest := p :: rest } := by
    simp [toNextToken, hrest, hskip]
  let m : Lexer := { l with pending, keyAllowed := allowed, rest := p :: rest }
  have hm : Before ts around (p :: rest) m := { h with idle := hidle, rest := ⟨[], nofun, rfl⟩ }
  have hrun : ∀ fuel, run (fuel + 1) l =
      (m.endBlocks fun indent => p.column < indent).token p rest >>= run fuel := by
    intro fuel
    simp only [run, hnext, expireKey, hexpire]
    rfl
  refine ⟨m, hm, rfl, hexpire, fun haround => hallowed (h.inFlow haround), ?_⟩
  intro later htoken hlength
  refine ⟨1, ?_, fun fuel => ?_⟩
  · rw [hrest, List.length_append, List.length_cons]
    omega
  · rw [hrun, endBlocks_eq hm.indents, htoken]
    rfl

/-! ### One token -/

theorem not_boundary (hp : p.char ∈ marks) (rest : List Placed) :
    (p.char == '%') = false ∧ atDocumentMark (p :: rest) = false := by
  have hall : ∀ c ∈ marks, (c == '%') = false ∧ c ≠ '-' ∧ c ≠ '.' := by decide
  obtain ⟨hpercent, hdocument⟩ := hall p.char hp
  exact ⟨hpercent, atDocumentMark_of_char hdocument rest⟩

theorem Before.exists_saved (h : Before ts around rest l) (p : Placed) :
    ∃ key, Idle key ∧ (l.keyAllowed = true → key = some ⟨ts.length, false, p⟩) ∧
      l.saveKey p = .ok { l with pending := key } := by
  by_cases hallowed : l.keyAllowed = true
  · refine ⟨some ⟨ts.length, false, p⟩, ?_, fun _ => rfl, ?_⟩
    · rintro k ⟨⟩
      rfl
    · simp [saveKey, hallowed, forgetKey, h.idle.forget, h.indents, h.count, Bind.bind, Except.bind,
        pure, Except.pure]
  · exact ⟨l.pending, h.idle, fun h => (hallowed h).elim, if_neg hallowed⟩

theorem Before.emitted {text : List Placed} (h : Before ts around text l) (token : Token)
    {later : Lexer} {inside : List (Option PendingKey)} (htokens : later.tokens = token :: l.tokens)
    (hcount : later.count = l.count + 1) (hindents : later.indents = l.indents)
    (houter : later.outer = inside) (hidle : Idle later.pending)
    (hinside : ∀ key ∈ inside, Idle key) (hrest : later.rest = rest) :
    Before (token :: ts) inside rest later where
  tokens := by rw [htokens, h.tokens]
  count := by rw [hcount, h.count, List.length_cons]
  indents := by rw [hindents, h.indents]
  outer := houter
  idle := hidle
  idle_around := hinside
  rest := ⟨[], nofun, hrest⟩

theorem Before.opens (h : Before ts around (p :: rest) l) {token : Token}
    (hp : p.char = '[' ∧ token = .flowSequenceStart ∨
      p.char = '\x7b' ∧ token = .flowMappingStart) :
    ∃ key later, Leads l later ∧ Before (token :: ts) (key :: around) rest later ∧
      later.keyAllowed = true := by
  have hmark : p.char ∈ marks := by
    rcases hp with ⟨hp, _⟩ | ⟨hp, _⟩ <;> simp [hp, marks]
  obtain ⟨m, hm, _, _, _, hleads⟩ := h.exists_ready hmark
  obtain ⟨key, hkey, _, hsave⟩ := hm.exists_saved p
  let later : Lexer := { m.emit token with
    pending := none, outer := key :: m.outer, keyAllowed := true, rest }
  have htoken : m.token p rest = .ok later := by
    have hflow : m.token p rest = m.flowStart token p rest := by
      rcases hp with ⟨hp, rfl⟩ | ⟨hp, rfl⟩ <;> simp [Lexer.token, not_boundary hmark rest, hp]
    rw [hflow, flowStart, hsave]
    rfl
  refine ⟨key, later, hleads later htoken (Nat.le_refl _), ?_, rfl⟩
  exact hm.emitted token rfl rfl rfl (congrArg (key :: ·) hm.outer) idle_none
    (List.forall_mem_cons.2 ⟨hkey, h.idle_around⟩) rfl

theorem Before.closes {key : Option PendingKey} (h : Before ts (key :: around) (p :: rest) l)
    {token : Token} (hp : p.char = ']' ∧ token = .flowSequenceEnd ∨
      p.char = '\x7d' ∧ token = .flowMappingEnd) :
    ∃ later, Leads l later ∧ Before (token :: ts) around rest later := by
  have hmark : p.char ∈ marks := by
    rcases hp with ⟨hp, _⟩ | ⟨hp, _⟩ <;> simp [hp, marks]
  obtain ⟨m, hm, _, _, _, hleads⟩ := h.exists_ready hmark
  let later : Lexer := { m.emit token with
    pending := key, outer := around, keyAllowed := false, rest }
  have htoken : m.token p rest = .ok later := by
    have hflow : m.token p rest = m.flowEnd token rest := by
      rcases hp with ⟨hp, rfl⟩ | ⟨hp, rfl⟩ <;> simp [Lexer.token, not_boundary hmark rest, hp]
    rw [hflow, flowEnd, forgetKey, hm.idle.forget]
    simp only [Bind.bind, Except.bind, pure, Except.pure, hm.outer]
    rfl
  have ⟨hkey, haround⟩ := List.forall_mem_cons.1 h.idle_around
  exact ⟨later, hleads later htoken (Nat.le_refl _),
    hm.emitted token rfl rfl rfl rfl hkey haround rfl⟩

theorem Before.comma {key : Option PendingKey} (h : Before ts (key :: around) (p :: rest) l)
    (hp : p.char = ',') :
    ∃ later, Leads l later ∧ Before (.flowEntry :: ts) (key :: around) rest later ∧
      later.keyAllowed = true := by
  have hmark : p.char ∈ marks := by simp [hp, marks]
  obtain ⟨m, hm, _, _, _, hleads⟩ := h.exists_ready hmark
  let later : Lexer := { m.emit .flowEntry with pending := none, keyAllowed := true, rest }
  have htoken : m.token p rest = .ok later := by
    have hflow : m.token p rest = m.flowEntry rest := by
      simp [Lexer.token, not_boundary hmark rest, hp]
    rw [hflow, Lexer.flowEntry, forgetKey, hm.idle.forget]
    rfl
  exact ⟨later, hleads later htoken (Nat.le_refl _),
    hm.emitted .flowEntry rfl rfl rfl hm.outer idle_none h.idle_around rfl, rfl⟩

/-- A text in quotes may be a key, in which case it is remembered as one. -/
theorem Before.text {cursor : Cursor} {s : String}
    (h : Before ts around (cursor.lay (stringText s) ++ rest) l)
    (hs : ∀ c ∈ s.toList, isPrintable c = true) :
    ∃ later, Leads l later ∧ Before (.scalar .quoted s :: ts) around rest later ∧
      (around ≠ [] → l.keyAllowed = true →
        later.pending = some ⟨ts.length, false, cursor.put '\x22'⟩) := by
  have hmark : (cursor.put '\x22').char ∈ marks := by simp [marks]
  obtain ⟨m, hm, _, _, hkeep, hleads⟩ := h.exists_ready hmark
  obtain ⟨key, hkey, hsaved, hsave⟩ := hm.exists_saved (cursor.put '\x22')
  let behind := (cursor.next '\x22').lay (s.toList.flatMap escapeChar ++ ['\x22']) ++ rest
  let later : Lexer := { m.emit (.scalar .quoted s) with
    pending := key, keyAllowed := false, rest }
  have htoken : m.token (cursor.put '\x22') behind = .ok later := by
    have hcolumn : (cursor.next '\x22').column ≠ 0 := Cursor.column_next (by decide)
    have hflow : m.token (cursor.put '\x22') behind =
        m.content (cursor.put '\x22') (quotedScalar false behind) := by
      simp [Lexer.token, not_boundary hmark behind]
    have hread : Quoted.read false behind = .ok (s.toList, rest) :=
      Quoted.read_escaped hs hcolumn
    rw [hflow, content, hsave, quotedScalar, hread]
    simp only [Bind.bind, Except.bind, pure, Except.pure, String.ofList_toList]
    rfl
  have hlength : later.rest.length ≤ behind.length := by
    simp [later, behind]
  refine ⟨later, hleads later htoken hlength, ?_, fun haround hallowed => ?_⟩
  · exact hm.emitted (.scalar .quoted s) rfl rfl rfl hm.outer hkey h.idle_around rfl
  · exact hsaved ((hkeep haround).trans hallowed)

theorem beginBlock_eq (h : l.inFlow = true) (column place : Nat) (token : Token) :
    l.beginBlock column place token = l := by
  simp [beginBlock, h]

/-- A colon close enough behind a text makes it a key, whose mark is put in front of it. -/
theorem Before.colon {key : Option PendingKey} {token : Token} {q : Placed}
    (h : Before (token :: ts) (key :: around) (p :: rest) l) (hp : p.char = ':')
    (hpending : l.pending = some ⟨ts.length, false, q⟩) (hline : p.line ≤ q.line)
    (hoffset : p.offset ≤ q.offset + 1024) :
    ∃ later, Leads l later ∧ Before (.value :: token :: .key :: ts) (key :: around) rest later := by
  have hmark : p.char ∈ marks := by simp [hp, marks]
  obtain ⟨m, hm, _, hexpire, _, hleads⟩ := h.exists_ready hmark
  have hyoung : ¬ (q.line < p.line ∨ q.offset + 1024 < p.offset) := by omega
  have hkept : m.pending = some ⟨ts.length, false, q⟩ := by
    rw [hpending, expire, if_neg hyoung] at hexpire
    exact (Except.ok.inj hexpire).symm
  -- the text is the only token behind the place where the key began
  let marked : Lexer := { m with tokens := token :: .key :: ts, count := m.count + 1 }
  have hmarked : m.emitAt ts.length .key = marked := by
    simp [marked, emitAt, hm.tokens, hm.count]
  have hinside : marked.inFlow = true := hm.inFlow (List.cons_ne_nil _ _)
  let later : Lexer := { marked.emit .value with pending := none, keyAllowed := false, rest }
  have htoken : m.token p rest = .ok later := by
    have hflow : m.token p rest = m.value p rest := by
      simp [Lexer.token, not_boundary hmark rest, hp, hm.inFlow]
    rw [hflow, value, hkept]
    simp only [hmarked, beginBlock_eq hinside]
    rfl
  refine ⟨later, hleads later htoken (Nat.le_refl _), ?_⟩
  have hbefore : Before (token :: .key :: ts) (key :: around) (p :: rest) marked :=
    { hm with tokens := rfl, count := congrArg (· + 1) hm.count }
  exact hbefore.emitted .value rfl rfl rfl hm.outer idle_none h.idle_around rfl

/-! ### Null -/

/-- Whether a character goes into a plain scalar wherever it stands. -/
def isLetter (c : Char) : Bool :=
  !isBlank c && !isBreak c && c != ':' && !Plain.isFlowIndicator c

theorem scan_letters {word : List Char} (h : ∀ c ∈ word, isLetter c = true) (cursor : Cursor)
    (rest : List Placed) (margin : Nat) (seen : List Char) :
    Plain.scan true margin seen false .none (cursor.lay word ++ rest) =
      Plain.scan true margin (word.reverse ++ seen) false .none rest := by
  induction word generalizing cursor seen with
  | nil => rfl
  | cons c word ih =>
    have hword : ∀ d ∈ word, isLetter d = true := fun d hd => h d (List.mem_cons_of_mem c hd)
    have hc : isBlank c = false ∧ isBreak c = false ∧ c ≠ ':' ∧
        Plain.isFlowIndicator c = false := by
      simpa [isLetter, and_assoc] using h c List.mem_cons_self
    have hmore : ∀ after, Plain.atColonIndicator (cursor.put c :: after) = false := by
      intro after
      cases after with
      | nil => rfl
      | cons q after => simp [Plain.atColonIndicator, hc]
    have hstep : ∀ after, Plain.scan true margin seen false .none (cursor.put c :: after) =
        Plain.scan true margin (c :: seen) false .none after := by
      intro after
      rw [Plain.scan]
      simp [hc, hmore, Plain.ends, Gap.none, Gap.text]
    rw [Cursor.lay, List.cons_append, hstep, ih hword, List.reverse_cons, List.append_assoc]
    rfl

/-- Behind its last letter a plain scalar passes a gap up to the indicator that ends it. -/
theorem scan_gap (hgap : IsGap gap) (hp : p.char ∈ [',', ']', '\x7d']) (rest : List Placed)
    (margin : Nat) (seen : List Char) (inGap : Bool) (passed : Gap) :
    ∃ broken, Plain.scan true margin seen inGap passed (gap ++ p :: rest) =
      .ok ⟨seen.reverse, broken, p :: rest⟩ := by
  induction gap generalizing inGap passed with
  | nil =>
    have hall : ∀ c ∈ [',', ']', '\x7d'], isBlank c = false ∧ isBreak c = false ∧ c ≠ ':' ∧
        c ≠ '#' ∧ c ≠ '-' ∧ c ≠ '.' ∧ Plain.isFlowIndicator c = true := by decide
    obtain ⟨hblank, hbreak, hcolon, hcomment, hdash, hdot, hindicator⟩ := hall p.char hp
    have hmore : Plain.atColonIndicator (p :: rest) = false := by
      cases rest with
      | nil => rfl
      | cons q rest => simp [Plain.atColonIndicator, hcolon]
    have hdocument := atDocumentMark_of_char ⟨hdash, hdot⟩ rest
    refine ⟨passed.hasBreak, ?_⟩
    rw [List.nil_append, Plain.scan]
    simp [hblank, hbreak, hcomment, hmore, hdocument, hindicator, Plain.endsAfterGap, Plain.ends]
  | cons q gap ih =>
    have hrest : IsGap gap := fun r hr => hgap r (List.mem_cons_of_mem q hr)
    rcases hgap q List.mem_cons_self with hq | hq
    · obtain ⟨broken, hscan⟩ := ih hrest true (passed.addBlank ' ')
      refine ⟨broken, ?_⟩
      rw [← hscan, List.cons_append, Plain.scan]
      simp [hq, isBlank]
    · obtain ⟨broken, hscan⟩ := ih hrest true (passed.addBreak '\n')
      refine ⟨broken, ?_⟩
      rw [← hscan, List.cons_append, Plain.scan]
      simp [hq, isBlank, isBreak]

theorem read_null (hgap : IsGap gap) (hp : p.char ∈ [',', ']', '\x7d']) (cursor : Cursor)
    (rest : List Placed) (margin : Nat) :
    ∃ broken, Plain.read true margin (cursor.lay "null".toList ++ (gap ++ p :: rest)) =
      .ok ⟨"null".toList, broken, p :: rest⟩ := by
  have hletters : ∀ c ∈ "null".toList, isLetter c = true := by decide
  obtain ⟨broken, hscan⟩ := scan_gap hgap hp rest margin ("null".toList.reverse ++ []) false .none
  refine ⟨broken, ?_⟩
  rw [Plain.read, scan_letters hletters, hscan, List.append_nil, List.reverse_reverse]

theorem Before.null {cursor : Cursor} (hgap : IsGap gap) (hp : p.char ∈ [',', ']', '\x7d'])
    (h : Before ts around (cursor.lay "null".toList ++ (gap ++ p :: rest)) l)
    (haround : around ≠ []) :
    ∃ later, Leads l later ∧
      Before (.scalar .plain (String.ofList "null".toList) :: ts) around (p :: rest) later := by
  have hmark : (cursor.put 'n').char ∈ marks := by simp [marks]
  let behind := (cursor.next 'n').lay ['u', 'l', 'l'] ++ (gap ++ p :: rest)
  have hbehind : cursor.lay "null".toList ++ (gap ++ p :: rest) = cursor.put 'n' :: behind := rfl
  rw [hbehind] at h
  obtain ⟨m, hm, hrest, _, _, hleads⟩ := h.exists_ready hmark
  obtain ⟨key, hkey, _, hsave⟩ := hm.exists_saved (cursor.put 'n')
  obtain ⟨broken, hread⟩ := read_null hgap hp cursor rest m.margin
  let later : Lexer := { m.emit (.scalar .plain (String.ofList "null".toList)) with
    pending := key, keyAllowed := broken, rest := p :: rest }
  have htoken : m.token (cursor.put 'n') behind = .ok later := by
    have hflow : m.token (cursor.put 'n') behind = m.plainScalar (cursor.put 'n') := by
      simp [Lexer.token, not_boundary hmark behind, startsPlain, isBlank, isBreak]
    have hscanned : Plain.read m.inFlow m.margin m.rest =
        .ok ⟨"null".toList, broken, p :: rest⟩ := by
      rw [hm.inFlow haround, hrest, ← hbehind, hread]
    rw [hflow, plainScalar, hsave]
    change (Plain.read m.inFlow m.margin m.rest >>= _) = _
    rw [hscanned]
    rfl
  have hlength : later.rest.length ≤ behind.length := by
    have hshort : (p :: rest).length ≤ (gap ++ p :: rest).length := by simp
    exact Nat.le_trans hshort (by simp [behind])
  refine ⟨later, hleads later htoken hlength, ?_⟩
  exact hm.emitted (.scalar .plain (String.ofList "null".toList)) rfl rfl rfl hm.outer hkey
    h.idle_around rfl

/-! ### Values -/

/-- Whether the lexer passes the text of a value inside brackets, up to the mark behind it. -/
def ValuePasses (value : Json) : Prop :=
  ∀ ⦃level : Nat⦄ ⦃cursor : Cursor⦄ ⦃ts : List Token⦄ ⦃around : List (Option PendingKey)⦄
    ⦃gap rest : List Placed⦄ ⦃p : Placed⦄ ⦃l : Lexer⦄, around ≠ [] → IsGap gap →
    p.char ∈ [',', ']', '\x7d'] →
    Before ts around (cursor.lay (prettyText level value) ++ (gap ++ p :: rest)) l →
    ∃ later, Leads l later ∧ Before (value.tokens.reverse ++ ts) around (p :: rest) later

/-- The same for the items of a list, its closing bracket included. -/
def ItemsPass (items : List Json) : Prop :=
  ∀ ⦃level : Nat⦄ ⦃cursor : Cursor⦄ ⦃ts : List Token⦄ ⦃key : Option PendingKey⦄
    ⦃around : List (Option PendingKey)⦄ ⦃rest : List Placed⦄ ⦃l : Lexer⦄, items ≠ [] →
    Before ts (key :: around)
      (cursor.lay (prettyItems (level + 1) items ++ (newLine level ++ [']'])) ++ rest) l →
    ∃ later, Leads l later ∧
      Before (.flowSequenceEnd :: ((itemTokens items).reverse ++ ts)) around rest later

/-- The same for the fields of an object, where a key is allowed. -/
def FieldsPass (fields : List (String × Json)) : Prop :=
  ∀ ⦃level : Nat⦄ ⦃cursor : Cursor⦄ ⦃ts : List Token⦄ ⦃key : Option PendingKey⦄
    ⦃around : List (Option PendingKey)⦄ ⦃rest : List Placed⦄ ⦃l : Lexer⦄, fields ≠ [] →
    Before ts (key :: around)
      (cursor.lay (prettyFields (level + 1) fields ++ (newLine level ++ ['\x7d'])) ++ rest) l →
    l.keyAllowed = true →
    ∃ later, Leads l later ∧
      Before (.flowMappingEnd :: ((fieldTokens fields).reverse ++ ts)) around rest later

variable {level : Nat} {cursor : Cursor}

theorem Before.array {items : List Json} (hitems : ItemsPass items)
    (h : Before ts around (cursor.lay (prettyText level (.array items)) ++ rest) l) :
    ∃ later, Leads l later ∧
      Before ((Json.array items).tokens.reverse ++ ts) around rest later := by
  cases items with
  | nil =>
    rw [prettyText_array_nil] at h
    obtain ⟨key, m, hopen, hm, _⟩ := h.opens (.inl ⟨rfl, rfl⟩)
    obtain ⟨later, hclose, hlater⟩ := hm.closes (.inl ⟨rfl, rfl⟩)
    exact ⟨later, hopen.trans hclose, hlater⟩
  | cons x items =>
    rw [prettyText_array_cons, List.append_assoc] at h
    obtain ⟨key, m, hopen, hm, _⟩ := h.opens (.inl ⟨rfl, rfl⟩)
    obtain ⟨later, hpass, hlater⟩ := hitems (List.cons_ne_nil x items) hm
    refine ⟨later, hopen.trans hpass, ?_⟩
    simpa [Json.tokens] using hlater

theorem Before.object {fields : List (String × Json)} (hfields : FieldsPass fields)
    (h : Before ts around (cursor.lay (prettyText level (.object fields)) ++ rest) l) :
    ∃ later, Leads l later ∧
      Before ((Json.object fields).tokens.reverse ++ ts) around rest later := by
  cases fields with
  | nil =>
    rw [prettyText_object_nil] at h
    obtain ⟨key, m, hopen, hm, _⟩ := h.opens (.inr ⟨rfl, rfl⟩)
    obtain ⟨later, hclose, hlater⟩ := hm.closes (.inr ⟨rfl, rfl⟩)
    exact ⟨later, hopen.trans hclose, hlater⟩
  | cons field fields =>
    rw [prettyText_object_cons, List.append_assoc] at h
    obtain ⟨key, m, hopen, hm, hallowed⟩ := h.opens (.inr ⟨rfl, rfl⟩)
    obtain ⟨later, hpass, hlater⟩ := hfields (List.cons_ne_nil field fields) hm hallowed
    refine ⟨later, hopen.trans hpass, ?_⟩
    simpa [Json.tokens] using hlater

theorem Before.field {name : String} {key : Option PendingKey} {text : List Char}
    (h : Before ts (key :: around)
      (cursor.lay (newLine level ++ (stringText name ++ ':' :: ' ' :: text)) ++ rest) l)
    (hname : ∀ c ∈ name.toList, isPrintable c = true) (hlength : (stringText name).length ≤ 1024)
    (hallowed : l.keyAllowed = true) :
    ∃ place later, Leads l later ∧
      Before (.value :: .scalar .quoted name :: .key :: ts) (key :: around)
        (Cursor.lay place text ++ rest) later := by
  let start := cursor.after (newLine level)
  let stop := start.after (stringText name)
  have hfeed : '\n' ∉ stringText name := fun hmem => (isPrintable_stringText hname _ hmem).2 rfl
  have hstop : stop = ⟨start.offset + (stringText name).length, start.line,
      start.column + (stringText name).length⟩ := Cursor.after_of_not_mem hfeed
  rw [Cursor.lay_append, List.append_assoc] at h
  have hstart := h.skip (isGap_newLine level cursor)
  rw [Cursor.lay_append, List.append_assoc] at hstart
  obtain ⟨m, hm, hmtext, hmpending⟩ := hstart.text hname
  have hpending := hmpending (List.cons_ne_nil _ _) hallowed
  have hoffset : (stop.put ':').offset ≤ (start.put '\x22').offset + 1024 := by
    rw [hstop]
    exact Nat.add_le_add_left hlength start.offset
  have hline : (stop.put ':').line ≤ (start.put '\x22').line := by
    rw [hstop]
    exact Nat.le_refl _
  obtain ⟨later, hcolon, hlater⟩ := hmtext.colon rfl hpending hline hoffset
  have hblank : IsGap [(stop.next ':').put ' '] := by
    intro q hq
    rw [List.mem_singleton.1 hq]
    exact .inl rfl
  have hbehind : Before _ (key :: around) ([(stop.next ':').put ' '] ++
      (((stop.next ':').next ' ').lay text ++ rest)) later := hlater
  exact ⟨(stop.next ':').next ' ', later, hm.trans hcolon, hbehind.skip hblank⟩

mutual

theorem value_passes : ∀ {value : Json}, value.Textual → ValuePasses value
  | .null, _ => by
    intro level cursor ts around gap rest p l haround hgap hp h
    exact h.null hgap hp haround
  | .string s, htextual => by
    intro level cursor ts around gap rest p l _ hgap _ h
    obtain ⟨later, hleads, hlater, _⟩ := h.text htextual
    exact ⟨later, hleads, hlater.skip hgap⟩
  | .array items, htextual => by
    intro level cursor ts around gap rest p l _ hgap _ h
    obtain ⟨later, hleads, hlater⟩ := h.array (items_pass htextual)
    exact ⟨later, hleads, hlater.skip hgap⟩
  | .object fields, htextual => by
    intro level cursor ts around gap rest p l _ hgap _ h
    obtain ⟨later, hleads, hlater⟩ := h.object (fields_pass htextual)
    exact ⟨later, hleads, hlater.skip hgap⟩

theorem items_pass : ∀ {items : List Json}, ItemsTextual items → ItemsPass items
  | [], _ => fun _ _ _ _ _ _ _ h => (h rfl).elim
  | [x], htextual => by
    intro level cursor ts key around rest l _ h
    have htext : prettyItems (level + 1) [x] ++ (newLine level ++ [']']) =
        newLine (level + 1) ++ (prettyText (level + 1) x ++ (newLine level ++ [']'])) := by
      simp [prettyItems]
    -- the last item stands before a line of its own for the bracket
    rw [htext, Cursor.lay_append, List.append_assoc] at h
    have hx := h.skip (isGap_newLine (level + 1) cursor)
    rw [Cursor.lay_append, List.append_assoc, Cursor.lay_append, List.append_assoc] at hx
    obtain ⟨m, hpass, hm⟩ := value_passes htextual.1 (List.cons_ne_nil key around)
      (isGap_newLine level _) (by simp) hx
    obtain ⟨later, hclose, hlater⟩ := hm.closes (.inl ⟨rfl, rfl⟩)
    exact ⟨later, hpass.trans hclose, hlater⟩
  | x :: y :: items, htextual => by
    intro level cursor ts key around rest l _ h
    have htext : prettyItems (level + 1) (x :: y :: items) ++ (newLine level ++ [']']) =
        newLine (level + 1) ++ (prettyText (level + 1) x ++
          (',' :: (prettyItems (level + 1) (y :: items) ++ (newLine level ++ [']'])))) := by
      simp [prettyItems]
    rw [htext, Cursor.lay_append, List.append_assoc] at h
    have hx := h.skip (isGap_newLine (level + 1) cursor)
    rw [Cursor.lay_append, List.append_assoc] at hx
    obtain ⟨m, hpass, hm⟩ := value_passes htextual.1 (List.cons_ne_nil key around)
      (nofun : IsGap []) (by simp) hx
    obtain ⟨k, hcomma, hk, _⟩ := hm.comma rfl
    obtain ⟨later, hrest, hlater⟩ := items_pass htextual.2 (List.cons_ne_nil y items) hk
    refine ⟨later, hpass.trans (hcomma.trans hrest), ?_⟩
    simpa [itemTokens] using hlater

theorem fields_pass : ∀ {fields : List (String × Json)}, FieldsTextual fields → FieldsPass fields
  | [], _ => fun _ _ _ _ _ _ _ h => (h rfl).elim
  | [(name, x)], htextual => by
    intro level cursor ts key around rest l _ h hallowed
    have htext : prettyFields (level + 1) [(name, x)] ++ (newLine level ++ ['\x7d']) =
        newLine (level + 1) ++ (stringText name ++ ':' :: ' ' ::
          (prettyText (level + 1) x ++ (newLine level ++ ['\x7d']))) := by
      simp [prettyFields]
    rw [htext] at h
    obtain ⟨place, m, hkey, hm⟩ := h.field htextual.1.1 htextual.1.2 hallowed
    rw [Cursor.lay_append, List.append_assoc, Cursor.lay_append, List.append_assoc] at hm
    obtain ⟨k, hpass, hk⟩ := value_passes htextual.2.1 (List.cons_ne_nil key around)
      (isGap_newLine level _) (by simp) hm
    obtain ⟨later, hclose, hlater⟩ := hk.closes (.inr ⟨rfl, rfl⟩)
    refine ⟨later, hkey.trans (hpass.trans hclose), ?_⟩
    simpa [fieldTokens, Cursor.lay] using hlater
  | (name, x) :: y :: fields, htextual => by
    intro level cursor ts key around rest l _ h hallowed
    have htext : prettyFields (level + 1) ((name, x) :: y :: fields) ++
        (newLine level ++ ['\x7d']) =
        newLine (level + 1) ++ (stringText name ++ ':' :: ' ' :: (prettyText (level + 1) x ++
          (',' :: (prettyFields (level + 1) (y :: fields) ++ (newLine level ++ ['\x7d']))))) := by
      simp [prettyFields]
    rw [htext] at h
    obtain ⟨place, m, hkey, hm⟩ := h.field htextual.1.1 htextual.1.2 hallowed
    rw [Cursor.lay_append, List.append_assoc] at hm
    obtain ⟨k, hpass, hk⟩ := value_passes htextual.2.1 (List.cons_ne_nil key around)
      (nofun : IsGap []) (by simp) hm
    obtain ⟨j, hcomma, hj, hjallowed⟩ := hk.comma rfl
    obtain ⟨later, hrest, hlater⟩ := fields_pass htextual.2.2 (List.cons_ne_nil y fields) hj
      hjallowed
    refine ⟨later, hkey.trans (hpass.trans (hcomma.trans hrest)), ?_⟩
    simpa [fieldTokens] using hlater

end

/-! ### The whole text -/

theorem Before.ends (h : Before ts around gap l) (hgap : IsGap gap) (fuel : Nat) :
    ∃ final, run (fuel + 1) l = .ok final ∧ final.tokens = ts := by
  obtain ⟨front, hfront, hrest⟩ := h.rest
  have hskip : l.toNextToken.rest = [] := by
    obtain ⟨allowed, _, hskip⟩ :=
      skipGap_append (hfront.append hgap) [] l.inFlow l.keyAllowed
    rw [List.append_nil] at hskip
    simp only [toNextToken, hrest, hskip]
    rfl
  have hindents : l.toNextToken.indents = [] := h.indents
  have hidle : Idle l.toNextToken.pending := h.idle
  have hrun : run (fuel + 1) l = (l.toNextToken.endBlocks fun _ => true).forgetKey := by
    rw [run]
    simp only [hskip]
  refine ⟨{ l.toNextToken with pending := none }, ?_, h.tokens⟩
  rw [hrun, endBlocks_eq hindents, forgetKey, hidle.forget]
  rfl

end Lexer

open Lexer Json

/-- The tokens of a list or an object that is printed on lines of its own. -/
theorem tokens_pretty {value : Json} (h : value.Textual)
    (hroot : (∃ items, value = .array items) ∨ ∃ fields, value = .object fields) :
    tokens ('\n' :: (prettyText 0 value ++ ['\n'])) = .ok value.tokens := by
  let text := '\n' :: (prettyText 0 value ++ ['\n'])
  let cursor := Cursor.start.next '\n'
  have hprintable : ∀ c ∈ text, isPrintable c = true := by
    simp only [text, List.forall_mem_cons, List.forall_mem_append]
    exact ⟨rfl, isPrintable_prettyText 0 h, rfl, List.forall_mem_nil _⟩
  have hallowed : text.all isAllowed = true :=
    List.all_eq_true.2 fun c hc => isAllowed_of_isPrintable (hprintable c hc)
  have hplaced : placed text = Cursor.start.put '\n' ::
      (cursor.lay (prettyText 0 value) ++ (cursor.after (prettyText 0 value)).lay ['\n']) := by
    rw [placed, ← Cursor.lay_append]
    exact place_eq_lay hprintable Cursor.start
  have hfeed : ∀ place : Cursor, IsGap (place.lay ['\n']) :=
    fun place => isGap_lay (by simp) place
  have hstart : Before [] [] (cursor.lay (prettyText 0 value) ++
      (cursor.after (prettyText 0 value)).lay ['\n']) (Lexer.start (placed text)) :=
    ⟨rfl, rfl, rfl, rfl, idle_none, List.forall_mem_nil _, _, hfeed Cursor.start, hplaced⟩
  obtain ⟨later, ⟨n, hn, hrun⟩, hlater⟩ : ∃ later, Leads (Lexer.start (placed text)) later ∧
      Before (value.tokens.reverse ++ []) [] ((cursor.after (prettyText 0 value)).lay ['\n'])
        later := by
    rcases hroot with ⟨items, rfl⟩ | ⟨fields, rfl⟩
    · exact hstart.array (items_pass h)
    · exact hstart.object (fields_pass h)
  -- the tokens so far took no more fuel than characters, so that the last line feed finds some
  obtain ⟨fuel, hfuel⟩ : ∃ fuel, (placed text).length + 1 = (fuel + 1) + n :=
    ⟨(placed text).length - n, by
      have hlength : (Lexer.start (placed text)).rest.length = (placed text).length := rfl
      omega⟩
  obtain ⟨final, hfinal, htokens⟩ := hlater.ends (hfeed _) fuel
  have hresult : run ((placed text).length + 1) (Lexer.start (placed text)) = .ok final := by
    rw [hfuel, hrun, hfinal]
  change tokens text = _
  rw [tokens, if_pos hallowed]
  simp only [hresult, Bind.bind, Except.bind, pure, Except.pure, htokens]
  simp

end Conformance.Yaml
