import Conformance.Proofs.Course

/-!
# What a run asks of an engine

A run has pieces to load: the harness files, then the body. Of each piece it asks the engine twice,
to compile it and to run what has just been compiled, and it asks nothing more once a piece cannot be
read or an answer is a failure or a panic. `Dialogue` is this course of questions and answers; the
execution of a run is read off it (`Course.execution_loading`), and so are all the calls that are
made, the place where they stop and what the run comes to there: `Engine.execute_transcript`.
-/

namespace Conformance

/-- Something that a run loads: its name, and its source or why there is none. -/
structure Piece where
  name : String
  source : Except Failure String

/-- A harness file, as it is loaded. -/
def Piece.ofFile (world : Files.World) (harness file : String) : Piece where
  name := "harness/" ++ file
  source := (world.read (Files.join harness file)).mapError fun cause =>
    .load (Files.join harness file) cause.message

/-- What a run loads, in order. -/
def TestRun.pieces (world : Files.World) (harness : String) (spec : TestRun) : List Piece :=
  ("assert.js" :: "sta.js" :: spec.matter.includes).map (Piece.ofFile world harness) ++
    [⟨spec.path, .ok spec.source⟩]

/-- The calls that load pieces, up to the first that has no source. -/
def script : List Piece → List Call
  | [] => []
  | ⟨name, .ok source⟩ :: rest => .compile name source false :: .run name :: script rest
  | ⟨_, .error _⟩ :: _ => []

/-- A question to an engine and its answer. -/
inductive Exchange (engine : Engine) where
  | compile (name source : String) (answer : Answer (Except CompileError engine.Program))
  | run (name : String) (program : engine.Program) (answer : Answer (Except Thrown Unit))

def Stop.failure : Stop → Failure
  | .failed failure => failure
  | .panicked panic => .panicked panic.message

def Stop.isPanic : Stop → Bool
  | .failed _ => false
  | .panicked _ => true

def Outcome.failure? : Outcome → Option Failure
  | .success => none
  | .failure fault _ => some fault

variable {engine : Engine}

namespace Exchange

def call : Exchange engine → Call
  | .compile name source _ => .compile name source false
  | .run name _ _ => .run name

/-- How an answer stops a run, if it does. -/
def stop? : Exchange engine → Option Stop
  | .compile _ _ (.returned (.ok _)) => none
  | .compile _ _ (.returned (.error error)) => some (.failed (.compile error))
  | .compile _ _ (.panicked panic) => some (.panicked panic)
  | .run _ _ (.returned (.ok ())) => none
  | .run _ _ (.returned (.error value)) => some (.failed (.thrown value))
  | .run _ _ (.panicked panic) => some (.panicked panic)

def panics (exchange : Exchange engine) : Bool :=
  exchange.stop?.any Stop.isPanic

/-- The answer that an engine gives in a context, and the context that is left. -/
inductive Occurs (engine : Engine) : engine.Context → Exchange engine → engine.Context → Prop
  | compile {name source : String} {context after : engine.Context}
      {answer : Answer (Except CompileError engine.Program)} :
    engine.compile name source false context = (answer, after) →
    Occurs engine context (.compile name source answer) after
  | run {name : String} {program : engine.Program} {context after : engine.Context}
      {answer : Answer (Except Thrown Unit)} :
    engine.run program context = (answer, after) →
    Occurs engine context (.run name program answer) after

/-- Exchanges one after the other, each in the context that the one before it leaves. -/
inductive Occur (engine : Engine) :
    engine.Context → List (Exchange engine) → engine.Context → Prop
  | nil (context : engine.Context) : Occur engine context [] context
  | cons {context between after : engine.Context} {exchange : Exchange engine}
      {later : List (Exchange engine)} : Occurs engine context exchange between →
    Occur engine between later after → Occur engine context (exchange :: later) after

/-- Exchanges that come in pairs: what is run is what has just been compiled, under the same name. The
last pair may lack its run. -/
inductive Paired : List (Exchange engine) → Prop
  | nil : Paired []
  | compiled (name source : String) (answer : Answer (Except CompileError engine.Program)) :
    Paired [.compile name source answer]
  | cons (name source : String) (program : engine.Program) (answer : Answer (Except Thrown Unit))
      {later : List (Exchange engine)} : Paired later →
    Paired (.compile name source (.returned (.ok program)) :: .run name program answer :: later)

end Exchange

/-- The course of loading pieces in a context: the exchanges, how they stop if they do, and the
context that is left. -/
inductive Dialogue (engine : Engine) : List Piece → engine.Context → List (Exchange engine) →
    Option Stop → engine.Context → Prop
  | done (context : engine.Context) : Dialogue engine [] context [] none context
  | unread (name : String) (failure : Failure) (rest : List Piece) (context : engine.Context) :
    Dialogue engine (⟨name, .error failure⟩ :: rest) context [] (some (.failed failure)) context
  | uncompiled {name source : String} (rest : List Piece) {context after : engine.Context}
      {answer : Answer (Except CompileError engine.Program)} {stop : Stop} :
    engine.compile name source false context = (answer, after) →
    (Exchange.compile name source answer).stop? = some stop →
    Dialogue engine (⟨name, .ok source⟩ :: rest) context [.compile name source answer] (some stop)
      after
  | broken {name source : String} (rest : List Piece) {context between after : engine.Context}
      {program : engine.Program} {answer : Answer (Except Thrown Unit)} {stop : Stop} :
    engine.compile name source false context = (.returned (.ok program), between) →
    engine.run program between = (answer, after) →
    (Exchange.run name program answer).stop? = some stop →
    Dialogue engine (⟨name, .ok source⟩ :: rest) context
      [.compile name source (.returned (.ok program)), .run name program answer] (some stop) after
  | loaded {name source : String} {rest : List Piece} {context between after final : engine.Context}
      {program : engine.Program} {later : List (Exchange engine)} {stop : Option Stop} :
    engine.compile name source false context = (.returned (.ok program), between) →
    engine.run program between = (.returned (.ok ()), after) →
    Dialogue engine rest after later stop final →
    Dialogue engine (⟨name, .ok source⟩ :: rest) context
      (.compile name source (.returned (.ok program)) ::
        .run name program (.returned (.ok ())) :: later) stop final

theorem exists_dialogue (pieces : List Piece) (context : engine.Context) :
    ∃ exchanges stop final, Dialogue engine pieces context exchanges stop final := by
  induction pieces generalizing context with
  | nil => exact ⟨_, _, _, .done context⟩
  | cons piece rest ih =>
    obtain ⟨name, failure | source⟩ := piece
    · exact ⟨_, _, _, .unread name failure rest context⟩
    · rcases hcompile : engine.compile name source false context with
        ⟨(error | program) | panic, between⟩
      · exact ⟨_, _, _, .uncompiled rest hcompile rfl⟩
      · rcases hrun : engine.run program between with ⟨(value | done) | panic, after⟩
        · exact ⟨_, _, _, .broken rest hcompile hrun rfl⟩
        · obtain ⟨later, stop, final, hlater⟩ := ih after
          exact ⟨_, _, _, .loaded hcompile hrun hlater⟩
        · exact ⟨_, _, _, .broken rest hcompile hrun rfl⟩
      · exact ⟨_, _, _, .uncompiled rest hcompile rfl⟩

/-! ### Steps as exchanges -/

namespace Step

variable {name source : String} {session : Session engine} {after : engine.Context} {stop : Stop}
  {program : engine.Program}

theorem compile_of_ok
    (h : engine.compile name source false session.context = (.returned (.ok program), after)) :
    compile name source session =
      (.ok program, ⟨after, .compile name source false :: session.calls⟩) := by
  unfold compile
  rw [h]

theorem compile_of_stop {answer : Answer (Except CompileError engine.Program)}
    (h : engine.compile name source false session.context = (answer, after))
    (hstop : (Exchange.compile name source answer).stop? = some stop) :
    compile name source session =
      (.error stop, ⟨after, .compile name source false :: session.calls⟩) := by
  unfold compile
  rw [h]
  obtain (error | program) | panic := answer
  · obtain rfl := Option.some.inj hstop
    rfl
  · cases hstop
  · obtain rfl := Option.some.inj hstop
    rfl

theorem run_of_ok (h : engine.run program session.context = (.returned (.ok ()), after)) :
    run name program session = (.ok (), ⟨after, .run name :: session.calls⟩) := by
  unfold run
  rw [h]

theorem run_of_stop {answer : Answer (Except Thrown Unit)}
    (h : engine.run program session.context = (answer, after))
    (hstop : (Exchange.run name program answer).stop? = some stop) :
    run name program session = (.error stop, ⟨after, .run name :: session.calls⟩) := by
  unfold run
  rw [h]
  obtain (value | done) | panic := answer
  · obtain rfl := Option.some.inj hstop
    rfl
  · cases hstop
  · obtain rfl := Option.some.inj hstop
    rfl

end Step

/-- How a course of loading ends, as a step tells it. -/
def Stop.result : Option Stop → Except Stop Unit
  | none => .ok ()
  | some stop => .error stop

namespace Course

variable {world : Files.World} {harness : String} {spec : TestRun}

/-- A run from where it has a context is the dialogue on its pieces. Run time has come when each of
them has been asked about twice. -/
theorem execution_loading {session : Session engine} {files : List String}
    {exchanges : List (Exchange engine)} {stop : Option Stop} {final : engine.Context}
    (h : Dialogue engine (files.map (Piece.ofFile world harness) ++ [⟨spec.path, .ok spec.source⟩])
      session.context exchanges stop final) :
    (loading session files).execution world harness spec =
      .ofEnd (if exchanges.length = 2 * files.length + 2 then .runtime else .early)
        (Stop.result stop, ⟨final, (exchanges.map Exchange.call).reverse ++ session.calls⟩) := by
  induction files generalizing session exchanges stop final with
  | nil =>
    rw [execution_eq, attempt]
    cases h with
    | uncompiled rest hcompile hstop =>
      rw [Step.compile_of_stop hcompile hstop]
      rfl
    | broken rest hcompile hrun hstop =>
      rw [Step.compile_of_ok hcompile, Attempt.after, executionAfter, execution_eq, attempt,
        Step.run_of_stop hrun hstop]
      rfl
    | loaded hcompile hrun hlater =>
      cases hlater with
      | done =>
        rw [Step.compile_of_ok hcompile, Attempt.after, executionAfter, execution_eq, attempt,
          Step.run_of_ok hrun]
        rfl
  | cons file files ih =>
    rw [execution_eq, attempt]
    rw [List.map_cons, List.cons_append, Piece.ofFile] at h
    cases hread : world.read (Files.join harness file) with
    | error cause =>
      rw [hread] at h
      cases h with
      | unread => rfl
    | ok source =>
      rw [hread] at h
      simp only [executionAfter]
      rw [execution_eq, attempt]
      cases h with
      | uncompiled rest hcompile hstop =>
        rw [Step.compile_of_stop hcompile hstop]
        rfl
      | broken rest hcompile hrun hstop =>
        rw [Step.compile_of_ok hcompile, Attempt.after, executionAfter, execution_eq, attempt,
          Step.run_of_stop hrun hstop]
        rfl
      | loaded hcompile hrun hlater =>
        rw [Step.compile_of_ok hcompile, Attempt.after, executionAfter, execution_eq, attempt,
          Step.run_of_ok hrun, Attempt.after, executionAfter, ih hlater]
        simp [Exchange.call, Nat.mul_add, Nat.add_assoc]

end Course

/-! ### The calls of a dialogue -/

/-- Why a piece cannot be loaded, if it has no source. -/
def Piece.fault? (piece : Piece) : Option Failure :=
  match piece.source with
  | .ok _ => none
  | .error fault => some fault

theorem length_script_le (pieces : List Piece) : (script pieces).length ≤ 2 * pieces.length := by
  induction pieces with
  | nil => exact Nat.le_refl 0
  | cons piece rest ih =>
    obtain ⟨name, failure | source⟩ := piece
    · exact Nat.zero_le _
    · simp only [script, List.length_cons]
      omega

theorem length_script_eq_iff {pieces : List Piece} :
    (script pieces).length = 2 * pieces.length ↔ ∀ piece ∈ pieces, piece.fault? = none := by
  induction pieces with
  | nil => exact iff_of_true rfl (List.forall_mem_nil _)
  | cons piece rest ih =>
    obtain ⟨name, failure | source⟩ := piece
    · exact iff_of_false (by simp [script]) (by simp [Piece.fault?])
    · have hread : Piece.fault? ⟨name, .ok source⟩ = none := rfl
      rw [List.forall_mem_cons, and_iff_right hread, ← ih]
      simp only [script, List.length_cons]
      omega

namespace Dialogue

variable {pieces : List Piece} {context final : engine.Context}
  {exchanges : List (Exchange engine)} {stop : Option Stop}

theorem occur (h : Dialogue engine pieces context exchanges stop final) :
    Exchange.Occur engine context exchanges final := by
  induction h with
  | done context => exact .nil context
  | unread name failure rest context => exact .nil context
  | uncompiled rest hcompile hstop => exact .cons (.compile hcompile) (.nil _)
  | broken rest hcompile hrun hstop => exact .cons (.compile hcompile) (.cons (.run hrun) (.nil _))
  | loaded hcompile hrun hlater ih => exact .cons (.compile hcompile) (.cons (.run hrun) ih)

theorem isPrefix (h : Dialogue engine pieces context exchanges stop final) :
    exchanges.map Exchange.call <+: script pieces := by
  induction h with
  | done context => exact List.prefix_rfl
  | unread name failure rest context => exact List.nil_prefix
  | uncompiled rest hcompile hstop => exact ⟨_, rfl⟩
  | broken rest hcompile hrun hstop => exact ⟨_, rfl⟩
  | loaded hcompile hrun hlater ih =>
    exact List.prefix_cons_inj _ |>.2 (List.prefix_cons_inj _ |>.2 ih)

theorem paired (h : Dialogue engine pieces context exchanges stop final) :
    Exchange.Paired exchanges := by
  induction h with
  | done context => exact .nil
  | unread name failure rest context => exact .nil
  | uncompiled rest hcompile hstop => exact .compiled _ _ _
  | broken rest hcompile hrun hstop => exact .cons _ _ _ _ .nil
  | loaded hcompile hrun hlater ih => exact .cons _ _ _ _ ih

/-- Nothing is asked after an answer that stops the run. -/
theorem stop?_of_mem_dropLast (h : Dialogue engine pieces context exchanges stop final)
    {exchange : Exchange engine} (hmem : exchange ∈ exchanges.dropLast) : exchange.stop? = none := by
  induction h with
  | done context => cases hmem
  | unread name failure rest context => cases hmem
  | uncompiled rest hcompile hstop => cases hmem
  | broken rest hcompile hrun hstop =>
    obtain rfl := List.mem_singleton.1 hmem
    rfl
  | @loaded _ _ _ _ _ _ _ _ later _ hcompile hrun hlater ih =>
    cases later with
    | nil =>
      obtain rfl := List.mem_singleton.1 hmem
      rfl
    | cons next later =>
      rcases List.mem_cons.1 hmem with rfl | hmem
      · rfl
      · rcases List.mem_cons.1 hmem with rfl | hmem
        · rfl
        · exact ih hmem

theorem stop_eq_of_mem (h : Dialogue engine pieces context exchanges stop final)
    {exchange : Exchange engine} {cause : Stop} (hmem : exchange ∈ exchanges)
    (hcause : exchange.stop? = some cause) : stop = some cause := by
  induction h with
  | done context => cases hmem
  | unread name failure rest context => cases hmem
  | uncompiled rest hcompile hstop =>
    obtain rfl := List.mem_singleton.1 hmem
    exact hstop.symm.trans hcause
  | broken rest hcompile hrun hstop =>
    rcases List.mem_cons.1 hmem with rfl | hmem
    · cases hcause
    · obtain rfl := List.mem_singleton.1 hmem
      exact hstop.symm.trans hcause
  | loaded hcompile hrun hlater ih =>
    rcases List.mem_cons.1 hmem with rfl | hmem
    · cases hcause
    · rcases List.mem_cons.1 hmem with rfl | hmem
      · cases hcause
      · exact ih hmem

/-- Where no answer stops the run, it stops at the first piece that has no source, and otherwise all
has been asked. -/
theorem goes_on (h : Dialogue engine pieces context exchanges stop final)
    (hnone : ∀ exchange ∈ exchanges, exchange.stop? = none) :
    exchanges.map Exchange.call = script pieces ∧
      stop = (pieces.findSome? Piece.fault?).map .failed := by
  induction h with
  | done context => exact ⟨rfl, rfl⟩
  | unread name failure rest context => exact ⟨rfl, rfl⟩
  | uncompiled rest hcompile hstop =>
    rw [hnone _ List.mem_cons_self] at hstop
    cases hstop
  | broken rest hcompile hrun hstop =>
    rw [hnone _ (List.mem_cons_of_mem _ List.mem_cons_self)] at hstop
    cases hstop
  | loaded hcompile hrun hlater ih =>
    obtain ⟨hcalls, hstop⟩ := ih fun exchange hmem =>
      hnone exchange (List.mem_cons_of_mem _ (List.mem_cons_of_mem _ hmem))
    refine ⟨?_, hstop⟩
    rw [List.map_cons, List.map_cons, hcalls]
    rfl

theorem length_eq_iff (h : Dialogue engine pieces context exchanges stop final) :
    exchanges.length = 2 * pieces.length ↔
      (∀ piece ∈ pieces, piece.fault? = none) ∧ exchanges.map Exchange.call = script pieces := by
  have hle := length_script_le pieces
  have hprefix := h.isPrefix.length_le
  rw [List.length_map] at hprefix
  rw [← length_script_eq_iff]
  constructor
  · intro hlength
    refine ⟨by omega, h.isPrefix.eq_of_length ?_⟩
    rw [List.length_map]
    omega
  · rintro ⟨hscript, hcalls⟩
    rw [← hscript, ← hcalls, List.length_map]

/-- A run stops with the first answer that stops it, or else at the first piece without a source. -/
theorem stop_eq (h : Dialogue engine pieces context exchanges stop final) :
    stop = (exchanges.findSome? Exchange.stop?).or ((pieces.findSome? Piece.fault?).map .failed) := by
  cases hfirst : exchanges.findSome? Exchange.stop? with
  | none =>
    exact (h.goes_on (List.findSome?_eq_none_iff.1 hfirst)).2
  | some cause =>
    obtain ⟨exchange, hmem, hcause⟩ := List.exists_of_findSome?_eq_some hfirst
    exact h.stop_eq_of_mem hmem hcause

theorem any_panics_eq (h : Dialogue engine pieces context exchanges stop final) :
    exchanges.any Exchange.panics = stop.any Stop.isPanic := by
  cases hfirst : exchanges.findSome? Exchange.stop? with
  | none =>
    have hnone := List.findSome?_eq_none_iff.1 hfirst
    have hquiet : exchanges.any Exchange.panics = false := by
      rw [List.any_eq_false]
      intro exchange hmem
      simp [Exchange.panics, hnone exchange hmem]
    rw [hquiet, (h.goes_on hnone).2]
    cases pieces.findSome? Piece.fault? <;> rfl
  | some cause =>
    obtain ⟨exchange, hmem, hcause⟩ := List.exists_of_findSome?_eq_some hfirst
    have hstop := h.stop_eq_of_mem hmem hcause
    rw [Bool.eq_iff_iff, List.any_eq_true]
    constructor
    · rintro ⟨other, hother, hpanics⟩
      obtain ⟨cause, hcause, hpanic⟩ := (Option.any_eq_true _ _).1 hpanics
      rw [h.stop_eq_of_mem hother hcause]
      exact hpanic
    · intro hpanic
      rw [hstop, ← hcause] at hpanic
      exact ⟨exchange, hmem, hpanic⟩

end Dialogue

/-- The last exchange runs the body, and every piece has had two before and with it. -/
def RunsBody (pieces : List Piece) (body : String) (exchanges : List (Exchange engine)) : Prop :=
  exchanges.length = 2 * pieces.length ∧
    ∃ before program answer, exchanges = before ++ [.run body program answer]

theorem script_concat {pieces : List Piece} (h : ∀ piece ∈ pieces, piece.fault? = none)
    (name source : String) : script (pieces ++ [⟨name, .ok source⟩]) =
      script pieces ++ [.compile name source false, .run name] := by
  induction pieces with
  | nil => rfl
  | cons piece rest ih =>
    obtain ⟨hpiece, hrest⟩ := List.forall_mem_cons.1 h
    obtain ⟨known, failure | text⟩ := piece
    · cases hpiece
    · rw [List.cons_append, script, script, ih hrest]
      rfl

theorem Dialogue.runsBody_iff {files : List Piece} {body source : String}
    {context final : engine.Context} {exchanges : List (Exchange engine)} {stop : Option Stop}
    (h : Dialogue engine (files ++ [.mk body (.ok source)]) context exchanges stop final) :
    RunsBody (files ++ [.mk body (.ok source)]) body exchanges ↔
      exchanges.length = 2 * (files ++ [Piece.mk body (.ok source)]).length := by
  constructor
  · exact And.left
  intro hlength
  refine ⟨hlength, ?_⟩
  obtain ⟨hread, hcalls⟩ := h.length_eq_iff.1 hlength
  have hfiles : ∀ piece ∈ files, piece.fault? = none := fun piece hpiece =>
    hread piece (List.mem_append_left _ hpiece)
  rw [script_concat hfiles, List.map_eq_append_iff] at hcalls
  obtain ⟨before, last, rfl, -, hlast⟩ := hcalls
  obtain ⟨compiled, rest, rfl, -, hrest⟩ := List.map_eq_cons_iff.1 hlast
  obtain ⟨ran, rest, rfl, hran, hnone⟩ := List.map_eq_cons_iff.1 hrest
  obtain rfl := List.map_eq_nil_iff.1 hnone
  cases ran with
  | compile name source answer => cases hran
  | run name program answer =>
    obtain rfl : name = body := Call.run.inj hran
    exact ⟨before ++ [compiled], program, answer, by simp⟩

theorem Execution.ofEnd_result (phase : Phase) (stop : Option Stop) (session : Session engine) :
    Execution.ofEnd phase (Stop.result stop, session) =
      { outcome := match stop with
          | none => .success
          | some stop => .failure stop.failure phase
        context := if stop.any Stop.isPanic then none else some session.context
        calls := session.calls.reverse ++ if stop.any Stop.isPanic then [.drop] else []
        aborted := stop.any Stop.isPanic && (engine.drop true session.context).isPanicked } := by
  cases stop with
  | none => simp [Stop.result, Execution.ofEnd]
  | some stop =>
    cases stop with
    | failed failure => simp [Stop.result, Execution.ofEnd, Stop.isPanic, Stop.failure]
    | panicked panic =>
      simp [Stop.result, Execution.ofEnd, Engine.giveUp, Stop.isPanic, Stop.failure]

/-- What an execution shows of the exchanges that it is made of. -/
structure Transcript (pieces : List Piece) (body : String) (context final : engine.Context)
    (exchanges : List (Exchange engine)) (execution : Execution engine) : Prop where
  occur : Exchange.Occur engine context exchanges final
  paired : Exchange.Paired exchanges
  calls_eq : execution.calls = .create :: exchanges.map Exchange.call ++
    if exchanges.any Exchange.panics then [.drop] else []
  isPrefix : exchanges.map Exchange.call <+: script pieces
  before_last : ∀ exchange ∈ exchanges.dropLast, exchange.stop? = none
  goes_on : (∀ exchange ∈ exchanges, exchange.stop? = none) →
    exchanges.map Exchange.call = script pieces
  whole_iff : (∀ piece ∈ pieces, piece.fault? = none) ∧
    exchanges.map Exchange.call = script pieces ↔ RunsBody pieces body exchanges
  failure_eq : execution.outcome.failure? =
    ((exchanges.findSome? Exchange.stop?).map Stop.failure).or (pieces.findSome? Piece.fault?)
  runtime_iff : ∀ failure phase, execution.outcome = .failure failure phase →
    (phase = .runtime ↔ RunsBody pieces body exchanges)
  context_eq : execution.context = if exchanges.any Exchange.panics then none else some final

theorem Engine.execute_eq {world : Files.World} {harness : String} {spec : TestRun}
    {context final : engine.Context} {exchanges : List (Exchange engine)} {stop : Option Stop}
    (hcreate : engine.create = .returned context)
    (h : Dialogue engine (spec.pieces world harness) context exchanges stop final) :
    engine.execute world harness spec = .ofEnd
      (if exchanges.length = 2 * (spec.pieces world harness).length then .runtime else .early)
      (Stop.result stop, ⟨final, (exchanges.map Exchange.call).reverse ++ [.create]⟩) := by
  have hpieces : 2 * (spec.pieces world harness).length =
      2 * spec.matter.harnessFiles.length + 2 := by
    rw [TestRun.pieces, List.length_append, List.length_map]
    exact Nat.mul_add 2 _ 1
  have hsession : Dialogue engine (spec.matter.harnessFiles.map (Piece.ofFile world harness) ++
      [⟨spec.path, .ok spec.source⟩]) (Session.mk context [.create]).context exchanges stop final := h
  rw [hpieces, ← Course.execution_opening, Course.execution_eq, Course.attempt, hcreate]
  exact Course.execution_loading hsession

/-- Every execution that gets a context is made of exchanges that go through the pieces of the run in
order. They come to an end with the first answer that is a failure or a panic, in front of the first
piece that cannot be read, or with the run of the body; what the run comes to is what happens there,
at run time exactly if the body was run, and a context is left unless an answer was a panic. -/
theorem Engine.execute_transcript (engine : Engine) (world : Files.World) (harness : String)
    (spec : TestRun) :
    (∃ panic, engine.create = .panicked panic ∧
      (engine.execute world harness spec).calls = [.create] ∧
      (engine.execute world harness spec).outcome = .failure (.panicked panic.message) .early ∧
      (engine.execute world harness spec).context = none) ∨
    ∃ context exchanges final, engine.create = .returned context ∧
      Transcript (spec.pieces world harness) spec.path context final exchanges
        (engine.execute world harness spec) := by
  cases hcreate : engine.create with
  | panicked panic =>
    have hexecute : engine.execute world harness spec = .unopened panic := by
      unfold Engine.execute
      rw [hcreate]
    rw [hexecute]
    exact .inl ⟨panic, rfl, rfl, rfl, rfl⟩
  | returned context =>
    obtain ⟨exchanges, stop, final, h⟩ := exists_dialogue (spec.pieces world harness) context
    have hexecute := Engine.execute_eq hcreate h
    rw [Execution.ofEnd_result, ← h.any_panics_eq] at hexecute
    have hbody : RunsBody (spec.pieces world harness) spec.path exchanges ↔
        exchanges.length = 2 * (spec.pieces world harness).length := h.runsBody_iff
    refine .inr ⟨context, exchanges, final, rfl, h.occur, h.paired, ?_, h.isPrefix,
      fun exchange => h.stop?_of_mem_dropLast, fun hnone => (h.goes_on hnone).1, ?_, ?_, ?_, ?_⟩
    · rw [hexecute]
      simp
    · rw [hbody]
      exact h.length_eq_iff.symm
    · have hfailure : (engine.execute world harness spec).outcome.failure? =
          stop.map Stop.failure := by
        rw [hexecute]
        cases stop <;> rfl
      have hfailed : Stop.failure ∘ Stop.failed = id := rfl
      rw [hfailure, congrArg (Option.map Stop.failure) h.stop_eq, Option.map_or, Option.map_map,
        hfailed, Option.map_id_fun, id_eq]
    · intro failure phase hfailure
      rw [hexecute] at hfailure
      rw [hbody]
      cases stop with
      | none => cases hfailure
      | some cause =>
        obtain ⟨-, rfl⟩ := Outcome.failure.inj hfailure
        split
        · rename_i hlength
          exact iff_of_true rfl hlength
        · rename_i hlength
          exact iff_of_false (by rintro ⟨⟩) hlength
    · rw [hexecute]

end Conformance
