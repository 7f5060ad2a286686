import Conformance.Engine.Failure

/-!
# Engines

An engine makes contexts, and a context compiles sources and runs what it compiled. Contexts share
nothing: what a context answers depends on what was asked of it before and on nothing else, but for
its end, where it can tell whether a panic gives it up.
-/

namespace Conformance

structure Engine where
  Context : Type
  Program : Type
  create : Answer Context
  compile : (name source : String) → (strict : Bool) → Context →
    Answer (Except CompileError Program) × Context
  run : Program → Context → Answer (Except Thrown Unit) × Context
  /-- A listing of the program compiled last, if there is one to be had. -/
  dump : Context → Answer (Option String)
  /-- Gives a context up, at the end of a run or while a panic unwinds. -/
  drop : (unwinding : Bool) → Context → Answer Unit

/-- What an engine is asked, in the words of the one who asks. -/
inductive Call where
  | create
  | compile (name source : String) (strict : Bool)
  /-- Runs the program compiled last, under its name. -/
  | run (name : String)
  | dump
  | drop
  deriving DecidableEq, Repr

namespace Engine

/-- Gives a context up: what the engine answers, and what it has been asked. A panic while another
one unwinds is one too many, and ends the whole process. -/
def giveUp (engine : Engine) (unwinding : Bool) (context : engine.Context) :
    Answer Unit × List Call :=
  (engine.drop unwinding context, [.drop])

/-- No context takes the others with it: to give one up while a panic unwinds does not panic. -/
def IsIsolated (engine : Engine) : Prop :=
  ∀ context, (engine.drop true context).isPanicked = false

end Engine

end Conformance
