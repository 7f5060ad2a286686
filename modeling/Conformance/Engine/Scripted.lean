import Conformance.Engine.Basic
import Conformance.Text.Blank
import Conformance.Text.Find

/-!
# A scripted engine

An engine that takes its orders from comments: a line `// @word argument` makes compiling or
running fail, panic or throw in one of the ways in which an engine can. All other text is ignored.
-/

namespace Conformance.Scripted

structure Directive where
  word : String
  argument : String
  deriving DecidableEq, Repr

/-- The directive of a line, if it is a comment that begins with one. -/
def Directive.ofLine? (line : List Char) : Option Directive := do
  let comment ← Text.dropMark? ['/', '/'] (Text.trim line)
  let order ← Text.dropMark? ['@'] (Text.trim comment)
  let word := order.takeWhile (· ≠ ' ')
  let argument := Text.trim (order.drop (word.length + 1))
  pure ⟨String.ofList word, String.ofList argument⟩

def Directive.ofSource (source : String) : List Directive :=
  (Text.lines source.toList).filterMap Directive.ofLine?

structure Program where
  name : String
  strict : Bool
  directives : List Directive
  deriving DecidableEq, Repr

structure Context where
  defined : List String
  last : Option Program
  dropPanics : Bool
  deriving DecidableEq, Repr

def Context.fresh : Context := ⟨[], none, false⟩

/-- What begins a source that is strict by its own word. -/
def strictStart : List Char := "'use strict';".toList

def Program.ofSource (name source : String) (strict : Bool) : Program where
  name
  strict := strict || strictStart.isPrefixOf source.toList
  directives := Directive.ofSource source

def panic {α : Type} (text : String) : Answer α := .panicked ⟨some text⟩

/-- An object of that constructor. -/
def throwObject (constructor detail : String) : Answer (Except Thrown Unit) :=
  .returned (.error ⟨constructor ++ ": " ++ detail, .returned (.ok constructor)⟩)

/-- A value that names no constructor. -/
def throwOdd (text : String) (fault : ConstructorFault) : Answer (Except Thrown Unit) :=
  .returned (.error ⟨text, .returned (.error fault)⟩)

/-- A value that must not be looked at. -/
def poisoned : Thrown := ⟨"[poisoned]", panic "constructor lookup on a poisoned value"⟩

def compileError (name category : String) : CompileError :=
  if category = "SyntaxError" then ⟨.grammar, name ++ ": unexpected token"⟩
  else if category = "ReferenceError" then ⟨.reference, name ++ ": invalid assignment target"⟩
  else ⟨.other category, "unsupported construct"⟩

/-- Compiles what the first directive that matters allows. -/
def compileBy (program : Program) : List Directive → Answer (Except CompileError Program)
  | [] => .returned (.ok program)
  | ⟨word, argument⟩ :: rest =>
    if word = "early-error" then .returned (.error (compileError program.name argument))
    else if word = "panic-compile" then panic ("compile panic in " ++ program.name)
    else compileBy program rest

def compile (name source : String) (strict : Bool) (context : Context) :
    Answer (Except CompileError Program) × Context :=
  let program := Program.ofSource name source strict
  (compileBy program program.directives, { context with last := some program })

/-- What a directive does when it is run; nothing if the run goes on. -/
def interrupt (program : Program) (context : Context) :
    Directive → Option (Answer (Except Thrown Unit))
  | ⟨word, argument⟩ =>
    match word with
    | "use" =>
      if context.defined.contains argument then none
      else some (throwObject "ReferenceError" (argument ++ " is not defined"))
    | "throw" => some (throwObject argument "thrown by test")
    | "throw-if-strict" => if program.strict then some (throwObject argument "strict") else none
    | "throw-if-sloppy" => if program.strict then none else some (throwObject argument "sloppy")
    | "throw-primitive" => some (throwOdd argument .notAnObject)
    | "throw-no-constructor" => some (throwOdd "[object] bare" .noConstructor)
    | "throw-bad-constructor" => some (throwOdd "[object] odd" .constructorNotObject)
    | "throw-poisoned" => some (.returned (.error poisoned))
    | "panic" => some (panic ("scripted engine panic in " ++ program.name))
    | "panic-str" => some (panic "static panic")
    | "panic-any" => some (.panicked ⟨none⟩)
    | _ => none

/-- What a directive leaves behind. -/
def effect (context : Context) : Directive → Context
  | ⟨word, argument⟩ =>
    match word with
    | "define" => { context with defined := context.defined ++ [argument] }
    | "panic-drop" => { context with dropPanics := true }
    | _ => context

def runBy (program : Program) : List Directive → Context →
    Answer (Except Thrown Unit) × Context
  | [], context => (.returned (.ok ()), context)
  | directive :: rest, context =>
    match interrupt program context directive with
    | some answer => (answer, context)
    | none => runBy program rest (effect context directive)

def run (program : Program) (context : Context) : Answer (Except Thrown Unit) × Context :=
  runBy program program.directives context

def Program.has (program : Program) (word : String) : Bool :=
  program.directives.any (·.word = word)

def Program.listing (program : Program) : String :=
  program.directives.foldl
    (fun text directive => text ++ "  " ++ directive.word ++ " " ++ directive.argument ++ "\n")
    ("; program " ++ program.name ++ "\n")

def dump (context : Context) : Answer (Option String) :=
  match context.last with
  | none => .returned none
  | some program =>
    if program.has "no-dump" then .returned none
    else if program.has "panic-dump" then panic ("dump panic in " ++ program.name)
    else .returned (some program.listing)

/-- A context that is given up by a panic keeps quiet. -/
def drop (unwinding : Bool) (context : Context) : Answer Unit :=
  if context.dropPanics && !unwinding then panic "panic in drop" else .returned ()

def engine : Engine where
  Context := Context
  Program := Program
  create := .returned .fresh
  compile
  run
  dump
  drop

theorem isIsolated_engine : engine.IsIsolated := by
  intro context
  simp [engine, drop, Answer.isPanicked]

end Conformance.Scripted
