import Conformance.Corpus.Settings

/-!
# Arguments

The words of a command line, read from left to right. An option's value is attached to it or is
the next word; a word that begins with a hyphen is never taken for a value, unless it is the
hyphen alone or two hyphens alone came before.
-/

namespace Conformance.CommandLine

/-- What the program is asked to do. -/
inductive Request where
  | frontMatter (file : String)
  | plan (settings : Settings) (json : Bool)

/-- Why there is nothing to do. -/
inductive Halt where
  | help
  | version
  | missingCommand
  | unknownCommand (word : String)
  | unexpectedArgument (word : String)
  | missingValue
  | unexpectedValue (word : String)
  | invalidValue (value : String)
  | repeatedOption
  | missingArgument
  deriving DecidableEq, Repr

/-- A word by its hyphens. -/
inductive Word where
  | plain (text : String)
  /-- Two hyphens: all words that follow are plain. -/
  | stop
  | long (name : String) (value : Option String)
  | short (letters : List Char)
  deriving DecidableEq, Repr

def Word.ofText (text : String) : Word :=
  match text.toList with
  | ['-', '-'] => .stop
  | '-' :: '-' :: rest =>
    let name := rest.takeWhile (· ≠ '=')
    .long (String.ofList name)
      (if name.length = rest.length then none
        else some (String.ofList (rest.drop (name.length + 1))))
  | '-' :: c :: rest => .short (c :: rest)
  | _ => .plain text

/-- Where in the command line an option stands. -/
inductive Level where
  | top
  | frontMatter
  | plan
  deriving DecidableEq, Repr

inductive Switch where
  | help
  | version
  | verbose
  | json
  deriving DecidableEq, Repr

/-- An option that takes a value. -/
inductive Valued where
  | edition
  | filter
  deriving DecidableEq, Repr

def Switch.ofLong? (level : Level) (name : String) : Option Switch :=
  if name = "help" then some .help
  else if name = "verbose" then some .verbose
  else if name = "version" ∧ level = .top then some .version
  else if name = "json" ∧ level = .plan then some .json
  else none

def Switch.ofShort? (level : Level) (letter : Char) : Option Switch :=
  if letter = 'h' then some .help
  else if letter = 'v' then some .verbose
  else if letter = 'V' ∧ level = .top then some .version
  else none

def Valued.ofLong? (level : Level) (name : String) : Option Valued :=
  if level ≠ .plan then none
  else if name = "edition" then some .edition
  else if name = "filter" then some .filter
  else none

def Valued.ofShort? (level : Level) (letter : Char) : Option Valued :=
  if level ≠ .plan then none
  else if letter = 'e' then some .edition
  else if letter = 'f' then some .filter
  else none

/-- What has been read so far. -/
structure Options where
  edition : Option Edition := none
  filter : Option String := none
  json : Bool := false
  /-- The words that are no options. -/
  words : List String := []
  deriving DecidableEq, Repr

namespace Options

def raise (options : Options) : Switch → Except Halt Options
  | .help => .error .help
  | .version => .error .version
  | .verbose => .ok options
  | .json => if options.json then .error .repeatedOption else .ok { options with json := true }

def assign (options : Options) (value : String) : Valued → Except Halt Options
  | .edition =>
    match Edition.ofText? value with
    | none => .error (.invalidValue value)
    | some edition =>
      if options.edition.isSome then .error .repeatedOption
      else .ok { options with edition := some edition }
  | .filter =>
    if options.filter.isSome then .error .repeatedOption
    else .ok { options with filter := some value }

/-- One more plain word. The first is a path, which is never empty, and only a plan has more. -/
def push (level : Level) (options : Options) (word : String) : Except Halt Options :=
  let isFirst := options.words.isEmpty
  if isFirst ∧ word = "" then .error (.invalidValue word)
  else if level = .top ∨ (level = .frontMatter ∧ ¬ isFirst) then .error (.unexpectedArgument word)
  else .ok { options with words := options.words ++ [word] }

/-- The letters behind one hyphen, and the option that still waits for its value. -/
def letters (level : Level) (options : Options) :
    List Char → Except Halt (Options × Option Valued)
  | [] => .ok (options, none)
  | letter :: rest =>
    match Switch.ofShort? level letter with
    | some switch => do letters level (← options.raise switch) rest
    | none =>
      match Valued.ofShort? level letter with
      | none => .error (.unexpectedArgument (String.ofList ['-', letter]))
      | some valued =>
        match rest with
        | [] => .ok (options, some valued)
        | '=' :: value => do pure (← options.assign (String.ofList value) valued, none)
        | value => do pure (← options.assign (String.ofList value) valued, none)

/-- A long option, and itself if it still waits for its value. -/
def long (level : Level) (options : Options) (name : String) (value : Option String) :
    Except Halt (Options × Option Valued) :=
  match Valued.ofLong? level name, Switch.ofLong? level name, value with
  | some valued, _, none => .ok (options, some valued)
  | some valued, _, some value => do pure (← options.assign value valued, none)
  | none, some switch, none => do pure (← options.raise switch, none)
  | none, some _, some value => .error (.unexpectedValue value)
  | none, none, _ => .error (.unexpectedArgument ("--" ++ name))

/-- Reads the words behind a command. -/
def read (level : Level) : (waiting : Option Valued) → (stopped : Bool) → Options →
    List String → Except Halt Options
  | none, _, options, [] => .ok options
  | some _, _, _, [] => .error .missingValue
  | some _, true, _, _ :: _ => .error .missingValue
  | none, true, options, text :: rest => do
    read level none true (← options.push level text) rest
  | some valued, false, options, text :: rest =>
    match Word.ofText text with
    | .plain value => do read level none false (← options.assign value valued) rest
    | _ => .error .missingValue
  | none, false, options, text :: rest =>
    match Word.ofText text with
    | .plain word => do read level none false (← options.push level word) rest
    | .stop => read level none true options rest
    | .long name value => do
      let (options, waiting) ← options.long level name value
      read level waiting false options rest
    | .short cs => do
      let (options, waiting) ← options.letters level cs
      read level waiting false options rest

end Options

/-- The settings that the options of a plan ask for. -/
def planSettings (root : String) (directories : List String) (options : Options) : Settings :=
  { Settings.standard with
    root
    directories := if directories.isEmpty then Settings.standardDirectories else directories
    edition := options.edition.getD .es5
    pattern := options.filter }

def commands : List String := ["meta", "plan", "help"]

/-- What is asked for by a command and the words behind it. -/
def readCommand (command : String) (rest : List String) : Except Halt Request :=
  match command with
  | "meta" => do
    match (← Options.read .frontMatter none false {} rest).words with
    | file :: _ => pure (.frontMatter file)
    | [] => throw .missingArgument
  | "plan" => do
    let options ← Options.read .plan none false {} rest
    match options.words with
    | root :: directories => pure (.plan (planSettings root directories options) options.json)
    | [] => throw .missingArgument
  | "help" =>
    match rest with
    | [] => .error .help
    | word :: more =>
      if commands.contains word ∧ more = [] then .error .help
      else .error (.unknownCommand (more.headD word))
  | _ => .error (.unknownCommand command)

/-- What a command line asks for. -/
def Request.read : List String → Except Halt Request
  | [] => .error .missingCommand
  | text :: rest =>
    match Word.ofText text with
    | .plain command => readCommand command rest
    | .stop => .error .missingCommand
    | .long name value => do
      let _ ← Options.long .top {} name value
      Request.read rest
    | .short cs => do
      let _ ← Options.letters .top {} cs
      Request.read rest

end Conformance.CommandLine
