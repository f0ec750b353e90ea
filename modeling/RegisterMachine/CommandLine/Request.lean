import RegisterMachine.Text.Integer

/-!
# Requests

The words of a command line are read from left to right. Options that concern every command come
first, then the command, then the words that belong to it: a file, inputs where the command takes
some, and options of its own in any place.

A word is an option if it starts with a dash, unless it is a dash alone, a negative number or has a
blank in it. The value of an option is the word behind it, which must not be an option itself.
Inputs stand directly behind the file; once an option has come between, no more of them are taken.

* `Request.read` — what a list of words asks for, if they can be used;
* `Dismissal` — how a list of words is answered that asks for no command.
-/

namespace RegisterMachine.CommandLine

/-! ### Commands and their options -/

/-- The commands. -/
inductive Verb where
  | run
  | view
  | degree
  | cost
  | debug
  | functions
  deriving DecidableEq, Repr

/-- The options that commands take. -/
inductive Setting where
  | program
  | degree
  | tier
  | trace
  | history
  deriving DecidableEq, Repr

namespace Verb

/-- The command that a word names. -/
def ofWord? : String → Option Verb
  | "run" => some run
  | "view" => some view
  | "degree" => some degree
  | "cost" => some cost
  | "debug" => some debug
  | "functions" | "fn" => some functions
  | _ => none

/-- The options of a command. -/
def settings : Verb → List Setting
  | run => [.program, .degree, .tier, .trace]
  | view => [.program, .degree, .history]
  | degree => [.program]
  | cost => [.program, .tier]
  | debug => [.program, .degree]
  | functions => []

/-- The commands that run a program take inputs for it. -/
def takesInputs : Verb → Bool
  | run | debug => true
  | _ => false

end Verb

/-- The option that a word names. -/
def Setting.ofWord? : String → Option Setting
  | "-p" | "--program" => some program
  | "-d" | "--degree" => some degree
  | "-a" | "--arch" => some tier
  | "-t" | "--trace" => some trace
  | "--history" => some history
  | _ => none

/-- What a command line asks for. -/
structure Request where
  /-- The command. -/
  verb : Verb
  /-- The path of the assembly file. -/
  file : String
  /-- The inputs of a run. -/
  inputs : List String
  /-- The function to use, if it is not the main program. -/
  program? : Option String
  /-- The degree to expand to. -/
  degree : Int
  /-- The tier to use. -/
  tier? : Option String
  /-- Every step is to be shown. -/
  traced : Bool
  /-- What an instruction was expanded from is to be shown. -/
  history : Bool
  /-- Colours may be used. -/
  colored : Bool
  deriving DecidableEq, Repr

/-! ### Words -/

/-- An unsigned number, possibly with a fraction. -/
def isUnsigned (cs : List Char) : Bool :=
  match cs.dropWhile Text.isDecimal with
  | [] => !cs.isEmpty
  | '.' :: digits => !digits.isEmpty && digits.all Text.isDecimal
  | _ => false

/-- A word that is an option, whether a command takes it or not. -/
def isOption (word : String) : Bool :=
  match word.toList with
  | '-' :: c :: cs => !isUnsigned (c :: cs) && !(c :: cs).contains ' '
  | _ => false

/-- How words are answered that ask for no command. -/
inductive Dismissal where
  /-- The words cannot be used. -/
  | misuse
  /-- They ask for the version. -/
  | version
  /-- They ask how to use the program. -/
  | help
  deriving DecidableEq, Repr

/-- How to use the program. -/
def usage : String :=
  "usage: semu [--no-color] [-v] [--version] COMMAND FILE [INPUT ...] [OPTION ...]\n\n"
    ++ "commands: run, view, degree, cost, debug, functions (fn)\n"
    ++ "options:  -p NAME, -d DEGREE, -a TIER, -t, --history"

namespace Dismissal

/-- The exit status. -/
def status : Dismissal → Nat
  | misuse => 2
  | version | help => 0

/-- What is printed. -/
def text : Dismissal → String
  | version => "semu 0.4.0"
  | misuse | help => usage

end Dismissal

/-! ### The words of a command -/

/-- What a plain word means. -/
inductive Stage where
  /-- It is the file. -/
  | file
  /-- It is an input. -/
  | inputs
  /-- It has no meaning. -/
  | complete
  deriving DecidableEq, Repr

/-- A request whose words have been read in part. -/
structure Reading where
  /-- What was asked for up to here. -/
  request : Request
  /-- What the next plain word means. -/
  stage : Stage
  /-- There were words without meaning. -/
  surplus : Bool
  deriving DecidableEq, Repr

namespace Reading

/-- A command whose words are still to be read. -/
def ofVerb (verb : Verb) (colored : Bool) : Reading where
  request :=
    { verb, file := "", inputs := [], program? := none, degree := 0, tier? := none,
      traced := false, history := false, colored }
  stage := .file
  surplus := false

/-- Reads a plain word. -/
def plain (r : Reading) (word : String) : Reading :=
  match r.stage with
  | .file =>
    { r with
      request := { r.request with file := word }
      stage := if r.request.verb.takesInputs then .inputs else .complete }
  | .inputs => { r with request := { r.request with inputs := r.request.inputs ++ [word] } }
  | .complete => { r with surplus := true }

/-- An option ends the inputs. -/
def endInputs (r : Reading) : Reading :=
  if r.stage = .inputs then { r with stage := .complete } else r

/-- An option that stands for itself. -/
def flag? (r : Reading) : Setting → Option Reading
  | .trace => some { r with request := { r.request with traced := true } }
  | .history => some { r with request := { r.request with history := true } }
  | .program | .degree | .tier => none

/-- An option with its value. -/
def set (r : Reading) (value : String) : Setting → Except Dismissal Reading
  | .program => .ok { r with request := { r.request with program? := some value } }
  | .tier => .ok { r with request := { r.request with tier? := some value } }
  | .degree =>
    match Text.integer? value.toList with
    | some degree => .ok { r with request := { r.request with degree } }
    | none => .error .misuse
  | .trace | .history => .error .misuse

/-- The option of a command that a word names. -/
def setting? (r : Reading) (word : String) : Option Setting :=
  (Setting.ofWord? word).filter r.request.verb.settings.contains

/-- Reads the words of a command. -/
def words : List String → Reading → Except Dismissal Reading
  | [], r => .ok r
  | word :: rest, r =>
    if !isOption word then words rest (r.plain word)
    else if word = "-h" || word = "--help" then .error .help
    else match r.setting? word with
      | none => words rest { r.endInputs with surplus := true }
      | some setting =>
        match r.endInputs.flag? setting with
        | some r => words rest r
        | none =>
          match rest with
          | [] => .error .misuse
          | value :: rest =>
            if isOption value then .error .misuse
            else do words rest (← r.endInputs.set value setting)

/-- The request, if it is complete and all words have a meaning. -/
def finish (r : Reading) : Except Dismissal Request :=
  if r.surplus || r.stage == .file then .error .misuse else .ok r.request

end Reading

/-! ### Whole command lines -/

/-- Reads a command line behind some of its leading options. -/
def Request.readFrom : List String → (colored surplus : Bool) → Except Dismissal (Option Request)
  | [], _, surplus => if surplus then .error .misuse else .ok none
  | word :: rest, colored, surplus =>
    if isOption word then
      match word with
      | "--no-color" => readFrom rest false surplus
      | "-v" | "--verbose" => readFrom rest colored surplus
      | "--version" => .error .version
      | "-h" | "--help" => .error .help
      | _ => readFrom rest colored true
    else
      match Verb.ofWord? word with
      | none => .error .misuse
      | some verb => do
        let r ← Reading.words rest (.ofVerb verb colored)
        some <$> { r with surplus := surplus || r.surplus }.finish

/-- What a command line asks for; nothing if it names no command. -/
def Request.read (words : List String) : Except Dismissal (Option Request) :=
  readFrom words true false

end RegisterMachine.CommandLine
