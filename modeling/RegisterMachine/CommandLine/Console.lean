import RegisterMachine.Bounded

/-!
# Consoles

A command prints texts one after another and ends well or stops with a failure. What it printed
before a failure stays printed.

Most failures are reported to the user. A text that breaks off in the middle of a word or a numeral
without a value is not: the program then ends without a report.

* `Console` — commands that print;
* `Outcome` — what is seen of a command.
-/

namespace RegisterMachine.CommandLine

/-- A computation that prints texts. -/
abbrev Console := ExceptT Stop (StateM (Array String))

instance : MonadLift (Except Error) Console := ⟨orStop⟩

/-- Prints a text on lines of its own. -/
def say (text : String) : Console Unit :=
  modify fun (texts : Array String) => texts.push text

/-- How a command ends. -/
inductive Ending where
  /-- It ends with a status. -/
  | status (code : Nat)
  /-- It is stopped by a failure that is not reported. -/
  | broken (cause : Stop)
  deriving Repr

/-- What is seen of a command. -/
structure Outcome where
  /-- The printed texts, each on lines of its own. -/
  texts : List String
  /-- The end of the command. -/
  ending : Ending
  deriving Repr

/-- All that was printed. -/
def Outcome.printed (o : Outcome) : String :=
  String.join (o.texts.map (· ++ "\n"))

/-- The report of a failure, if it has one. The report of an unknown tier is quoted. -/
def report? (cause : Error) : Option String :=
  match cause with
  | .unknownTier _ => some (Text.quoted cause.message)
  | .numeral _ | .unreadable .. | .programCounter .. => none
  | _ => some cause.message

/-- Runs a command. A failure is reported by `render`, as the last text, with the status `1`. -/
def Console.outcome (command : Console Unit) (render : String → String) : Outcome :=
  match command.run.run #[] with
  | (.ok (), texts) => ⟨texts.toList, .status 0⟩
  | (.error (.error cause), texts) =>
    match report? cause with
    | some report => ⟨texts.toList ++ [render report], .status 1⟩
    | none => ⟨texts.toList, .broken (.error cause)⟩
  | (.error .outOfFuel, texts) => ⟨texts.toList, .broken .outOfFuel⟩

end RegisterMachine.CommandLine
