import CSharpActions.Action.Apply
import CSharpActions.Action.Search
import CSharpActions.Action.Select
import CSharpActions.Project.Namespace
import CSharpActions.Report.Failure
import CSharpActions.Workspace.Config

/-!
# How a command fails

A command line can be wrong, a command can fail in a way that it foresees, and it can be stopped by
a condition that it does not handle.
-/
namespace CSharpActions

inductive UsageError where
  | noSuchOption (name : Text) (suggestions : List Text)
  | missingValue (option : Text) (count : Nat)
  | unexpectedValue (option : Text)
  | missingArgument (name : Text)
  | missingOption (names : List Text)
  | invalidValue (hint message : Text)
  | unexpectedArguments (arguments : List Text)
  | noSuchCommand (name : Text)
  | missingCommand
  | other (message : Text)
deriving DecidableEq, Repr

namespace UsageError

/-- The names of an option as messages show them. -/
def hint (names : List Text) : Text :=
  List.intercalate " / " (names.map fun n => "'" ++ n ++ "'")

def message : UsageError → Text
  | .noSuchOption name suggestions =>
    "No such option: " ++ name ++
      match suggestions with
      | [] => []
      | [s] => " Did you mean " ++ s ++ "?"
      | ss => " (Possible options: " ++ List.intercalate ", " ss ++ ")"
  | .missingValue option count =>
    "Option " ++ Text.quoted option ++ " requires " ++
      if count = 1 then "an argument.".text else Text.ofNat count ++ " arguments."
  | .unexpectedValue option => "Option " ++ Text.quoted option ++ " does not take a value."
  | .missingArgument name => "Missing argument " ++ hint [name] ++ "."
  | .missingOption names => "Missing option " ++ hint names ++ "."
  | .invalidValue hint message => "Invalid value for " ++ hint ++ ": " ++ message
  | .unexpectedArguments arguments =>
    "Got unexpected extra argument" ++ (if arguments.length = 1 then [] else "s".text) ++ " (" ++
      List.intercalate " " arguments ++ ")"
  | .noSuchCommand name => "No such command " ++ Text.quoted name ++ "."
  | .missingCommand => "Missing command."
  | .other message => message

end UsageError

inductive CommandError where
  | usage (e : UsageError)
  | failed (f : Report.Failure)
  /-- Settings cannot be read or written. -/
  | config (e : Workspace.ConfigError)
  /-- The search for actions ends without an answer. -/
  | search (e : SearchError)
  /-- An action cannot be carried out for a reason other than a rejected batch. -/
  | stopped (e : ApplyError)
  | namespaceOf (e : NamespaceError)
  /-- A project file cannot be handed over to be read. -/
  | xml (e : Xml.Failure)
  /-- A path cannot be followed. -/
  | file (e : FileError)
  /-- A number in a message has too many digits to be written. -/
  | number (e : Text.IntegerError)
  /-- What is to be printed cannot be encoded. -/
  | unencodable

/-- That there is no such action is a failure that a command foresees. -/
def Action.NoAction.toCommandError (e : NoAction) : CommandError :=
  match e.message with
  | .ok message => .failed (.noAction message)
  | .error e => .number e

/-- A rejected batch is a failure that a command foresees. -/
def CommandError.ofApply (e : ApplyError) : CommandError :=
  match e with
  | .rejected .. => .failed (.applyFailed e.message)
  | e => .stopped e

def Workspace.ConfigError.message : Workspace.ConfigError → Text
  | .undecodable => "the configuration file is not UTF-8"
  | .limit l => l.message
  | .setting e => e.message
  | .file e => e.message

/-- What is said of the search; a number that cannot be written takes the place of that. -/
def SearchError.text (e : SearchError) : Text :=
  match e.message with
  | .ok message => message
  | .error e => e.message

def CommandError.message : CommandError → Text
  | .usage e => e.message
  | .failed f => f.message
  | .config e => e.message
  | .search e => e.text
  | .stopped e => e.message
  | .namespaceOf e => e.message
  | .xml e => e.message
  | .file e => e.message
  | .number e => e.message
  | .unencodable => Text.unencodableMessage

def CommandError.exitCode : CommandError → Int
  | .usage _ => Report.ExitCode.usage
  | .failed f => f.code
  | _ => Report.ExitCode.general

end CSharpActions
