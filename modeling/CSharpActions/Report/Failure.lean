import CSharpActions.Json.Basic

/-!
# Exit codes and structured errors

Every failure of a command has an exit code; tools report a failure as a JSON object that says
whether it is worth another try.
-/
namespace CSharpActions.Report

namespace ExitCode

def success : Int := 0
def general : Int := 1
def usage : Int := 2
def fileMissing : Int := 3
def noAction : Int := 6
def applyFailed : Int := 7

/-- What an exit code means. -/
def description? (code : Int) : Option Text :=
  if code = success then some "success"
  else if code = general then some "unexpected error"
  else if code = usage then some "invalid usage (bad arguments or flags)"
  else if code = fileMissing then some "source file not found"
  else if code = noAction then some "no matching code action at this position"
  else if code = applyFailed then some "edit could not be applied"
  else none

end ExitCode

/-- A failure that the program foresees. -/
inductive Failure where
  | general (message : Text) (code : Int)
  | fileMissing (path : Text)
  | noAction (message : Text)
  | applyFailed (message : Text)
deriving DecidableEq, Repr

namespace Failure

def message : Failure → Text
  | .general message _ => message
  | .fileMissing path => "File not found: " ++ path
  | .noAction message => message
  | .applyFailed message => message

def code : Failure → Int
  | .general _ code => code
  | .fileMissing _ => ExitCode.fileMissing
  | .noAction _ => ExitCode.noAction
  | .applyFailed _ => ExitCode.applyFailed

def noActionMessage : Text := "No matching code action at this position."

def applyFailedMessage : Text := "Edit could not be applied."

/-- The name of a failure for tools, and what to do about it. -/
def wordAndHint (code : Int) : Text × Text :=
  if code = ExitCode.fileMissing then
    ("FILE_NOT_FOUND", "check the path; it must point to an existing .cs file.")
  else if code = ExitCode.noAction then
    ("NO_ACTION", "call sharpkit_code_actions at the same position to see what is offered.")
  else if code = ExitCode.applyFailed then
    ("APPLY_FAILED", "the file changed on disk; list the actions again and retry.")
  else ("COMMAND_FAILED", "check arguments and try again.")

end Failure

/-- Marks an object as an error for tools: it gets an error code if it has none, is worth another
try if the edit was not applied, and repeats its hint as the suggested action. -/
def structured (fields : List (Text × Json)) : List (Text × Json) :=
  let fields := Json.setField "isError" (.bool true) fields
  let code := (fields.lookup "error_code".text).getD (.str "UNKNOWN")
  let fields := Json.setField "error_code" code fields
  let retryable := code.text? == some "APPLY_FAILED".text
  let fields := Json.setField "retryable" (.bool retryable) fields
  let hint := (fields.lookup "hint".text).getD (.str "check the error message")
  Json.setField "suggested_action" hint fields

/-- The error object of a failure. -/
def errorJson (message word hint : Text) (code : Int) : Json :=
  .obj (structured [("error", .str message), ("error_code", .str word), ("hint", .str hint),
    ("exit_code", .int code)])

def Failure.toJson (f : Failure) : Json :=
  let (word, hint) := wordAndHint f.code
  errorJson f.message word hint f.code

/-- What clients are told about a tool: only the tool that applies actions writes files. -/
def toolHints (tool : Text) : Json :=
  let readOnly := tool ≠ "sharpkit_apply_action".text
  .obj [("readOnlyHint", .bool readOnly), ("idempotentHint", .bool readOnly),
    ("openWorldHint", .bool false)]

end CSharpActions.Report
