import CSharpActions.Project.ProjectFile

/-!
# Readers of project files

A reader looks at the text of one project file when it is first asked for something, and keeps what
it finds. A text that is not well formed is found to declare nothing, and is not looked at again. A
text that is not even handed over to be read fails the first question, and only that one.
-/
namespace CSharpActions

structure ProjectReader where
  text : Text
  /-- The root of the document, if that is a project and has been looked for. -/
  root : Option Xml.Element := none
  /-- Whether the text has been looked at. -/
  parsed : Bool := false

namespace ProjectReader

/-- What a reader does when it is asked for something. What it has noted stays noted where the
reading fails. -/
abbrev Reading := EStateM Xml.Failure ProjectReader

variable (parser : Xml.Parser)

def parse (text : Text) : Reading Xml.Element :=
  match parser text with
  | .ok root => pure root
  | .error e => throw e

/-- Looks at the text, and keeps its root if that is a project. -/
def look : Reading Unit := do
  modify fun r => { r with parsed := true }
  let root ← parse parser (← get).text
  if root.localName = "Project" then modify fun r => { r with root := some root }

/-- The project, if the text holds one. The text is looked at only once. -/
def project : Reading (Option Xml.Element) := do
  let r ← get
  if r.parsed then pure r.root
  else
    tryCatch (do look parser; pure (← get).root) fun e =>
      match e with
      | .malformed => pure none
      | e => throw e

/-- What a reader can be asked for. -/
inductive Query where
  | packages
  | projects
  | rootNamespace
deriving DecidableEq, Repr

inductive Answer where
  | packages (references : List PackageReference)
  | projects (names : List Text)
  | rootNamespace (name : Option Text)
deriving DecidableEq, Repr

def answerOf (file : ProjectFile) : Query → Answer
  | .packages => .packages file.packages
  | .projects => .projects file.projects
  | .rootNamespace => .rootNamespace file.rootNamespace

/-- The answer of the project, or the one where there is none. -/
def answer (q : Query) : Reading Answer := do
  match ← project parser with
  | some root => return answerOf (ProjectFile.ofProject root) q
  | none => return answerOf {} q

/-- The answers to one question after the other. -/
def answers : List Query → Reading (List Answer)
  | [] => return []
  | q :: r => return (← answer parser q) :: (← answers r)

end ProjectReader

end CSharpActions
