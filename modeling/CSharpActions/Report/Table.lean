import CSharpActions.Json.Printer
import CSharpActions.Text.Blank

/-!
# Plain text reports
-/
namespace CSharpActions.Report

/-- A place in a file, as far as it is known. -/
def location (path : Text) (line column : Option Int) : Text :=
  match line, column with
  | none, _ => path
  | some l, none => path ++ ":" ++ Text.ofInt l
  | some l, some c => path ++ ":" ++ Text.ofInt l ++ ":" ++ Text.ofInt c

/-- A row with more cells than there are columns. -/
structure RowTooLong where
deriving DecidableEq, Repr

def RowTooLong.message : Text := "list index out of range"

/-- The column widths that a row needs, given those of the rows before it. -/
def widen (widths : List Nat) (row : List Text) : List Nat :=
  match widths, row with
  | w :: ws, c :: cs => max w c.length :: widen ws cs
  | ws, [] => ws
  | [], _ => []

def padCells (widths : List Nat) (row : List Text) : List Text :=
  List.zipWith Text.padRight widths row

def joinCells (cells : List Text) : Text := List.intercalate "  " cells

def rowLine (widths : List Nat) (row : List Text) : Except RowTooLong Text :=
  if widths.length < row.length then .error {}
  else .ok (Text.dropEndWhile Text.isBlank (joinCells (padCells widths row)))

/-- A table with a ruled heading. A row may have fewer cells than there are columns. -/
def table (headers : List Text) (rows : List (List Text)) : Except RowTooLong Text :=
  if rows.isEmpty then .ok "(none)"
  else
    let widths := rows.foldl widen (headers.map (·.length))
    match rows.mapM (rowLine widths) with
    | .error e => .error e
    | .ok lines =>
      .ok (List.intercalate [.char '\n'] (joinCells (padCells widths headers) ::
        joinCells (widths.map fun w => Text.copies w '-') :: lines))

end CSharpActions.Report
