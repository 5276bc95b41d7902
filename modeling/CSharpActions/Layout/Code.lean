import CSharpActions.Text.Basic

/-!
# Code without comments and literals

The scan of a line keeps its code and leaves out comments and the insides of literals; a literal
leaves an empty pair of quotes. Block comments, verbatim strings and raw strings carry over to the
next line.
-/
namespace CSharpActions.Layout

/-- What a line begins inside of. -/
inductive Carry where
  | code
  | block
  | verbatim
  | raw
deriving DecidableEq, Repr

/-- Where the scan of a line stands; a quoted literal never leaves its line. -/
inductive Mode where
  | carried (c : Carry)
  | quoted (quote : CodePoint)
deriving DecidableEq, Repr

def emit (out : Text) (rest : Text × Carry) : Text × Carry := (out ++ rest.1, rest.2)

/-- The code of the rest of a line, and what the next line begins inside of. -/
def scan : Mode → Text → Text × Carry
  | .carried c, [] => ([], c)
  | .quoted q, [] => ([q, q], .code)
  | .carried .block, .char '*' :: .char '/' :: r => scan (.carried .code) r
  | .carried .block, _ :: r => scan (.carried .block) r
  | .carried .raw, .char '"' :: .char '"' :: .char '"' :: r =>
    emit ['"', '"'] (scan (.carried .code) r)
  | .carried .raw, _ :: r => scan (.carried .raw) r
  | .carried .verbatim, .char '"' :: .char '"' :: r => scan (.carried .verbatim) r
  | .carried .verbatim, .char '"' :: r => emit ['"', '"'] (scan (.carried .code) r)
  | .carried .verbatim, _ :: r => scan (.carried .verbatim) r
  | .quoted q, .char '\\' :: _ :: r => scan (.quoted q) r
  | .quoted q, c :: r => if c = q then emit [q, q] (scan (.carried .code) r)
      else scan (.quoted q) r
  | .carried .code, .char '/' :: .char '/' :: _ => ([], .code)
  | .carried .code, .char '/' :: .char '*' :: r => scan (.carried .block) r
  | .carried .code, .char '"' :: .char '"' :: .char '"' :: r => scan (.carried .raw) r
  | .carried .code, .char '@' :: .char '"' :: r => scan (.carried .verbatim) r
  | .carried .code, .char '$' :: .char '@' :: .char '"' :: r => scan (.carried .verbatim) r
  | .carried .code, .char '@' :: .char '$' :: .char '"' :: r => scan (.carried .verbatim) r
  | .carried .code, c :: r =>
    if c = '"' || c = '\'' then scan (.quoted c) r else emit [c] (scan (.carried .code) r)

/-- The code of a line that begins inside of `c`, and what the next line begins inside of. -/
def stripLine (c : Carry) (line : Text) : Text × Carry := scan (.carried c) line

/-- The code of each line, each with what the line after it begins inside of. -/
def stripLines (c : Carry) : List Text → List (Text × Carry)
  | [] => []
  | l :: r =>
    let stripped := stripLine c l
    stripped :: stripLines stripped.2 r

end CSharpActions.Layout
