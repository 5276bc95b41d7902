import CSharpActions.Text.Basic

/-!
# Line boundaries

Two readings of line ends: carriage returns turned into line feeds, and the lines of a text
under every line boundary of Unicode.
-/
namespace CSharpActions.Text

/-- Every CR LF and every lone CR becomes a line feed. -/
def unifyNewlines : Text → Text
  | [] => []
  | .char '\r' :: .char '\n' :: r => '\n' :: unifyNewlines r
  | c :: r => (if c = '\r' then '\n' else c) :: unifyNewlines r

def isLineBoundary (c : CodePoint) : Bool :=
  ('\n' ≤ c && c ≤ '\r') || (c.toNat ≥ 0x1c && c.toNat ≤ 0x1e) || c.toNat == 0x85 ||
    c.toNat == 0x2028 || c.toNat == 0x2029

/-- The lines of a text, each with the boundary that ends it. -/
def boundedLines : Text → List Text
  | [] => []
  | .char '\r' :: .char '\n' :: r => ['\r', '\n'] :: boundedLines r
  | c :: r =>
    if isLineBoundary c then [c] :: boundedLines r
    else
      match boundedLines r with
      | [] => [[c]]
      | l :: ls => (c :: l) :: ls

end CSharpActions.Text
