import CSharpActions.Diff.Matching
import CSharpActions.Text.Decimal
import CSharpActions.Text.Newline

/-!
# Unified diffs

A diff shows the changed lines of a text with three lines around them.
-/
namespace CSharpActions.Diff

/-- A stretch of the first sequence that becomes a stretch of the second one. -/
structure Change where
  same : Bool
  left : Nat
  leftEnd : Nat
  right : Nat
  rightEnd : Nat
deriving DecidableEq, Repr

/-- The changes from the given indices on, given the remaining blocks. -/
def changesFrom (left right leftSize rightSize : Nat) : List Block → List Change
  | [] =>
    if left < leftSize || right < rightSize then [⟨false, left, leftSize, right, rightSize⟩]
    else []
  | m :: r =>
    let gap : List Change :=
      if left < m.left || right < m.right then [⟨false, left, m.left, right, m.right⟩] else []
    gap ++ ⟨true, m.left, m.left + m.size, m.right, m.right + m.size⟩ ::
      changesFrom (m.left + m.size) (m.right + m.size) leftSize rightSize r

def changes [BEq α] [Hashable α] (a b : List α) : List Change :=
  changesFrom 0 0 a.length b.length (matchingBlocks a b)

/-- The number of unchanged lines around a change. -/
def context : Nat := 3

/-- Shortens an unchanged first stretch to its last lines. -/
def trimFirst : List Change → List Change
  | c :: r =>
    if c.same then
      { c with left := max c.left (c.leftEnd - context),
               right := max c.right (c.rightEnd - context) } :: r
    else c :: r
  | [] => []

/-- Shortens an unchanged last stretch to its first lines. -/
def trimLast (cs : List Change) : List Change :=
  match cs.getLast? with
  | some c =>
    if c.same then
      cs.dropLast ++ [{ c with leftEnd := min c.leftEnd (c.left + context),
                               rightEnd := min c.rightEnd (c.right + context) }]
    else cs
  | none => cs

/-- Splits the changes into groups at the long unchanged stretches. -/
def groupFrom (group : List Change) : List Change → List (List Change)
  | [] => [group]
  | c :: r =>
    if c.same && 2 * context < c.leftEnd - c.left then
      let head : Change :=
        { c with leftEnd := min c.leftEnd (c.left + context),
                 rightEnd := min c.rightEnd (c.right + context) }
      let tail : Change :=
        { c with left := max c.left (c.leftEnd - context),
                 right := max c.right (c.rightEnd - context) }
      (group ++ [head]) :: groupFrom [tail] r
    else groupFrom (group ++ [c]) r

/-- The groups of changes, each with the unchanged lines around it. -/
def groups (cs : List Change) : List (List Change) :=
  (groupFrom [] (trimLast (trimFirst cs))).filter fun g => g.any fun c => !c.same

/-- A range of lines in the heading of a group. -/
def rangeText (start stop : Nat) : Text :=
  if stop - start = 1 then Text.ofNat (start + 1)
  else Text.ofNat (if stop = start then start else start + 1) ++ "," ++ Text.ofNat (stop - start)

def marked (mark : CodePoint) (lines : List Text) (start stop : Nat) : Text :=
  ((lines.drop start).take (stop - start)).flatMap (mark :: ·)

def changeText (a b : List Text) (c : Change) : Text :=
  if c.same then marked ' ' a c.left c.leftEnd
  else marked '-' a c.left c.leftEnd ++ marked '+' b c.right c.rightEnd

def groupText (a b : List Text) (g : List Change) : Text :=
  match g.head?, g.getLast? with
  | some first, some last =>
    "@@ -" ++ rangeText first.left last.leftEnd ++ " +" ++ rangeText first.right last.rightEnd ++
      " @@\n" ++ g.flatMap (changeText a b)
  | _, _ => []

/-- The diff between two texts of a file; equal texts have none. -/
def unified (path before after : Text) : Text :=
  let a := Text.boundedLines before
  let b := Text.boundedLines after
  match groups (changes a b) with
  | [] => []
  | gs => "--- a/" ++ path ++ "\n+++ b/" ++ path ++ "\n" ++ gs.flatMap (groupText a b)

end CSharpActions.Diff
