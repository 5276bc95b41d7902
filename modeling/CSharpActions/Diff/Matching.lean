import Std.Data.HashMap

/-!
# Matching sequences

The matching of two sequences takes the longest block that both have, the earliest one of several,
and goes on to the left and to the right of it. In a long second sequence an item that occurs too
often does not begin a block, but can lengthen one.
-/
namespace CSharpActions.Diff

variable {α : Type} [BEq α] [Hashable α]

/-- A block of `size` items from `left` in the first and from `right` in the second sequence. -/
structure Block where
  left : Nat
  right : Nat
  size : Nat
deriving DecidableEq, Repr

/-- The indices of each item of a sequence, rising. -/
def occurrences (b : List α) : Std.HashMap α (List Nat) :=
  b.zipIdx.foldr (fun (x, j) m => m.alter x fun js => some (j :: js.getD [])) {}

/-- An item is too frequent in a sequence of 200 items or more if it makes up over one percent. -/
def indexOf (b : List α) : Std.HashMap α (List Nat) :=
  let index := occurrences b
  if 200 ≤ b.length then index.filter fun _ js => js.length ≤ b.length / 100 + 1 else index

/-- Lengths of the common runs that end at an item of the second sequence. -/
abbrev Runs := Std.HashMap Nat Nat

/-- Extends the runs by item `i` of the first sequence, which stands at the indices `js` of the
second one, and keeps the best block so far. -/
def extendRuns (blo bhi i : Nat) (runs : Runs) : List Nat → Runs → Block → Runs × Block
  | [], fresh, best => (fresh, best)
  | j :: js, fresh, best =>
    if j < blo then extendRuns blo bhi i runs js fresh best
    else if bhi ≤ j then (fresh, best)
    else
      let k := (if j = 0 then 0 else runs.getD (j - 1) 0) + 1
      let best := if best.size < k then ⟨i + 1 - k, j + 1 - k, k⟩ else best
      extendRuns blo bhi i runs js (fresh.insert j k) best

def bestBlock (index : Std.HashMap α (List Nat)) (blo bhi : Nat) :
    Nat → List α → Runs → Block → Block
  | _, [], _, best => best
  | i, x :: xs, runs, best =>
    let (runs, best) := extendRuns blo bhi i runs (index.getD x []) {} best
    bestBlock index blo bhi (i + 1) xs runs best

/-- Lengthens a block at its beginning while the items before it are equal. -/
def growLeft (a b : Array α) (alo blo : Nat) : Nat → Block → Block
  | 0, block => block
  | fuel + 1, block =>
    if alo < block.left && blo < block.right &&
        a[block.left - 1]? == b[block.right - 1]? then
      growLeft a b alo blo fuel ⟨block.left - 1, block.right - 1, block.size + 1⟩
    else block

/-- Lengthens a block at its end while the items after it are equal. -/
def growRight (a b : Array α) (ahi bhi : Nat) : Nat → Block → Block
  | 0, block => block
  | fuel + 1, block =>
    if block.left + block.size < ahi && block.right + block.size < bhi &&
        a[block.left + block.size]? == b[block.right + block.size]? then
      growRight a b ahi bhi fuel ⟨block.left, block.right, block.size + 1⟩
    else block

/-- The longest block between the given bounds. -/
def longestBlock (a b : Array α) (index : Std.HashMap α (List Nat)) (alo ahi blo bhi : Nat) :
    Block :=
  let best := bestBlock index blo bhi alo (a.extract alo ahi).toList {} ⟨alo, blo, 0⟩
  let best := growLeft a b alo blo a.size best
  growRight a b ahi bhi a.size best

/-- The blocks between the given bounds, from left to right. -/
def blocksBetween (a b : Array α) (index : Std.HashMap α (List Nat)) :
    Nat → Nat → Nat → Nat → Nat → List Block
  | 0, _, _, _, _ => []
  | fuel + 1, alo, ahi, blo, bhi =>
    let m := longestBlock a b index alo ahi blo bhi
    if m.size = 0 then []
    else
      let left :=
        if alo < m.left && blo < m.right then blocksBetween a b index fuel alo m.left blo m.right
        else []
      let right :=
        if m.left + m.size < ahi && m.right + m.size < bhi then
          blocksBetween a b index fuel (m.left + m.size) ahi (m.right + m.size) bhi
        else []
      left ++ m :: right

/-- Joins blocks that touch each other. -/
def joinBlocks : List Block → List Block
  | m :: n :: r =>
    if m.left + m.size = n.left && m.right + m.size = n.right then
      joinBlocks (⟨m.left, m.right, m.size + n.size⟩ :: r)
    else m :: joinBlocks (n :: r)
  | r => r
termination_by ms => ms.length

/-- The maximal common blocks of two sequences, from left to right. -/
def matchingBlocks (a b : List α) : List Block :=
  joinBlocks (blocksBetween a.toArray b.toArray (indexOf b) (a.length + 1) 0 a.length 0 b.length)

/-- The number of matched items. -/
def matched (a b : List α) : Nat := (matchingBlocks a b).foldl (fun n m => n + m.size) 0

end CSharpActions.Diff
