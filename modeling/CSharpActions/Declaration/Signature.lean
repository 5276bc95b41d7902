import CSharpActions.Declaration.Property

/-!
# Signatures

A signature is a modifier in any letter case, one blank, a name that ends at the first opening
parenthesis on the same line, and the text up to the first closing parenthesis, which may stand on
a later line.
-/
namespace CSharpActions

structure Signature where
  modifier : Text
  name : Text
  parameters : Text
  offset : Nat
deriving DecidableEq, Repr

namespace Signature

/-- Whether a character is the given small letter in some case. The letter i also has a capital
with a dot and a small form without. -/
def matchesLetter (letter c : CodePoint) : Bool :=
  c.toLower = letter || (letter = 'i' && (c = '\u0130' || c = '\u0131'))

/-- Reads a word in any letter case: the word as it is written, and what follows. -/
def word? : Text → Text → Option (Text × Text)
  | [], t => some ([], t)
  | _ :: _, [] => none
  | p :: ps, c :: cs =>
    if matchesLetter p c then (word? ps cs).map fun (w, r) => (c :: w, r) else none

/-- Reads up to the first opening parenthesis on this line, and drops it. -/
def name? : Text → Option (Text × Text)
  | [] => none
  | c :: r =>
    if c = '(' then some ([], r)
    else if c = '\n' then none
    else (name? r).map fun (n, s) => (c :: n, s)

/-- The text before the first closing parenthesis. -/
def parameters? : Text → Option Text
  | [] => none
  | c :: r => if c = ')' then some [] else (parameters? r).map (c :: ·)

/-- The signature at the beginning of a text. -/
def head? (t : Text) : Option (Text × Text × Text) :=
  (PropertyDecl.modifiers.findSome? fun m => word? m t).bind fun (modifier, r) =>
    match r with
    | [] => none
    | c :: r =>
      if Text.isBlank c then
        (name? r).bind fun (name, r) =>
          (parameters? r).map fun parameters => (modifier, Text.trim name, parameters)
      else none

/-- The first signature of a text. -/
def find? (t : Text) : Option Signature :=
  (Text.leftmost? head? t).map fun (i, modifier, name, parameters) =>
    ⟨modifier, name, parameters, i⟩

end Signature

end CSharpActions
